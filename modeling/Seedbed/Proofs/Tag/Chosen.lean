import Seedbed.Proofs.Alike

/-! What the replacing of tags depends on. The tags that are replaced are found in the text alone,
before anything is put in for them, so no more of the environment and the registry is seen than what
these tags name. A registry that only gains labels leaves what came through as it was. -/

namespace Seedbed

namespace Registry

/-- The registry with more labels: each is inserted, once or several times, under none that the
registry holds. -/
inductive Extends (r : Registry) : Registry → Prop
  | refl : r.Extends r
  | insert {r' : Registry} {label : String} (h : r.Extends r') (fresh : r.has label = false)
      (id : String) : r.Extends (r'.insert label id)

theorem ne_of_lookup {r : Registry} {l label id : String} (h : r.lookup l = some id)
    (fresh : r.has label = false) : l ≠ label := by
  rintro rfl
  have hl : r.ids.get? l = some id := h
  rw [has, Keyed.contains, hl] at fresh
  cases fresh

theorem Extends.lookup {r r' : Registry} {l id : String} (h : r.Extends r')
    (hl : r.lookup l = some id) : r'.lookup l = some id := by
  induction h with
  | refl => exact hl
  | insert _ fresh _ ih => rw [lookup_insert, if_neg (ne_of_lookup hl fresh), ih]

end Registry

variable {σ : Type}

/-- What came through comes through alike under a registry with more labels. -/
theorem substitute_extends {scope : Scope σ} {names : Registry} (h : scope.names.Extends names)
    {text result : String} {w w' : σ} (hr : substitute scope text w = (.ok result, w')) :
    substitute ⟨names, scope.environment⟩ text w = (.ok result, w') := by
  obtain ⟨t, ht, hall⟩ := Split.exists_allFree text.toList
  have hc : t.Clear := (Split.clear_iff t).2 hall
  rcases Action.each_or_fails (Tag.resolve scope) t.tags w with
    ⟨texts, w₁, he⟩ | ⟨done, tag, texts, e, w₁, hf⟩
  · -- every tag has a text, so every reference is to a label that the registry holds
    have hsame : ∀ tag ∈ t.tags,
        tag.resolve ⟨names, scope.environment⟩ = tag.resolve scope := by
      intro tag hmem
      refine tag.resolve_congr scope.environment fun href => ?_
      obtain ⟨id, w₂, w₃, hid⟩ := he.exists_of_mem hmem
      have hl := Tag.lookup_of_resolve scope href hid
      rw [hl, h.lookup hl]
    rw [substitute_congr ht hc hsame, hr]
  · cases (substitute_error ht hc hf).symm.trans hr

/-- There is one way to cut a text so that none of its tags begins within a literal. Scopes that
have the same for the tags of this cut give the same text or the same error. What came through
comes through alike under every registry that has more labels. -/
theorem substitute_chosen (text : String) :
    ∃ t : Split, (t.text = text.toList ∧ t.Clear) ∧
      (∀ t' : Split, t'.text = text.toList → t'.Clear → t' = t) ∧
      (∀ {σ τ : Type} (R : σ → τ → Prop) (a : Scope σ) (b : Scope τ), a.AgreeOn R t.tags b →
        Action.Alike R (substitute a text) (substitute b text)) ∧
      ∀ {σ : Type} (scope : Scope σ) (names : Registry), scope.names.Extends names →
        ∀ w result w', substitute scope text w = (.ok result, w') →
          substitute ⟨names, scope.environment⟩ text w = (.ok result, w') := by
  obtain ⟨t, ht, hall⟩ := Split.exists_allFree text.toList
  have hc : t.Clear := (Split.clear_iff t).2 hall
  refine ⟨t, ⟨ht, hc⟩, ?_, ?_, ?_⟩
  · intro t' ht' hc'
    exact Split.clear_unique hc' hc (ht'.trans ht.symm)
  · intro σ τ R a b h
    exact alike_substitute ht hc h
  · intro σ scope names h w result w' hr
    exact substitute_extends h hr

end Seedbed
