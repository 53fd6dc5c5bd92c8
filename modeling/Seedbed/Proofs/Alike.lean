import Seedbed.Proofs.Related

/-! Steps that go alike. Two steps go alike if, from states that correspond, they answer the same
and leave states that correspond again; a step that answers by its arguments alone goes like itself
from any state. The replacing of tags, and with it a load, goes alike where the caller's functions
do and the registries hold the same for the references. -/

namespace Seedbed

variable {σ τ α β : Type}

namespace Action

variable {R : σ → τ → Prop} {a : Action σ α} {b : Action τ α}

/-- From states that correspond both steps answer the same, and leave states that correspond. -/
def Alike (R : σ → τ → Prop) (a : Action σ α) (b : Action τ α) : Prop :=
  ∀ w v, R w v → (a w).1 = (b v).1 ∧ R (a w).2 (b v).2

theorem Alike.bind {f : α → Action σ β} {g : α → Action τ β} (h : Alike R a b)
    (hf : ∀ x, Alike R (f x) (g x)) : Alike R (a >>= f) (b >>= g) := by
  intro w v hwv
  obtain ⟨hr, hleft⟩ := h w v hwv
  rcases run_cases a w with ⟨x, w₁, ha⟩ | ⟨e, w₁, ha⟩
  · have hb : b v = (.ok x, (b v).2) := Prod.ext (by rw [← hr, ha]) rfl
    rw [ha] at hleft
    rw [bind_ok ha, bind_ok hb]
    exact hf x w₁ (b v).2 hleft
  · have hb : b v = (.error e, (b v).2) := Prod.ext (by rw [← hr, ha]) rfl
    rw [ha] at hleft
    rw [bind_error ha, bind_error hb]
    exact ⟨rfl, hleft⟩

theorem Alike.adapt (h : Alike R a b) (f : Thrown → Thrown) :
    Alike R (ExceptT.adapt f a : Action σ α) (ExceptT.adapt f b) := by
  intro w v hwv
  obtain ⟨hr, hleft⟩ := h w v hwv
  rw [adapt_run, adapt_run, hr]
  exact ⟨rfl, hleft⟩

theorem congruence_alike (R : σ → τ → Prop) :
    Congruence fun {α : Type} (a : Action σ α) (b : Action τ α) => Alike R a b where
  run _ _ _ h := ⟨rfl, h⟩
  bind h hf := h.bind hf
  adapt f h := h.adapt f

/-- The step answers the same on every state. It may change the state. -/
def Steady (a : Action σ α) : Prop := ∀ w w' : σ, (a w).1 = (a w').1

theorem Steady.run {a : Action σ α} {w w₁ : σ} {r : Except Thrown α} (h : a.Steady)
    (hr : a w = (r, w₁)) (w' : σ) : ∃ w₁', a w' = (r, w₁') := by
  have hw := h w' w
  rw [hr] at hw
  exact ⟨(a w').2, Prod.ext hw rfl⟩

/-- A steady step goes like itself from any two states. -/
theorem steady_iff_alike {a : Action σ α} : a.Steady ↔ Alike (fun _ _ => True) a a := by
  constructor
  · intro h w v _
    exact ⟨h w v, trivial⟩
  · intro h w v
    exact (h w v trivial).1

/-- Of two steps that answer the same on every state, the answers may be taken on any two. -/
theorem Steady.bind₂ {γ : Type} {first : Action σ α} {second : Action σ β}
    (hfirst : first.Steady) (hsecond : second.Steady) (f : α → β → γ) (w v u : σ) :
    ((do
      let x ← first
      let y ← second
      return f x y : Action σ γ) w).1 = (do
        let x ← (first v).1
        let y ← (second u).1
        return f x y) := by
  rw [hfirst v w]
  rcases run_cases first w with ⟨x, w₁, hx⟩ | ⟨e, w₁, hx⟩
  · rw [bind_ok hx, hx, hsecond u w₁]
    rcases run_cases second w₁ with ⟨y, w₂, hy⟩ | ⟨e, w₂, hy⟩
    · rw [bind_ok hy, hy]
      rfl
    · rw [bind_error hy, hy]
      rfl
  · rw [bind_error hx, hx]
    rfl

end Action

/-! ### Tags -/

/-- Two scopes have the same for the tags: the environments go alike for the variables that tags
name, and the registries hold the same under the labels that they name. -/
structure Scope.AgreeOn (R : σ → τ → Prop) (tags : List Tag) (a : Scope σ) (b : Scope τ) :
    Prop where
  environment : ∀ tag ∈ tags, tag.directive = "ENV" →
    Action.Alike R (a.environment tag.key) (b.environment tag.key)
  names : ∀ tag ∈ tags, tag.directive = "REF" → a.names.lookup tag.key = b.names.lookup tag.key

section tags

variable {R : σ → τ → Prop} {a : Scope σ} {b : Scope τ}

/-- The replacing of tags sees no more of its scope than what these tags name. -/
theorem alike_substitute {text : String} {t : Split} (ht : t.text = text.toList) (hc : t.Clear)
    (h : Scope.AgreeOn R t.tags a b) : Action.Alike R (substitute a text) (substitute b text) := by
  rw [Split.tags_eq ht hc] at h
  have hrel := Action.congruence_alike R
  exact hrel.substitute fun tag hmem => hrel.resolve (h.environment tag hmem) (h.names tag hmem)

end tags

/-! ### Loads -/

structure Source.Steady (source : Source σ) : Prop where
  reader : ∀ filename dir, (source.reader filename dir).Steady
  environment : ∀ key, (source.environment key).Steady

def Decoder.Steady (decoder : Decoder σ) : Prop := ∀ text, (decoder text).Steady

section loads

variable {source : Source σ} {filename : String} {decoder : Decoder σ} {dir : Option String}
  {names names' : Registry} {w : σ}

theorem steady_substitute {scope : Scope σ} (h : ∀ key, (scope.environment key).Steady)
    (text : String) : (substitute scope text).Steady := by
  obtain ⟨t, ht, hall⟩ := Split.exists_allFree text.toList
  refine Action.steady_iff_alike.2 (alike_substitute ht ((Split.clear_iff t).2 hall) ?_)
  exact ⟨fun tag _ _ => Action.steady_iff_alike.1 (h tag.key), fun _ _ _ => rfl⟩

theorem steady_loadRecords (h : source.Steady) (filename : String) (hd : decoder.Steady)
    (dir : Option String) (names : Registry) :
    (loadRecords source filename decoder dir names).Steady := by
  refine Action.steady_iff_alike.2 ((Action.congruence_alike _).loadRecords ?_ ?_ ?_)
  · exact Action.steady_iff_alike.1 (h.reader filename dir)
  · exact fun key => Action.steady_iff_alike.1 (h.environment key)
  · exact fun text => Action.steady_iff_alike.1 (hd text)

theorem loadRecords_congr
    (h : ∀ raw w₁, source.reader filename dir w = (.ok raw, w₁) → ∀ t : Split,
      t.text = raw.toList → t.Clear → ∀ tag ∈ t.tags, tag.directive = "REF" →
        names'.lookup tag.key = names.lookup tag.key) :
    loadRecords source filename decoder dir names' w =
      loadRecords source filename decoder dir names w := by
  rcases Action.run_cases (source.reader filename dir) w with
    ⟨raw, w₁, read⟩ | ⟨e, w₁, read⟩
  · obtain ⟨t, ht, hall⟩ := Split.exists_allFree raw.toList
    have hc : t.Clear := (Split.clear_iff t).2 hall
    have hsub : substitute ⟨names', source.environment⟩ raw =
        substitute ⟨names, source.environment⟩ raw :=
      substitute_congr ht hc fun tag hmem =>
        tag.resolve_congr source.environment (h raw w₁ read t ht hc tag hmem)
    have hread : Load.readText source filename dir w = (.ok raw, w₁) := Action.adapt_ok read
    rw [loadRecords, loadRecords, Action.bind_ok hread, Action.bind_ok hread, Load.replaceTags,
      Load.replaceTags, hsub]
  · rw [loadRecords_of_unread read, loadRecords_of_unread read]

end loads

end Seedbed
