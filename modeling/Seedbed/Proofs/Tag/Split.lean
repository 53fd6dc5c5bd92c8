import Seedbed.Tag.Template
import Seedbed.Proofs.Action
import Seedbed.Proofs.Tag.Scan

/-! A text cut into literals and tags, and its tags replaced in one pass. Of all ways to cut a text
there is just one where no tag of the text begins within a literal. Replacing its tags gives the
literals with the texts of the tags between them, or the error of the first tag that has none. -/

namespace Seedbed

structure Split where
  /-- Each tag with the literal before it. -/
  pieces : List (List Char × Tag.Spelling)
  tail : List Char

namespace Split

def textOf (pieces : List (List Char × Tag.Spelling)) (tail : List Char) : List Char :=
  (pieces.flatMap fun p => p.1 ++ p.2.text) ++ tail

def text (t : Split) : List Char := textOf t.pieces t.tail

def tags (t : Split) : List Tag := t.pieces.map fun p => p.2.tag

/-- Where the literals begin and end in UTF-16 units, if the text begins at `n`. -/
def literalsFrom : Nat → List (List Char × Tag.Spelling) → List Char → List (Nat × Nat)
  | n, [], tail => [(n, n + units16 tail)]
  | n, (lead, s) :: pieces, tail =>
    (n, n + units16 lead) :: literalsFrom (n + units16 lead + units16 s.text) pieces tail

/-- No tag of the text begins within a literal. -/
def Clear (t : Split) : Prop :=
  ∀ s i j, Tag.Spans t.text s i j →
    ∀ l ∈ literalsFrom 0 t.pieces t.tail, ¬ (l.1 ≤ i ∧ i < l.2)

def fill (t : Split) (texts : List String) : List Char :=
  ((t.pieces.zip texts).flatMap fun p => p.1.1 ++ p.2.toList) ++ t.tail

/-! ### The one clear split -/

/-- `Clear`, literal by literal. -/
def AllFree : List (List Char × Tag.Spelling) → List Char → Prop
  | [], tail => Tag.Free tail []
  | (lead, s) :: pieces, tail => Tag.Free lead (s.text ++ textOf pieces tail) ∧ AllFree pieces tail

@[simp] theorem textOf_nil (tail : List Char) : textOf [] tail = tail := rfl

@[simp] theorem textOf_cons (lead : List Char) (s : Tag.Spelling)
    (pieces : List (List Char × Tag.Spelling)) (tail : List Char) :
    textOf ((lead, s) :: pieces) tail = lead ++ (s.text ++ textOf pieces tail) := by
  simp [textOf]

theorem allFree_iff_spans (before : List Char) (pieces : List (List Char × Tag.Spelling))
    (tail : List Char) :
    AllFree pieces tail ↔ ∀ s i j, Tag.Spans (before ++ textOf pieces tail) s i j →
      ∀ l ∈ literalsFrom (units16 before) pieces tail, ¬ (l.1 ≤ i ∧ i < l.2) := by
  induction pieces generalizing before with
  | nil =>
    rw [AllFree, Tag.free_iff_spans before]
    simp only [List.append_nil, textOf_nil, literalsFrom, List.mem_singleton, forall_eq]
  | cons p pieces ih =>
    obtain ⟨lead, s⟩ := p
    have htext : before ++ (lead ++ s.text) ++ textOf pieces tail =
        before ++ (lead ++ (s.text ++ textOf pieces tail)) := by simp
    have hunits : units16 (before ++ (lead ++ s.text)) =
        units16 before + units16 lead + units16 s.text := by simp [Nat.add_assoc]
    rw [AllFree, Tag.free_iff_spans before, ih (before ++ (lead ++ s.text)), htext, hunits,
      textOf_cons]
    simp only [literalsFrom, List.mem_cons, forall_eq_or_imp]
    constructor
    · rintro ⟨hlead, hrest⟩ s' i j hs
      exact ⟨hlead s' i j hs, hrest s' i j hs⟩
    · intro h
      exact ⟨fun s' i j hs => (h s' i j hs).1, fun s' i j hs => (h s' i j hs).2⟩

theorem clear_iff (t : Split) : t.Clear ↔ AllFree t.pieces t.tail := by
  rw [allFree_iff_spans [] t.pieces t.tail]
  rfl

theorem allFree_unique {pieces pieces' : List (List Char × Tag.Spelling)} {tail tail' : List Char}
    (h : AllFree pieces tail) (h' : AllFree pieces' tail')
    (e : textOf pieces tail = textOf pieces' tail') : pieces = pieces' ∧ tail = tail' := by
  -- the scan of the one text finds the first tag of either cut
  induction pieces generalizing pieces' with
  | nil =>
    have hn := Tag.find?_eq_none_iff_free.2 h
    cases pieces' with
    | nil => exact ⟨rfl, e⟩
    | cons p' pieces' =>
      rw [textOf_nil, textOf_cons] at e
      rw [e, Tag.find?_append_of_free h'.1] at hn
      cases hn
  | cons p pieces ih =>
    have hs := Tag.find?_append_of_free h.1
    rw [← textOf_cons, e] at hs
    cases pieces' with
    | nil =>
      rw [textOf_nil, Tag.find?_eq_none_iff_free.2 h'] at hs
      cases hs
    | cons p' pieces' =>
      obtain ⟨lead, s⟩ := p
      obtain ⟨lead', s'⟩ := p'
      rw [textOf_cons, Tag.find?_append_of_free h'.1] at hs
      simp only [Option.some.injEq, Tag.Occurrence.mk.injEq] at hs
      obtain ⟨rfl, -, hw, hr⟩ := hs
      obtain ⟨rfl, -⟩ := Tag.Spelling.unique (congrArg (· ++ []) hw)
      obtain ⟨rfl, rfl⟩ := ih h.2 h'.2 hr.symm
      exact ⟨rfl, rfl⟩

theorem exists_allFree (cs : List Char) : ∃ t : Split, t.text = cs ∧ AllFree t.pieces t.tail := by
  induction cs using Tag.find?_induction with
  | none cs h => exact ⟨⟨[], cs⟩, rfl, Tag.find?_eq_none_iff_free.1 h⟩
  | some cs o h ih =>
    obtain ⟨s, -, -, hcs, hfree⟩ := Tag.exists_of_find? h
    obtain ⟨t, ht, hall⟩ := ih
    refine ⟨⟨(o.lead, s) :: t.pieces, t.tail⟩, ?_, ?_, hall⟩
    · rw [text, textOf_cons, ← text, ht, ← hcs]
    · rw [← text, ht]
      exact hfree

theorem clear_unique {t t' : Split} (h : t.Clear) (h' : t'.Clear) (e : t.text = t'.text) :
    t = t' := by
  obtain ⟨hp, ht⟩ := allFree_unique ((clear_iff t).1 h) ((clear_iff t').1 h') e
  cases t
  cases t'
  rw [Split.mk.injEq]
  exact ⟨hp, ht⟩

def single (lead : List Char) (s : Tag.Spelling) (tail : List Char) : Split := ⟨[(lead, s)], tail⟩

theorem text_single (lead : List Char) (s : Tag.Spelling) (tail : List Char) :
    (single lead s tail).text = lead ++ (s.text ++ tail) := by
  rw [text, single, textOf_cons, textOf_nil]

theorem clear_single {lead tail : List Char} (s : Tag.Spelling) (hlead : '$' ∉ lead)
    (htail : '$' ∉ tail) : (single lead s tail).Clear :=
  (clear_iff _).2 ⟨Tag.free_of_not_mem hlead _, Tag.free_of_not_mem htail _⟩

theorem fill_single (lead : List Char) (s : Tag.Spelling) (tail : List Char) (text : String) :
    (single lead s tail).fill [text] = lead ++ (text.toList ++ tail) := by
  simp [single, fill]

end Split

/-! ### What a tag stands for -/

namespace Tag

variable {σ : Type} (scope : Scope σ) {tag : Tag}

theorem resolve_env (h : tag.directive = "ENV") :
    tag.resolve scope = (scope.environment tag.key >>= fun value =>
      match value <|> tag.fallback with
      | some text => pure text
      | none => .fail (.missingVariable tag.key)) := by
  rw [resolve, h]
  rfl

theorem resolve_ref (h : tag.directive = "REF") :
    tag.resolve scope = match scope.names.lookup tag.key with
      | some text => pure text
      | none => .fail (.unresolvedReference tag.key) := by
  rw [resolve, h]
  rfl

theorem lookup_of_resolve {text : String} {w w' : σ} (h : tag.directive = "REF")
    (hr : tag.resolve scope w = (.ok text, w')) : scope.names.lookup tag.key = some text := by
  rw [resolve_ref _ h] at hr
  split at hr
  · rename_i text' hl
    cases hr
    exact hl
  · cases hr

/-- A reference to a label under which nothing is registered throws. -/
theorem resolve_missing (h : tag.directive = "REF") (hl : scope.names.lookup tag.key = none)
    (w : σ) : tag.resolve scope w = (.error (.fault (Fault.unresolvedReference tag.key)), w) := by
  rw [resolve_ref _ h, hl]
  rfl

theorem resolve_other (he : tag.directive ≠ "ENV") (hr : tag.directive ≠ "REF") :
    tag.resolve scope = .fail (.unsupportedDirective tag.directive tag.key) := by
  unfold resolve
  split
  · exact absurd ‹_› he
  · exact absurd ‹_› hr
  · rfl

/-- Of the registry a reference sees no more than what is found under its key, and other tags see
nothing. -/
theorem resolve_congr (environment : Environment σ) {a b : Registry}
    (h : tag.directive = "REF" → a.lookup tag.key = b.lookup tag.key) :
    tag.resolve ⟨a, environment⟩ = tag.resolve ⟨b, environment⟩ := by
  by_cases he : tag.directive = "ENV"
  · rw [resolve_env _ he, resolve_env _ he]
  · by_cases hr : tag.directive = "REF"
    · rw [resolve_ref _ hr, resolve_ref _ hr, h hr]
    · rw [resolve_other _ he hr, resolve_other _ he hr]

end Tag

/-! ### Filling the holes -/

theorem Template.cut_of_none {cs : List Char} (h : Tag.find? cs = none) : cut cs = ⟨[], cs⟩ := by
  rw [cut]
  split
  · rfl
  · rename_i o ho
    cases ho.symm.trans h

theorem Template.cut_of_some {cs : List Char} {o : Tag.Occurrence} (h : Tag.find? cs = some o) :
    cut cs = ⟨(o.lead, o.tag) :: (cut o.rest).holes, (cut o.rest).tail⟩ := by
  rw [cut]
  split
  · rename_i hn
    cases hn.symm.trans h
  · rename_i o' ho
    cases ho.symm.trans h
    rfl

theorem Template.cut_textOf {pieces : List (List Char × Tag.Spelling)} {tail : List Char}
    (h : Split.AllFree pieces tail) :
    cut (Split.textOf pieces tail) = ⟨pieces.map fun p => (p.1, p.2.tag), tail⟩ := by
  induction pieces with
  | nil =>
    rw [Split.textOf_nil, cut_of_none (Tag.find?_eq_none_iff_free.2 h)]
    rfl
  | cons p pieces ih =>
    rw [Split.textOf_cons, cut_of_some (Tag.find?_append_of_free h.1), ih h.2]
    rfl

section fill

variable {σ : Type} {scope : Scope σ} {holes : List (List Char × Tag)} {w w' : σ}

theorem Template.fillHoles_ok {texts : List String}
    (h : Action.Each (Tag.resolve scope) (holes.map Prod.snd) w texts w') :
    fillHoles scope holes w =
      (.ok ((holes.zip texts).flatMap fun p => p.1.1 ++ p.2.toList), w') := by
  induction holes generalizing w texts with
  | nil =>
    cases h
    rfl
  | cons hole holes ih =>
    cases h with
    | cons head tail =>
      rw [fillHoles, Action.bind_ok head, Action.bind_ok (ih tail)]
      rfl

theorem Template.fillHoles_error {done : List Tag} {tag : Tag} {texts : List String} {e : Thrown}
    (h : Action.FailsAt (Tag.resolve scope) (holes.map Prod.snd) w done tag texts e w') :
    fillHoles scope holes w = (.error e, w') := by
  induction holes generalizing w done texts with
  | nil => cases h
  | cons hole holes ih =>
    cases h with
    | here head => rw [fillHoles, Action.bind_error head]
    | later head tail => rw [fillHoles, Action.bind_ok head, Action.bind_error (ih tail)]

theorem substitute_eq {text : String} {t : Split} (ht : t.text = text.toList) (hc : t.Clear) :
    substitute scope text = do
      let filled ← Template.fillHoles scope (t.pieces.map fun p => (p.1, p.2.tag))
      return .ofList (filled ++ t.tail) := by
  unfold substitute Template.fill Template.ofText
  rw [← ht, Split.text, Template.cut_textOf ((Split.clear_iff t).1 hc)]

theorem Split.map_snd_holes (t : Split) :
    (t.pieces.map fun p => (p.1, p.2.tag)).map Prod.snd = t.tags := by
  rw [List.map_map]
  rfl

theorem Split.tags_eq {text : String} {t : Split} (ht : t.text = text.toList) (hc : t.Clear) :
    t.tags = (Template.ofText text).holes.map Prod.snd := by
  rw [Template.ofText, ← ht, Split.text, Template.cut_textOf ((Split.clear_iff t).1 hc)]
  exact t.map_snd_holes.symm

theorem Split.fill_holes (t : Split) (texts : List String) :
    (((t.pieces.map fun p => (p.1, p.2.tag)).zip texts).flatMap fun p => p.1.1 ++ p.2.toList) ++
      t.tail = t.fill texts := by
  rw [List.zip_map_left, List.flatMap_map]
  rfl

theorem substitute_ok {text : String} {t : Split} (ht : t.text = text.toList) (hc : t.Clear)
    {texts : List String} (h : Action.Each (Tag.resolve scope) t.tags w texts w') :
    substitute scope text w = (.ok (.ofList (t.fill texts)), w') := by
  rw [← t.map_snd_holes] at h
  rw [substitute_eq ht hc, Action.bind_ok (Template.fillHoles_ok h), t.fill_holes texts]
  rfl

theorem substitute_error {text : String} {t : Split} (ht : t.text = text.toList) (hc : t.Clear)
    {done : List Tag} {tag : Tag} {texts : List String} {e : Thrown}
    (h : Action.FailsAt (Tag.resolve scope) t.tags w done tag texts e w') :
    substitute scope text w = (.error e, w') := by
  rw [← t.map_snd_holes] at h
  rw [substitute_eq ht hc, Action.bind_error (Template.fillHoles_error h)]

/-- The first tag that throws ends it. -/
theorem substitute_stopped {text : String} {t : Split} (ht : t.text = text.toList) (hc : t.Clear)
    {done rest : List Tag} {tag : Tag} {texts : List String} {e : Thrown} {w₁ : σ}
    (hsplit : t.tags = done ++ tag :: rest) (h : Action.Each (Tag.resolve scope) done w texts w₁)
    (he : tag.resolve scope w₁ = (.error e, w')) : substitute scope text w = (.error e, w') := by
  have hf : Action.FailsAt (Tag.resolve scope) t.tags w done tag texts e w' := by
    rw [hsplit]
    exact h.failsAt he
  exact substitute_error ht hc hf

theorem Template.fillHoles_congr {scope' : Scope σ}
    (h : ∀ tag ∈ holes.map Prod.snd, tag.resolve scope = tag.resolve scope') :
    fillHoles scope holes = fillHoles scope' holes := by
  induction holes with
  | nil => rfl
  | cons hole holes ih =>
    rw [List.map_cons, List.forall_mem_cons] at h
    rw [fillHoles, fillHoles, h.1, ih h.2]

/-- The result depends on what the tags of the text stand for, and on nothing else. -/
theorem substitute_congr {text : String} {t : Split} (ht : t.text = text.toList) (hc : t.Clear)
    {scope' : Scope σ} (h : ∀ tag ∈ t.tags, tag.resolve scope = tag.resolve scope') :
    substitute scope text = substitute scope' text := by
  rw [← t.map_snd_holes] at h
  rw [substitute_eq ht hc, substitute_eq ht hc, Template.fillHoles_congr h]

end fill

/-- There is one way to cut a text so that none of its tags begins within a literal. If each tag
of that cut has a text, in order, the result is the literals with these texts between them; else it
is the error of the first tag that has none, and no step is made for a later one. -/
theorem substitute_onePass {σ : Type} (scope : Scope σ) (text : String) :
    ∃ t : Split, (t.text = text.toList ∧ t.Clear) ∧
      (∀ t' : Split, t'.text = text.toList → t'.Clear → t' = t) ∧
      ∀ w : σ,
        (∀ texts w', Action.Each (Tag.resolve scope) t.tags w texts w' →
          substitute scope text w = (.ok (.ofList (t.fill texts)), w')) ∧
        (∀ done tag texts e w', Action.FailsAt (Tag.resolve scope) t.tags w done tag texts e w' →
          substitute scope text w = (.error e, w')) ∧
        ((∃ texts w', Action.Each (Tag.resolve scope) t.tags w texts w') ∨
          ∃ done tag texts e w',
            Action.FailsAt (Tag.resolve scope) t.tags w done tag texts e w') := by
  obtain ⟨t, ht, hall⟩ := Split.exists_allFree text.toList
  have hc : t.Clear := (Split.clear_iff t).2 hall
  refine ⟨t, ⟨ht, hc⟩, ?_, fun w => ⟨?_, ?_, Action.each_or_fails _ _ w⟩⟩
  · intro t' ht' hc'
    exact Split.clear_unique hc' hc (ht'.trans ht.symm)
  · intro texts w' h
    exact substitute_ok ht hc h
  · intro done tag texts e w' h
    exact substitute_error ht hc h

end Seedbed
