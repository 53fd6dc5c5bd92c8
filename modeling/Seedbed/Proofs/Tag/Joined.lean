import Seedbed.Proofs.Alike

/-! Texts joined away from their tags. Where no tag of the joined text begins in the first part and
ends in the second one, the cut of the whole is the cut of the first part followed by that of the
second. So the tags are replaced in each part as if it stood alone. -/

namespace Seedbed

namespace Tag

/-- Every tag that begins in `a` when `b` follows it ends in `a`. -/
def Apart (a b : List Char) : Prop :=
  ∀ x y s r, a = x ++ y → y ≠ [] → y ++ b = Spelling.text s ++ r → ∃ r', y = s.text ++ r'

section apart

variable {a b x y rest : List Char}

theorem Apart.of_append (h : Apart (x ++ a) b) : Apart a b := by
  intro x' y s r e
  exact h (x ++ x') y s r (by rw [e, List.append_assoc])

/-- No tag of the whole begins in the first part and ends in the second. -/
theorem apart_of_spans
    (h : ∀ s i j, Spans (a ++ b) s i j → ¬ (i < units16 a ∧ units16 a < j)) : Apart a b := by
  rintro x y s r rfl hy e
  obtain ⟨c, y, rfl⟩ := List.exists_cons_of_ne_nil hy
  have hc := unitsOf_pos c
  have hspan : Spans (x ++ c :: y ++ b) s (units16 x) (units16 x + units16 s.text) := by
    refine spans_iff.2 ⟨x, r, ?_, rfl, rfl⟩
    rw [List.append_assoc, e]
  have hends := h s _ _ hspan
  rw [units16_append, units16_cons] at hends
  have hle : units16 s.text ≤ units16 (c :: y) := by
    rw [units16_cons]
    omega
  obtain ⟨r', e', -⟩ := append_of_units16_le e.symm hle
  exact ⟨r', e'⟩

theorem free_append : Free (x ++ y) rest ↔ Free x (y ++ rest) ∧ Free y rest := by
  induction x with
  | nil => simp [free_nil]
  | cons c x ih => rw [List.cons_append, free_cons, free_cons, ih, List.append_assoc, and_assoc]

/-- What follows after the end of a text makes no tag of what was none. -/
theorem Free.append_right (h : Free x rest) (hapart : Apart (x ++ rest) b) :
    Free x (rest ++ b) := by
  rintro x' y rfl hy ⟨s, r, e⟩
  have hne : y ++ rest ≠ [] := by simp [hy]
  obtain ⟨r', e'⟩ := hapart x' (y ++ rest) s r (by rw [List.append_assoc]) hne
    (by rw [List.append_assoc, e])
  exact h x' y rfl hy ⟨s, r', e'⟩

end apart

end Tag

namespace Split

variable {a b : Split} {tail : List Char} {pieces : List (List Char × Tag.Spelling)}

def prepend (lead : List Char) : Split → Split
  | ⟨[], tail⟩ => ⟨[], lead ++ tail⟩
  | ⟨(literal, s) :: pieces, tail⟩ => ⟨(lead ++ literal, s) :: pieces, tail⟩

/-- One split and then another. What stands after the last tag of the first one goes on with what
stands before the first tag of the second. -/
def append (a b : Split) : Split where
  pieces := a.pieces ++ (b.prepend a.tail).pieces
  tail := (b.prepend a.tail).tail

theorem textOf_append (pieces later : List (List Char × Tag.Spelling)) (tail : List Char) :
    textOf (pieces ++ later) tail = textOf pieces [] ++ textOf later tail := by
  simp [textOf]

theorem text_prepend (lead : List Char) (t : Split) : (t.prepend lead).text = lead ++ t.text := by
  obtain ⟨pieces, tail⟩ := t
  cases pieces with
  | nil => rfl
  | cons p pieces => simp [prepend, text, textOf]

theorem text_append (a b : Split) : (a.append b).text = a.text ++ b.text := by
  have hjoined : textOf (b.prepend a.tail).pieces (b.prepend a.tail).tail = a.tail ++ b.text :=
    text_prepend a.tail b
  have ha : a.text = textOf a.pieces [] ++ a.tail := by
    rw [← textOf_nil a.tail, ← textOf_append, List.append_nil, text]
  rw [append, text, textOf_append, hjoined, ha, List.append_assoc]

theorem allFree_prepend (ha : Tag.Free tail []) (hb : AllFree b.pieces b.tail)
    (h : Tag.Apart tail b.text) :
    AllFree (b.prepend tail).pieces (b.prepend tail).tail := by
  obtain ⟨pieces, btail⟩ := b
  have hfree : Tag.Free tail (textOf pieces btail) :=
    ha.append_right (by rwa [List.append_nil])
  cases pieces with
  | nil => exact Tag.free_append.2 ⟨by rwa [List.append_nil], hb⟩
  | cons p pieces =>
    obtain ⟨literal, s⟩ := p
    rw [textOf_cons] at hfree
    exact ⟨Tag.free_append.2 ⟨hfree, hb.1⟩, hb.2⟩

theorem allFree_append (ha : AllFree pieces tail) (hb : AllFree b.pieces b.tail)
    (h : Tag.Apart (textOf pieces tail) b.text) :
    AllFree (pieces ++ (b.prepend tail).pieces) (b.prepend tail).tail := by
  induction pieces with
  | nil => exact allFree_prepend ha hb h
  | cons p pieces ih =>
    obtain ⟨lead, s⟩ := p
    rw [textOf_cons, ← List.append_assoc] at h
    -- the text after this tag is that of the rest of the first part and of the second part
    have htext : textOf (pieces ++ (b.prepend tail).pieces) (b.prepend tail).tail =
        textOf pieces tail ++ b.text := text_append ⟨pieces, tail⟩ b
    have hlead := ha.1.append_right (by rwa [← List.append_assoc])
    rw [List.append_assoc, ← htext] at hlead
    exact ⟨hlead, ih ha.2 h.of_append⟩

/-- The cut of the whole is the one cut and then the other. -/
theorem clear_append (ha : a.Clear) (hb : b.Clear) (h : Tag.Apart a.text b.text) :
    (a.append b).Clear := by
  rw [clear_iff] at ha hb ⊢
  exact allFree_append ha hb h

end Split

section joined

variable {σ : Type} (scope : Scope σ)

/-- The text with what each tag stands for in its place. -/
def Split.resolved (t : Split) : Action σ (List Char) := do
  let filled ← Template.fillHoles scope (t.pieces.map fun p => (p.1, p.2.tag))
  return filled ++ t.tail

theorem Split.substitute_eq_resolved {text : String} {t : Split} (ht : t.text = text.toList)
    (hc : t.Clear) : substitute scope text = do return .ofList (← t.resolved scope) := by
  rw [substitute_eq ht hc, resolved, bind_assoc]
  simp only [pure_bind]

theorem Split.resolved_prepend (lead : List Char) (t : Split) :
    (t.prepend lead).resolved scope = do return lead ++ (← t.resolved scope) := by
  obtain ⟨pieces, tail⟩ := t
  cases pieces with
  | nil => rfl
  | cons p pieces =>
    simp only [prepend, resolved, List.map_cons, Template.fillHoles, bind_assoc, pure_bind,
      List.append_assoc]

theorem Template.fillHoles_append (before after : List (List Char × Tag)) :
    fillHoles scope (before ++ after) = do
      let first ← fillHoles scope before
      let second ← fillHoles scope after
      return first ++ second := by
  induction before with
  | nil => simp only [List.nil_append, fillHoles, pure_bind, bind_pure]
  | cons hole before ih =>
    simp only [List.cons_append, fillHoles, ih, bind_assoc, pure_bind, List.append_assoc]

theorem Split.resolved_append (a b : Split) :
    (a.append b).resolved scope = do
      let first ← a.resolved scope
      let second ← b.resolved scope
      return first ++ second := by
  calc (a.append b).resolved scope
    _ = (do
        let filled ← Template.fillHoles scope (a.pieces.map fun p => (p.1, p.2.tag))
        let rest ← (b.prepend a.tail).resolved scope
        return filled ++ rest) := by
      simp only [resolved, append, List.map_append, Template.fillHoles_append, bind_assoc,
        pure_bind, List.append_assoc]
    _ = _ := by
      simp only [resolved_prepend]
      simp only [resolved, bind_assoc, pure_bind, List.append_assoc]

theorem substitute_append {a b : String} (h : Tag.Apart a.toList b.toList) :
    substitute scope (a ++ b) = do
      let first ← substitute scope a
      let second ← substitute scope b
      return first ++ second := by
  obtain ⟨ta, hta, hfreea⟩ := Split.exists_allFree a.toList
  obtain ⟨tb, htb, hfreeb⟩ := Split.exists_allFree b.toList
  have hca := (Split.clear_iff ta).2 hfreea
  have hcb := (Split.clear_iff tb).2 hfreeb
  have htext : (ta.append tb).text = (a ++ b).toList := by
    rw [Split.text_append, hta, htb, String.toList_append]
  have hclear := Split.clear_append hca hcb (by rwa [hta, htb])
  rw [Split.substitute_eq_resolved scope htext hclear, Split.substitute_eq_resolved scope hta hca,
    Split.substitute_eq_resolved scope htb hcb, Split.resolved_append]
  simp only [bind_assoc, pure_bind, String.ofList_append]

/-- Tags are replaced in each of two texts as if it stood alone, first in the one and then in the
other, if no tag of the whole begins in the first and ends in the second. Where the environment
answers by its arguments alone it does not matter when either is done. -/
theorem substitute_joined {a b : String}
    (h : ∀ s i j, Tag.Spans (a ++ b).toList s i j →
      ¬ (i < units16 a.toList ∧ units16 a.toList < j)) :
    (substitute scope (a ++ b) = do
      let first ← substitute scope a
      let second ← substitute scope b
      return first ++ second) ∧
    ((∀ key, (scope.environment key).Steady) → ∀ w v u,
      (substitute scope (a ++ b) w).1 = do
        let first ← (substitute scope a v).1
        let second ← (substitute scope b u).1
        return first ++ second) := by
  rw [String.toList_append] at h
  have hjoined := substitute_append scope (Tag.apart_of_spans h)
  refine ⟨hjoined, fun hsteady w v u => ?_⟩
  rw [hjoined]
  exact (steady_substitute hsteady a).bind₂ (steady_substitute hsteady b) _ w v u

end joined

def Tag.unfinished : String := "$\x7b\x7b ENV(A :- \""

/-- The default goes on into the second text and is never closed, so the first tag is the nested
one. -/
theorem unfinished_joined :
    (∀ s i j, Tag.Spans (Tag.unfinished ++ "$\x7b\x7b REF(c) \x7d\x7d").toList s i j →
      ¬ (i < units16 Tag.unfinished.toList ∧ units16 Tag.unfinished.toList < j)) ∧
    (substitute (⟨.ofEntries [("c", "7")], .ofVariables []⟩ : Scope Unit)
      (Tag.unfinished ++ "$\x7b\x7b REF(c) \x7d\x7d") ()).1.toOption =
        some (Tag.unfinished ++ "7") := by
  have hfirst : (Tag.find? (Tag.unfinished ++ "$\x7b\x7b REF(c) \x7d\x7d").toList).map (·.lead) =
      some Tag.unfinished.toList := by decide +kernel
  obtain ⟨o, ho, hlead⟩ := Option.map_eq_some_iff.1 hfirst
  obtain ⟨_, -, -, htext, hfree⟩ := Tag.exists_of_find? ho
  have h : ∀ s i j, Tag.Spans (Tag.unfinished ++ "$\x7b\x7b REF(c) \x7d\x7d").toList s i j →
      ¬ (i < units16 Tag.unfinished.toList ∧ units16 Tag.unfinished.toList < j) := by
    intro s i j hs
    rw [htext, ← List.nil_append (o.lead ++ _)] at hs
    have hi := (Tag.free_iff_spans []).1 hfree s i j hs
    rw [hlead, units16_nil] at hi
    omega
  refine ⟨h, ?_⟩
  rw [(substitute_joined _ h).2 (fun _ _ _ => rfl) () () ()]
  decide +kernel

end Seedbed
