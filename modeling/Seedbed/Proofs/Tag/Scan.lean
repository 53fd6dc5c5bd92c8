import Seedbed.Tag.Occurrence
import Seedbed.Proofs.Tag.Reading
import Seedbed.Proofs.Text.Utf16

/-! The scan for the leftmost tag, against the grammar. A spelling spans the units `i` to `j` of a
text when these units are its own. The scan answers with nothing where no spelling spans any
part of the text, and else with the one that begins first; at that place only one spelling is
possible. -/

namespace Seedbed

namespace Tag

/-- The UTF-16 units of a text from `i` up to `j` are those of a spelling. -/
def Spans (cs : List Char) (s : Spelling) (i j : Nat) : Prop :=
  ∃ before after, utf16 cs = before ++ (utf16 s.text ++ after) ∧ before.length = i ∧
    i + (utf16 s.text).length = j

theorem spans_iff {cs : List Char} {s : Spelling} {i j : Nat} :
    Spans cs s i j ↔ ∃ lead rest, cs = lead ++ (s.text ++ rest) ∧ units16 lead = i ∧
      i + units16 s.text = j := by
  constructor
  · rintro ⟨before, after, h, rfl, rfl⟩
    have hdollar : utf16 s.text = 0x24 :: utf16 s.text.tail := rfl
    rw [hdollar, List.cons_append] at h
    obtain ⟨lead, rest, rfl, rfl, hr⟩ := cut_of_utf16 h (by decide)
    rw [← List.cons_append, ← hdollar] at hr
    obtain ⟨rest, rfl⟩ := prefix_of_utf16 hr
    exact ⟨lead, rest, rfl, (length_utf16 lead).symm, by rw [length_utf16 s.text]⟩
  · rintro ⟨lead, rest, rfl, rfl, rfl⟩
    exact ⟨utf16 lead, utf16 rest, by simp, length_utf16 lead, by rw [length_utf16]⟩

/-- No tag begins within `lead` when `rest` follows it. -/
def Free (lead rest : List Char) : Prop := ∀ a b, lead = a ++ b → b ≠ [] → ¬ Begins (b ++ rest)

theorem free_nil (rest : List Char) : Free [] rest := by
  intro a b h hb
  simp only [List.nil_eq, List.append_eq_nil_iff] at h
  exact absurd h.2 hb

theorem free_of_not_mem {lead : List Char} (h : '$' ∉ lead) (rest : List Char) :
    Free lead rest := by
  rintro a b rfl hne ⟨s, rest', he⟩
  obtain ⟨c, b, rfl⟩ := List.exists_cons_of_ne_nil hne
  obtain ⟨rfl, -⟩ := List.cons.inj he
  exact h (List.mem_append_right a List.mem_cons_self)

theorem free_cons {c : Char} {lead rest : List Char} :
    Free (c :: lead) rest ↔ ¬ Begins (c :: (lead ++ rest)) ∧ Free lead rest := by
  constructor
  · intro h
    refine ⟨h [] (c :: lead) rfl (by simp), fun a b e hb => h (c :: a) b (by simp [e]) hb⟩
  · rintro ⟨hc, h⟩ a b e hb
    cases a with
    | nil =>
      rw [List.nil_append] at e
      rw [← e]
      exact hc
    | cons d a =>
      rw [List.cons_append, List.cons.injEq] at e
      exact h a b e.2 hb

theorem find?_append_of_free {lead rest : List Char} {s : Spelling}
    (h : Free lead (s.text ++ rest)) :
    find? (lead ++ (s.text ++ rest)) = some ⟨lead, s.tag, s.text, rest⟩ := by
  induction lead with
  | nil =>
    have hr : read? ('$' :: (s.text.tail ++ rest)) = some (s.tag, rest) := read?_append s
    have htake : (s.text ++ rest).take ((s.text ++ rest).length - rest.length) = s.text := by
      rw [List.length_append, Nat.add_sub_cancel, List.take_left]
    show find? ('$' :: (s.text.tail ++ rest)) = _
    unfold find?
    rw [hr]
    exact congrArg (fun w => some (⟨[], s.tag, w, rest⟩ : Occurrence)) htake
  | cons c lead ih =>
    obtain ⟨hc, hl⟩ := free_cons.1 h
    rw [List.cons_append, find?, read?_eq_none_iff.2 hc]
    simp [ih hl, Occurrence.before]

theorem exists_of_find? {cs : List Char} {o : Occurrence} (h : find? cs = some o) :
    ∃ s : Spelling, s.tag = o.tag ∧ s.text = o.written ∧ cs = o.lead ++ (s.text ++ o.rest) ∧
      Free o.lead (s.text ++ o.rest) := by
  induction cs generalizing o with
  | nil => simp [find?] at h
  | cons c cs ih =>
    unfold find? at h
    split at h
    · rename_i t rest hr
      obtain ⟨s, rfl, e⟩ := exists_of_read? hr
      simp only [Option.some.injEq] at h
      subst h
      refine ⟨s, rfl, ?_, e, free_nil _⟩
      rw [e, List.length_append, Nat.add_sub_cancel, List.take_left]
    · rename_i hn
      obtain ⟨p, hp, rfl⟩ := Option.map_eq_some_iff.1 h
      obtain ⟨s, ht, hw, rfl, hf⟩ := ih hp
      exact ⟨s, ht, hw, rfl, free_cons.2 ⟨read?_eq_none_iff.1 hn, hf⟩⟩

theorem find?_eq_none_iff_free {cs : List Char} : find? cs = none ↔ Free cs [] := by
  induction cs with
  | nil => exact ⟨fun _ => free_nil [], fun _ => rfl⟩
  | cons c cs ih =>
    rw [free_cons, List.append_nil, ← ih, ← read?_eq_none_iff, find?]
    cases read? (c :: cs) <;> simp

/-- The induction that follows a repeated scan: from what stands after a tag that is found to the
whole. -/
@[elab_as_elim]
theorem find?_induction {motive : List Char → Prop} (none : ∀ cs, find? cs = none → motive cs)
    (some : ∀ cs o, find? cs = some o → motive o.rest → motive cs) (cs : List Char) :
    motive cs := by
  induction hlen : cs.length using Nat.strongRecOn generalizing cs with
  | _ n ih =>
    cases h : find? cs with
    | none => exact none cs h
    | some o => exact some cs o h (ih o.rest.length (hlen ▸ find?_rest_length h) o.rest rfl)

theorem Spelling.units16_text_pos (s : Spelling) : 0 < units16 s.text := by
  simp only [text, units16_cons]
  have := unitsOf_pos '$'
  omega

theorem free_iff_spans (before : List Char) {lead rest : List Char} :
    Free lead rest ↔ ∀ s i j, Spans (before ++ (lead ++ rest)) s i j →
      ¬ (units16 before ≤ i ∧ i < units16 before + units16 lead) := by
  constructor
  · rintro h s i j hs ⟨hle, hlt⟩
    obtain ⟨_, r, e, rfl, -⟩ := spans_iff.1 hs
    obtain ⟨a, rfl, ha⟩ := append_of_units16_le e hle
    rw [units16_append] at hlt
    obtain ⟨b, rfl, hb⟩ := append_of_units16_le ha.symm (by omega)
    refine h a b rfl ?_ ⟨s, r, hb.symm⟩
    rintro rfl
    simp at hlt
  · rintro h a b rfl hb ⟨s, r, e⟩
    obtain ⟨c, b, rfl⟩ := List.exists_cons_of_ne_nil hb
    have hc := unitsOf_pos c
    refine h s _ _ (spans_iff.2 ⟨before ++ a, r, ?_, rfl, rfl⟩) ?_
    · rw [List.append_assoc, List.append_assoc, e]
    · simp only [units16_append, units16_cons]
      omega

theorem free_iff_not_spans {cs : List Char} : Free cs [] ↔ ∀ s i j, ¬ Spans cs s i j := by
  rw [free_iff_spans []]
  simp only [List.nil_append, List.append_nil]
  refine forall₃_congr fun s i j => ⟨fun h hs => h hs ⟨Nat.zero_le _, ?_⟩, fun h hs => absurd hs h⟩
  obtain ⟨a, r, rfl, rfl, -⟩ := spans_iff.1 hs
  have hpos := s.units16_text_pos
  simp only [units16_append, units16_nil]
  omega

/-- At the place of a tag nothing else is spelled. -/
theorem spans_unique {lead rest : List Char} {s s' : Spelling} {j : Nat}
    (h : Spans (lead ++ (s.text ++ rest)) s' (units16 lead) j) :
    s' = s ∧ j = units16 lead + units16 s.text := by
  obtain ⟨_, r, e, ha, rfl⟩ := spans_iff.1 h
  obtain ⟨c, rfl, hc⟩ := append_of_units16_le e (Nat.le_of_eq ha.symm)
  have hlen := length_le_units16 c
  rw [units16_append] at ha
  obtain rfl : c = [] := List.eq_nil_of_length_eq_zero (by omega)
  obtain ⟨rfl, -⟩ := Spelling.unique hc
  exact ⟨rfl, rfl⟩

/-- A scan answers with nothing just where no part of the text is a tag. Otherwise it answers with
the tag that begins first, and of what begins there no other reading is possible. -/
theorem find?_leftmost (cs : List Char) :
    (find? cs = none ↔ ∀ s i j, ¬ Spans cs s i j) ∧
    ∀ o, find? cs = some o →
      ∃ s, s.tag = o.tag ∧ s.text = o.written ∧ Spans cs s o.start o.stop ∧
        (∀ s' i j, Spans cs s' i j → o.start ≤ i) ∧
        ∀ s' j, Spans cs s' o.start j → s' = s ∧ j = o.stop := by
  refine ⟨find?_eq_none_iff_free.trans free_iff_not_spans, fun o h => ?_⟩
  obtain ⟨s, ht, hw, rfl, hf⟩ := exists_of_find? h
  have hstop : o.start + units16 s.text = o.stop := by rw [hw]; rfl
  refine ⟨s, ht, hw, spans_iff.2 ⟨o.lead, o.rest, rfl, rfl, hstop⟩, ?_, ?_⟩
  · intro s' i j hs
    have hi := (free_iff_spans []).1 hf s' i j hs
    simp only [units16_nil] at hi
    unfold Occurrence.start
    omega
  · intro s' j hs
    obtain ⟨e, hj⟩ := spans_unique hs
    exact ⟨e, hj.trans hstop⟩

/-- A character beyond the basic plane counts twice. -/
example : (find? "😀$\x7b\x7bENV(A)\x7d\x7d".toList).map (fun o => (o.start, o.stop)) =
    some (2, 13) := by
  decide

end Tag

end Seedbed
