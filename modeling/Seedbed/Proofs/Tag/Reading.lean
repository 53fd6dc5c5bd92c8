import Mathlib.Data.List.TakeWhile
import Seedbed.Proofs.Tag.Grammar

/-! The reader of one tag against the grammar: it accepts just the texts that begin with a
spelling, and it answers with the tag that is spelled and with the text after it. -/

namespace Seedbed

namespace Tag

theorem isWordChar_iff (c : Char) : isWordChar c = true ↔ IsWord c := by
  have hc : isWordChar c = (decide ('A'.val ≤ c.val ∧ c.val ≤ 'Z'.val) ||
      (decide ('a'.val ≤ c.val) && decide (c.val ≤ 'z'.val)) ||
      (decide ('0'.val ≤ c.val) && decide (c.val ≤ '9'.val))) := rfl
  rw [hc]
  simp only [IsWord, Char.le_def, Bool.or_eq_true, Bool.and_eq_true, decide_eq_true_eq]
  constructor
  · rintro ((h | h) | h)
    · exact .inr (.inl h)
    · exact .inl h
    · exact .inr (.inr h)
  · rintro (h | h | h)
    · exact .inl (.inr h)
    · exact .inl (.inl h)
    · exact .inr h

theorem isKeyChar_iff (c : Char) : isKeyChar c = true ↔ IsKey c := by
  have h := isWordChar_iff c
  rw [isWordChar] at h
  simp [isKeyChar, IsKey, h, or_assoc]

theorem isQuotedChar_iff (c : Char) : isQuotedChar c = true ↔ IsQuoted c := by
  simp [isQuotedChar, IsQuoted, and_assoc, Nat.succ_le_iff]

theorem isBlank_iff (c : Char) : isBlank c = true ↔ IsWhite c := by
  have hw : IsWhite c ↔ c.toNat ∈ whiteSpace.map Char.toNat := by
    simp only [IsWhite, List.mem_map]
    constructor
    · intro h
      exact ⟨c, h, rfl⟩
    · rintro ⟨d, hd, e⟩
      exact Char.toNat_inj.1 e ▸ hd
  rw [hw]
  simp only [isBlank, blankRanges, List.any_cons, List.any_nil, Bool.or_false, Bool.or_eq_true,
    Bool.and_eq_true, decide_eq_true_eq, whiteSpace, List.map_cons, Char.reduceToNat, List.map_nil,
    List.mem_cons, List.not_mem_nil, or_false]
  omega

/-! ### Reading what is spelled -/

section complete

variable {P : Char → Prop} {p : Char → Bool} {x : List Char}

theorem after?_append (xs cs : List Char) : after? xs (xs ++ cs) = some cs := by
  induction xs with
  | nil => cases cs <;> rfl
  | cons c xs ih => simp only [List.cons_append, after?, if_true, ih]

theorem span_append (hp : ∀ c, p c = true ↔ P c) {a : List Char} (ha : ∀ c ∈ a, P c)
    (hx : Stops P x) : (a ++ x).takeWhile p = a ∧ (a ++ x).dropWhile p = x := by
  induction a with
  | nil =>
    cases x with
    | nil => exact ⟨rfl, rfl⟩
    | cons c x =>
      have hc : p c = false := by
        rw [← Bool.not_eq_true, hp]
        exact hx c rfl
      simp [hc]
  | cons c a ih =>
    have hc : p c = true := (hp c).2 (ha c (by simp))
    obtain ⟨ht, hd⟩ := ih fun c hc => ha c (by simp [hc])
    simp [hc, ht, hd]

theorem skipBlank_append (b : Blanks) (hx : Stops IsWhite x) : skipBlank (b.val ++ x) = x :=
  (span_append isBlank_iff b.property hx).2

theorem run?_append (hp : ∀ c, p c = true ↔ P c) (t : Token P) (hx : Stops P x) :
    run? p (t.val ++ x) = some (t.val, x) := by
  obtain ⟨ht, hd⟩ := span_append hp t.property.2 hx
  unfold run?
  rw [ht, hd]
  split
  · rename_i h
    exact absurd h t.property.1
  · rfl

theorem default?_append (v : Default) (hx : Stops IsWord x) :
    default? (v.text ++ x) = some (v.text, x) := by
  cases v with
  | word w =>
    have hr := run?_append isWordChar_iff w hx
    unfold default?
    split
    · rename_i rest e
      -- a word does not begin with a quote
      rw [show w.val ++ x = '"' :: rest from e] at hr
      simp [run?, isWordChar] at hr
    · exact hr
  | quoted inner =>
    have hr : run? isQuotedChar (inner.val ++ '"' :: x) = some (inner.val, '"' :: x) :=
      run?_append isQuotedChar_iff inner (stops_cons (by decide))
    simp [Default.text, default?, hr, after?]

theorem fallback?_append (s : Spelling) :
    fallback? (s.afterKey ++ x) = some (s.fallback.map fun f => f.value.text,
      s.afterArguments.val ++ ')' :: (s.beforeClosing.val ++ '}' :: '}' :: x)) := by
  unfold Spelling.afterKey Spelling.fallbackText fallback?
  cases s.fallback with
  | none =>
    simp only [Option.map_none, Option.getD_none, List.nil_append, List.append_assoc,
      List.cons_append]
    rw [skipBlank_append _ (stops_cons (by decide))]
    simp [after?]
  | some f =>
    have hv : Stops IsWord
        (s.afterArguments.val ++ ')' :: (s.beforeClosing.val ++ '}' :: '}' :: x)) :=
      stops_blanks _ (fun _ => not_isWord_of_isWhite) (stops_cons (by decide))
    simp only [Option.map_some, Option.getD_some, Fallback.text, List.nil_append,
      List.append_assoc, List.cons_append]
    rw [skipBlank_append _ (stops_cons (by decide))]
    simp only [after?, if_true]
    rw [skipBlank_append _ (stops_default _), default?_append _ hv, Option.map_some]

/-- What is spelled is read, whatever stands after it. -/
theorem read?_append (s : Spelling) : read? (s.text ++ x) = some (s.tag, x) := by
  have hword : ∀ c, IsWord c → ¬ IsWhite c := fun _ hw hb => not_isWord_of_isWhite hb hw
  have hkey : ∀ c, IsKey c → ¬ IsWhite c := fun _ hk hb => not_isKey_of_isWhite hb hk
  have hopen : ∀ cs, after? opening ('$' :: '{' :: '{' :: cs) = some cs := after?_append _
  have hclose : ∀ cs, after? closing ('}' :: '}' :: cs) = some cs := after?_append _
  have hleft : ∀ cs, after? ['('] ('(' :: cs) = some cs := after?_append _
  have hright : ∀ cs, after? [')'] (')' :: cs) = some cs := after?_append _
  simp only [read?, Spelling.text, List.cons_append, List.append_assoc, Option.bind_eq_bind,
    Option.pure_def]
  rw [hopen, Option.bind_some, skipBlank_append _ (stops_token _ hword),
    run?_append isWordChar_iff _ (stops_afterDirective s), Option.bind_some,
    skipBlank_append _ (stops_cons (by decide)), hleft, Option.bind_some,
    skipBlank_append _ (stops_token _ hkey), run?_append isKeyChar_iff _ (stops_afterKey s),
    Option.bind_some, fallback?_append, Option.bind_some,
    skipBlank_append _ (stops_cons (by decide)), hright, Option.bind_some,
    skipBlank_append _ (stops_cons (by decide)), hclose, Option.bind_some]
  cases hf : s.fallback <;> simp [Spelling.tag, hf]

end complete

/-! ### Spelling what is read -/

section sound

variable {P : Char → Prop} {p : Char → Bool} {cs rest w : List Char}

theorem eq_append_of_after? {xs : List Char} (h : after? xs cs = some rest) : cs = xs ++ rest := by
  induction xs generalizing cs with
  | nil =>
    simp only [after?, Option.some.injEq] at h
    exact h
  | cons x xs ih =>
    cases cs with
    | nil => simp [after?] at h
    | cons c cs =>
      simp only [after?] at h
      split at h
      · rename_i e
        rw [e, ih h, List.cons_append]
      · simp at h

theorem exists_skipBlank (cs : List Char) : ∃ b : Blanks, cs = b.val ++ skipBlank cs := by
  refine ⟨⟨cs.takeWhile isBlank, fun c hc => (isBlank_iff c).1 ?_⟩, ?_⟩
  · exact List.mem_takeWhile_imp hc
  · exact (List.takeWhile_append_dropWhile).symm

theorem exists_of_run? (hp : ∀ c, p c = true ↔ P c) (h : run? p cs = some (w, rest)) :
    ∃ t : Token P, t.val = w ∧ cs = t.val ++ rest := by
  unfold run? at h
  split at h
  · simp at h
  · rename_i hne
    simp only [Option.some.injEq, Prod.mk.injEq] at h
    obtain ⟨rfl, rfl⟩ := h
    refine ⟨⟨cs.takeWhile p, hne, fun c hc => (hp c).1 (List.mem_takeWhile_imp hc)⟩, rfl, ?_⟩
    exact (List.takeWhile_append_dropWhile).symm

theorem exists_of_default? (h : default? cs = some (w, rest)) :
    ∃ v : Default, v.text = w ∧ cs = v.text ++ rest := by
  unfold default? at h
  split at h
  · simp only [Option.bind_eq_bind, Option.bind_eq_some_iff, Option.pure_def, Option.some.injEq,
      Prod.mk.injEq] at h
    obtain ⟨⟨inner, r⟩, hr, r', ha, rfl, rfl⟩ := h
    obtain ⟨t, rfl, rfl⟩ := exists_of_run? isQuotedChar_iff hr
    obtain rfl := eq_append_of_after? ha
    exact ⟨.quoted t, rfl, by simp [Default.text]⟩
  · obtain ⟨t, rfl, rfl⟩ := exists_of_run? isWordChar_iff h
    exact ⟨.word t, rfl, rfl⟩

theorem exists_of_fallback? {d : Option (List Char)} (h : fallback? cs = some (d, rest)) :
    ∃ f : Option Fallback, (f.map fun f => f.value.text) = d ∧
      cs = (f.map Fallback.text).getD [] ++ rest := by
  unfold fallback? at h
  split at h
  · simp only [Option.some.injEq, Prod.mk.injEq] at h
    obtain ⟨rfl, rfl⟩ := h
    exact ⟨none, rfl, rfl⟩
  · rename_i r ha
    obtain ⟨⟨v, r'⟩, hv, e⟩ := Option.map_eq_some_iff.1 h
    simp only [Prod.mk.injEq] at e
    obtain ⟨rfl, rfl⟩ := e
    obtain ⟨a, hcs⟩ := exists_skipBlank cs
    obtain ⟨b, hr⟩ := exists_skipBlank r
    obtain ⟨v, rfl, hd⟩ := exists_of_default? hv
    refine ⟨some ⟨a, b, v⟩, rfl, ?_⟩
    rw [hcs, eq_append_of_after? ha, hr, hd]
    simp [Fallback.text]

/-- What is read is spelled at the beginning of the text. -/
theorem exists_of_read? {t : Tag} (h : read? cs = some (t, rest)) :
    ∃ s : Spelling, s.tag = t ∧ cs = s.text ++ rest := by
  simp only [read?, Option.bind_eq_bind, Option.bind_eq_some_iff, Option.pure_def,
    Option.some.injEq, Prod.mk.injEq] at h
  obtain ⟨c₁, h₁, ⟨d, c₂⟩, h₂, c₃, h₃, ⟨k, c₄⟩, h₄, ⟨f, c₅⟩, h₅, c₆, h₆, c₇, h₇, rfl, rfl⟩ := h
  change fallback? c₄ = some (f, c₅) at h₅
  obtain ⟨b₁, e₁⟩ := exists_skipBlank c₁
  obtain ⟨d, rfl, e₂⟩ := exists_of_run? isWordChar_iff h₂
  obtain ⟨b₂, e₃⟩ := exists_skipBlank c₂
  obtain ⟨b₃, e₄⟩ := exists_skipBlank c₃
  obtain ⟨k, rfl, e₅⟩ := exists_of_run? isKeyChar_iff h₄
  obtain ⟨f, rfl, e₆⟩ := exists_of_fallback? h₅
  obtain ⟨b₄, e₇⟩ := exists_skipBlank c₅
  obtain ⟨b₅, e₈⟩ := exists_skipBlank c₆
  refine ⟨⟨b₁, d, b₂, b₃, k, f, b₄, b₅⟩, ?_, ?_⟩
  · cases f <;> rfl
  · rw [eq_append_of_after? h₁, e₁, e₂, e₃, eq_append_of_after? h₃, e₄, e₅, e₆, e₇,
      eq_append_of_after? h₆, e₈, eq_append_of_after? h₇]
    simp [Spelling.text, Spelling.afterKey, Spelling.fallbackText, opening, closing]

end sound

/-- A tag is read where the text begins with one, and nowhere else. -/
theorem read?_eq_none_iff {cs : List Char} : read? cs = none ↔ ¬ Begins cs := by
  constructor
  · rintro h ⟨s, rest, rfl⟩
    rw [read?_append] at h
    cases h
  · intro h
    cases hr : read? cs with
    | none => rfl
    | some p =>
      obtain ⟨s, -, e⟩ := exists_of_read? hr
      exact absurd ⟨s, p.2, e⟩ h

end Tag

end Seedbed
