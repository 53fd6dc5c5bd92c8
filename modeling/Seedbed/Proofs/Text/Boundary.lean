import Seedbed.Proofs.Text.Utf16

/-! Offsets in UTF-16 units. An offset that stands between characters never falls between the two
halves of a pair of surrogates. A text can be cut at any offset; where that leaves half of a pair,
which is no character, U+FFFD stands for it, so that as many units remain as the cut leaves. -/

namespace Seedbed

def IsHighHalf (u : Nat) : Prop := 0xD800 ≤ u ∧ u < 0xDC00

def IsLowHalf (u : Nat) : Prop := 0xDC00 ≤ u ∧ u < 0xE000

/-- The offset falls between the two halves of a pair of surrogates. -/
def WithinPair (units : List Nat) (i : Nat) : Prop :=
  ∃ before high low after, units = before ++ high :: low :: after ∧ IsHighHalf high ∧
    IsLowHalf low ∧ before.length + 1 = i

/-- The offset stands between two characters of the text or at one of its ends. -/
def Boundary (cs : List Char) (i : Nat) : Prop :=
  ∃ lead rest, cs = lead ++ rest ∧ units16 lead = i

def dropUnits : Nat → List Char → List Char
  | 0, cs => cs
  | _ + 1, [] => []
  | n + 1, c :: cs =>
    if unitsOf c ≤ n + 1 then dropUnits (n + 1 - unitsOf c) cs else '\uFFFD' :: cs

/-! ### Boundaries -/

theorem boundary_zero (cs : List Char) : Boundary cs 0 := ⟨[], cs, rfl, rfl⟩

theorem Boundary.le {cs : List Char} {i : Nat} (h : Boundary cs i) : i ≤ units16 cs := by
  obtain ⟨lead, rest, rfl, rfl⟩ := h
  rw [units16_append]
  omega

/-- No text begins with the second half of a pair. -/
theorem not_isLowHalf_of_utf16 {cs : List Char} {u : Nat} {after : List Nat}
    (h : utf16 cs = u :: after) : ¬ IsLowHalf u := by
  unfold IsLowHalf
  cases cs with
  | nil => simp at h
  | cons c cs =>
    rcases codeUnits_cases c with ⟨e, hc⟩ | ⟨e, hlow, hhigh⟩
    · simp only [utf16_cons, e, List.cons_append, List.cons.injEq] at h
      omega
    · simp only [utf16_cons, e, List.cons_append, List.cons.injEq] at h
      omega

theorem Boundary.not_withinPair {cs : List Char} {i : Nat} (h : Boundary cs i) :
    ¬ WithinPair (utf16 cs) i := by
  obtain ⟨lead, rest, rfl, rfl⟩ := h
  rintro ⟨before, high, low, after, e, -, hlow, hi⟩
  have hsplit : utf16 lead ++ utf16 rest = (before ++ [high]) ++ low :: after := by
    rw [← utf16_append, e, List.append_assoc]
    rfl
  have hlen : (utf16 lead).length = (before ++ [high]).length := by
    rw [length_utf16, List.length_append, ← hi]
    rfl
  exact not_isLowHalf_of_utf16 (List.append_inj hsplit hlen).2 hlow

/-! ### Cuts -/

@[simp] theorem dropUnits_zero (cs : List Char) : dropUnits 0 cs = cs := by
  cases cs <;> rfl

@[simp] theorem dropUnits_nil (n : Nat) : dropUnits n [] = [] := by
  cases n <;> rfl

theorem dropUnits_cons {c : Char} {cs : List Char} {n : Nat} (h : unitsOf c ≤ n) :
    dropUnits n (c :: cs) = dropUnits (n - unitsOf c) cs := by
  have hc := unitsOf_pos c
  cases n with
  | zero => omega
  | succ n => rw [dropUnits, if_pos h]

theorem dropUnits_half {c : Char} {cs : List Char} {n : Nat} (h : n + 1 < unitsOf c) :
    dropUnits (n + 1) (c :: cs) = '\uFFFD' :: cs := by
  rw [dropUnits, if_neg (Nat.not_le.2 h)]

theorem dropUnits_append_add (a b : List Char) (k : Nat) :
    dropUnits (units16 a + k) (a ++ b) = dropUnits k b := by
  induction a with
  | nil => simp
  | cons c a ih =>
    have hc : units16 (c :: a) + k - unitsOf c = units16 a + k := by
      rw [units16_cons]
      omega
    rw [List.cons_append, dropUnits_cons (by rw [units16_cons]; omega), hc, ih]

theorem dropUnits_append (a b : List Char) : dropUnits (units16 a) (a ++ b) = b := by
  have h := dropUnits_append_add a b 0
  rwa [dropUnits_zero] at h

theorem dropUnits_append_of_le {a b : List Char} {k : Nat} (h : k ≤ units16 a) :
    dropUnits k (a ++ b) = dropUnits k a ++ b := by
  induction a generalizing k with
  | nil =>
    obtain rfl : k = 0 := Nat.le_zero.1 h
    simp
  | cons c a ih =>
    rw [units16_cons] at h
    cases k with
    | zero => simp
    | succ k =>
      by_cases hc : unitsOf c ≤ k + 1
      · rw [List.cons_append, dropUnits_cons hc, dropUnits_cons hc, ih (by omega)]
      · rw [List.cons_append, dropUnits_half (by omega), dropUnits_half (by omega),
          List.cons_append]

theorem exists_pair {c : Char} {n : Nat} (h : n + 1 < unitsOf c) :
    n = 0 ∧ ∃ high low, codeUnits c = [high, low] ∧ IsLowHalf low := by
  rw [← length_codeUnits] at h
  rcases codeUnits_cases c with ⟨e, -⟩ | ⟨e, hlow, hhigh⟩
  · simp only [e, List.length_cons, List.length_nil] at h
    omega
  · simp only [e, List.length_cons, List.length_nil] at h
    refine ⟨by omega, _, _, e, ?_⟩
    unfold IsLowHalf
    omega

/-- A cut leaves the units after it. Where the first of them is half of a pair, U+FFFD stands in
its place. -/
theorem utf16_dropUnits (n : Nat) (cs : List Char) :
    utf16 (dropUnits n cs) = (utf16 cs).drop n ∨
      ∃ low after, IsLowHalf low ∧ (utf16 cs).drop n = low :: after ∧
        utf16 (dropUnits n cs) = 0xFFFD :: after := by
  induction cs generalizing n with
  | nil => simp
  | cons c cs ih =>
    cases n with
    | zero => simp
    | succ n =>
      by_cases hc : unitsOf c ≤ n + 1
      · have hlen : (codeUnits c).length ≤ n + 1 := by rwa [length_codeUnits]
        rw [dropUnits_cons hc, utf16_cons, List.drop_append, List.drop_eq_nil_of_le hlen,
          List.nil_append, length_codeUnits]
        exact ih _
      · obtain ⟨rfl, high, low, e, hlow⟩ := exists_pair (Nat.not_le.1 hc)
        refine .inr ⟨low, utf16 cs, hlow, ?_, ?_⟩
        · rw [utf16_cons, e]
          rfl
        · rw [dropUnits_half (Nat.not_le.1 hc)]
          rfl

theorem units16_dropUnits (n : Nat) (cs : List Char) :
    units16 (dropUnits n cs) = units16 cs - n := by
  rw [← length_utf16, ← length_utf16, ← List.length_drop]
  rcases utf16_dropUnits n cs with h | ⟨low, after, -, h, e⟩
  · rw [h]
  · rw [h, e]
    rfl

theorem Boundary.dropUnits_add {cs : List Char} {n : Nat} (h : Boundary cs n) (k : Nat) :
    dropUnits (n + k) cs = dropUnits k (dropUnits n cs) := by
  obtain ⟨lead, rest, rfl, rfl⟩ := h
  rw [dropUnits_append_add, dropUnits_append]

/-- A boundary of what follows a boundary is one of the whole. -/
theorem Boundary.add {cs : List Char} {n k : Nat} (h : Boundary cs n)
    (hk : Boundary (dropUnits n cs) k) : Boundary cs (n + k) := by
  obtain ⟨lead, rest, rfl, rfl⟩ := h
  rw [dropUnits_append] at hk
  obtain ⟨next, rest, rfl, rfl⟩ := hk
  exact ⟨lead ++ next, rest, by rw [List.append_assoc], units16_append lead next⟩

/-- Half of a pair is left where the second half of it stood. -/
example : dropUnits 2 ['a', '😀', 'b'] = ['\uFFFD', 'b'] := by decide

end Seedbed
