import Seedbed.Binary64.Numeral
import Seedbed.Binary64.Text

/-! Decimal digits and the numerals that they are in. Digits read as a number are the digits of this
number, up to zeros before them, and a numeral is read from its parts. -/

namespace Seedbed

attribute [local instance (high)] instPowNat

/-! ### Digits -/

def Digits (cs : List Char) : Prop := ∀ c ∈ cs, c.isDigit

theorem valueOfDigits_eq {cs : List Char} (h : Digits cs) :
    valueOfDigits 10 cs = Nat.ofDigitChars 10 cs 0 := by
  have hgo : ∀ n, cs.foldl (fun n c => n * 10 + valueOfDigits.digit c) n =
      Nat.ofDigitChars 10 cs n := by
    induction cs with
    | nil => exact fun n => Nat.ofDigitChars_nil.symm
    | cons c cs ih =>
      intro n
      have hc : valueOfDigits.digit c = c.toNat - '0'.toNat := if_pos (h c List.mem_cons_self)
      rw [List.foldl_cons, Nat.ofDigitChars_cons, hc, Nat.mul_comm n 10]
      exact ih (fun c hc => h c (List.mem_cons_of_mem _ hc)) _
  exact hgo 0

theorem digits_decimalDigits (n : Nat) : Digits (decimalDigits n) := fun _ hc =>
  Nat.isDigit_of_mem_toDigits (by omega) (by omega) hc

theorem valueOfDigits_decimalDigits (n : Nat) : valueOfDigits 10 (decimalDigits n) = n := by
  rw [valueOfDigits_eq (digits_decimalDigits n)]
  exact Nat.ofDigitChars_ten_toDigits

theorem decimalDigits_ne_nil (n : Nat) : decimalDigits n ≠ [] := Nat.toDigits_ne_nil

theorem decimalDigits_mul_ten_pow {n : Nat} (h : n ≠ 0) (k : Nat) :
    decimalDigits (n * 10 ^ k) = decimalDigits n ++ List.replicate k '0' := by
  induction k with
  | zero => rw [Nat.pow_zero, Nat.mul_one, List.replicate_zero, List.append_nil]
  | succ k ih =>
    have hpos : 0 < n * 10 ^ k := Nat.mul_pos (Nat.pos_of_ne_zero h) (Nat.pow_pos (by omega))
    have happ : decimalDigits (10 * (n * 10 ^ k) + 0) = decimalDigits (n * 10 ^ k) ++ ['0'] :=
      (Nat.toDigits_append_toDigits (by omega) hpos (by omega)).symm
    calc decimalDigits (n * 10 ^ (k + 1)) = decimalDigits (10 * (n * 10 ^ k) + 0) := by
          congr 1
          rw [Nat.pow_succ, ← Nat.mul_assoc, Nat.mul_comm, Nat.add_zero]
      _ = decimalDigits n ++ List.replicate (k + 1) '0' := by
          rw [happ, ih, List.append_assoc, List.replicate_succ']

theorem ten_pow_zeros_dvd (n : Nat) :
    10 ^ ((decimalDigits n).reverse.takeWhile (· = '0')).length ∣ n := by
  have hz : (decimalDigits n).reverse.takeWhile (· = '0') =
      List.replicate ((decimalDigits n).reverse.takeWhile (· = '0')).length '0' :=
    List.eq_replicate_iff.2 ⟨rfl, fun c hc =>
      of_decide_eq_true (List.all_eq_true.1 List.all_takeWhile c hc)⟩
  have hsplit := congrArg List.reverse
    (List.takeWhile_append_dropWhile (p := (· = '0')) (l := (decimalDigits n).reverse))
  rw [List.reverse_append, List.reverse_reverse, hz, List.reverse_replicate] at hsplit
  have hv := congrArg (Nat.ofDigitChars 10 · 0) hsplit
  simp only [Nat.ofDigitChars_append, Nat.ofDigitChars_replicate_zero] at hv
  exact ⟨_, (hv.trans Nat.ofDigitChars_ten_toDigits).symm⟩

/-! ### Numerals -/

namespace Numeral

def minus (negative : Bool) : List Char := if negative then ['-'] else []

theorem ne_sign_of_isDigit {c : Char} (h : c.isDigit) : c ≠ '-' ∧ c ≠ '+' := by
  constructor
  · rintro rfl
    cases h
  · rintro rfl
    cases h

theorem sign_minus (negative : Bool) {c : Char} (cs : List Char) (h : c.isDigit) :
    sign (minus negative ++ c :: cs) = (negative, c :: cs) := by
  cases negative with
  | true => rfl
  | false =>
    obtain ⟨hm, hp⟩ := ne_sign_of_isDigit h
    show sign (c :: cs) = _
    unfold sign
    split
    · exact absurd (List.cons.inj ‹_›).1 hm
    · exact absurd (List.cons.inj ‹_›).1 hp
    · rfl

/-- What can stand after the digits of a numeral. -/
theorem stops_of_exponent? {cs : List Char} {e : Option Int} (h : exponent? cs = some e) :
    cs = [] ∨ ∃ c rest, cs = c :: rest ∧ (c = 'e' ∨ c = 'E') := by
  cases cs with
  | nil => exact .inl rfl
  | cons c rest =>
    refine .inr ⟨c, rest, rfl, ?_⟩
    simp only [exponent?] at h
    split at h
    · rename_i hc
      exact hc.1
    · cases h

theorem span_digits {ds t : List Char} (h : Digits ds) (hstop : ∀ c ∈ t.head?, c.isDigit = false) :
    (ds ++ t).takeWhile Char.isDigit = ds ∧ (ds ++ t).dropWhile Char.isDigit = t := by
  have ht : t.takeWhile Char.isDigit = [] ∧ t.dropWhile Char.isDigit = t := by
    cases t with
    | nil => exact ⟨rfl, rfl⟩
    | cons c t =>
      have hc : ¬c.isDigit := by rw [hstop c rfl]; exact Bool.false_ne_true
      exact ⟨List.takeWhile_cons_of_neg hc, List.dropWhile_cons_of_neg hc⟩
  rw [List.takeWhile_append_of_pos h, List.dropWhile_append_of_pos h, ht.1, ht.2, List.append_nil]
  exact ⟨rfl, rfl⟩

def afterPoint : Option (List Char) → List Char
  | none => []
  | some ds => '.' :: ds

theorem read?_parts (negative : Bool) {whole : List Char} {part : Option (List Char)}
    {tail : List Char} {e : Option Int} (hne : whole ≠ []) (hw : Digits whole)
    (hp : ∀ ds ∈ part, Digits ds) (he : exponent? tail = some e) :
    read? (minus negative ++ (whole ++ (afterPoint part ++ tail))) =
      some ⟨negative, whole, part, e⟩ := by
  have hstop : ∀ c ∈ tail.head?, c.isDigit = false := by
    rcases stops_of_exponent? he with rfl | ⟨c, rest, rfl, rfl | rfl⟩
    · nofun
    · rintro _ ⟨⟩
      rfl
    · rintro _ ⟨⟩
      rfl
  obtain ⟨c, cs, rfl⟩ := List.exists_cons_of_ne_nil hne
  have hsign : sign (minus negative ++ (c :: cs ++ (afterPoint part ++ tail))) =
      (negative, c :: cs ++ (afterPoint part ++ tail)) :=
    sign_minus negative _ (hw c List.mem_cons_self)
  cases part with
  | none =>
    obtain ⟨ht, hd⟩ := span_digits (t := afterPoint none ++ tail) hw hstop
    rcases stops_of_exponent? he with rfl | ⟨c', rest, rfl, rfl | rfl⟩
    all_goals
      simp only [read?, hsign, ht, hd]
      exact congrArg (Option.map fun e => (⟨negative, c :: cs, none, e⟩ : Numeral)) he
  | some ds =>
    obtain ⟨ht, hd⟩ := span_digits (t := afterPoint (some ds) ++ tail) hw (by rintro _ ⟨⟩; rfl)
    obtain ⟨ht', hd'⟩ := span_digits (hp ds rfl) hstop
    simp only [read?, hsign, ht, hd]
    simp only [afterPoint, List.cons_append, ht', hd']
    exact congrArg (Option.map fun e => (⟨negative, c :: cs, some ds, e⟩ : Numeral)) he

end Numeral

end Seedbed
