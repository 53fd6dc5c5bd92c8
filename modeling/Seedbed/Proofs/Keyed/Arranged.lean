import Mathlib.Data.List.Sort
import Seedbed.Proofs.Binary64.Numeral
import Seedbed.Proofs.Keyed

/-! The order in which the fields of a record are listed. A key is a position just if it is the text
of a number below 2³² − 1, so no two keys are the same position. Listing the fields neither loses
nor adds one, and fields that are listed in this order stay where they are. -/

namespace Seedbed

/-! ### Positions -/

/-- The text of a number below 2³² − 1, which is a position in a list. -/
def IsPosition (key : String) : Prop := ∃ n < 4294967295, key = toString n

theorem digit_isDigit {c : Char} (h : c.isDigit) :
    c.toNat - '0'.toNat < 10 ∧ (c.toNat - '0'.toNat).digitChar = c := by
  have hc : 48 ≤ c.toNat ∧ c.toNat ≤ 57 := by
    simpa [Char.isDigit, UInt32.le_iff_toNat_le] using h
  have hlt : c.toNat - 48 < 10 := by omega
  refine ⟨hlt, Char.toNat_inj.1 ?_⟩
  have hz : '0'.toNat = 48 := rfl
  rw [hz, Nat.toNat_digitChar_of_lt_ten hlt]
  omega

theorem digitsValue?_eq_some_iff {cs : List Char} {n : Nat} :
    digitsValue? cs = some n ↔ Digits cs ∧ Nat.ofDigitChars 10 cs 0 = n := by
  have hgo : ∀ i, cs.foldlM (fun n c => if c.isDigit then some (n * 10 + (c.toNat - '0'.toNat))
      else none) i = some n ↔ Digits cs ∧ Nat.ofDigitChars 10 cs i = n := by
    induction cs with
    | nil =>
      intro i
      simp [Digits, Nat.ofDigitChars_nil]
    | cons c cs ih =>
      intro i
      rw [List.foldlM_cons, Digits, List.forall_mem_cons, Nat.ofDigitChars_cons]
      by_cases hc : c.isDigit
      · rw [if_pos hc]
        refine (ih _).trans ?_
        rw [Nat.mul_comm i 10]
        exact ⟨fun h => ⟨⟨hc, h.1⟩, h.2⟩, fun h => ⟨h.1.2, h.2⟩⟩
      · rw [if_neg hc]
        exact ⟨nofun, fun h => absurd h.1.1 hc⟩
  exact hgo 0

/-- Digits after those of a number are the last digits of the number that all of them write. -/
theorem toDigits_append_digits {cs : List Char} (h : Digits cs) {i : Nat} (hi : 0 < i) :
    Nat.toDigits 10 i ++ cs = Nat.toDigits 10 (Nat.ofDigitChars 10 cs i) := by
  induction cs generalizing i with
  | nil => rw [Nat.ofDigitChars_nil, List.append_nil]
  | cons c cs ih =>
    rw [Digits, List.forall_mem_cons] at h
    obtain ⟨hlt, hc⟩ := digit_isDigit h.1
    have hstep := Nat.toDigits_append_toDigits (by omega) hi hlt
    rw [Nat.toDigits_of_lt_base hlt, hc] at hstep
    rw [Nat.ofDigitChars_cons, ← ih h.2 (by omega), ← hstep, List.append_assoc]
    rfl

theorem toDigits_ofDigitChars {c : Char} {cs : List Char} (h : Digits (c :: cs)) (hz : c ≠ '0') :
    Nat.toDigits 10 (Nat.ofDigitChars 10 (c :: cs) 0) = c :: cs := by
  rw [Digits, List.forall_mem_cons] at h
  obtain ⟨hlt, hc⟩ := digit_isDigit h.1
  have hpos : 0 < c.toNat - '0'.toNat := by
    refine Nat.pos_of_ne_zero fun h0 => hz ?_
    rw [← hc, h0]
    rfl
  rw [Nat.ofDigitChars_cons, Nat.mul_zero, Nat.zero_add, ← toDigits_append_digits h.2 hpos,
    Nat.toDigits_of_lt_base hlt, hc]
  rfl

/-- No number but zero begins with a zero. -/
theorem exists_toDigits {n : Nat} (h : 0 < n) :
    ∃ c cs, Nat.toDigits 10 n = c :: cs ∧ c ≠ '0' := by
  induction n using Nat.strongRecOn with
  | ind n ih =>
    rcases Nat.lt_or_ge n 10 with hn | hn
    · refine ⟨n.digitChar, [], Nat.toDigits_of_lt_base hn, fun h0 => ?_⟩
      have hval := congrArg Char.toNat h0
      rw [Nat.toNat_digitChar_of_lt_ten hn] at hval
      have hz : '0'.toNat = 48 := rfl
      omega
    · obtain ⟨c, cs, hcs, hz⟩ := ih (n / 10) (by omega) (by omega)
      refine ⟨c, cs ++ [(n % 10).digitChar], ?_, hz⟩
      rw [Nat.toDigits_of_base_le (by omega) hn, hcs]
      rfl

theorem toList_toString (n : Nat) : (toString n).toList = Nat.toDigits 10 n := by
  rw [Nat.toString_eq_repr, Nat.toList_repr]

theorem position?_of_cons {key : String} {c : Char} {cs : List Char} (hk : key.toList = c :: cs)
    (hz : c ≠ '0') : position? key = (digitsValue? (c :: cs)).filter (· < 4294967295) := by
  unfold position?
  split
  · cases hk.symm.trans ‹_›
  · cases hk.symm.trans ‹_›
    exact absurd rfl hz
  · cases hk.symm.trans ‹_›
    exact absurd rfl hz
  · rw [hk]

theorem position?_eq_some_iff {key : String} {n : Nat} :
    position? key = some n ↔ n < 4294967295 ∧ key = toString n := by
  constructor
  · intro h
    unfold position? at h
    split at h
    · cases h
    · rename_i hk
      cases h
      exact ⟨by omega, String.toList_injective (hk.trans (toList_toString 0).symm)⟩
    · cases h
    · rename_i hnil _ hzero
      rw [Option.filter_eq_some_iff, digitsValue?_eq_some_iff] at h
      obtain ⟨⟨hd, hn⟩, hlt⟩ := h
      obtain ⟨c, cs, hk⟩ := List.exists_cons_of_ne_nil hnil
      have hz : c ≠ '0' := fun h0 => hzero cs (by rw [hk, h0])
      rw [hk] at hd hn
      refine ⟨of_decide_eq_true hlt, String.toList_injective ?_⟩
      rw [toList_toString, ← hn, toDigits_ofDigitChars hd hz, hk]
  · rintro ⟨hlt, rfl⟩
    rcases Nat.eq_zero_or_pos n with rfl | hpos
    · rfl
    · obtain ⟨c, cs, hcs, hz⟩ := exists_toDigits hpos
      have hvalue : digitsValue? (c :: cs) = some n := by
        rw [digitsValue?_eq_some_iff, ← hcs]
        exact ⟨digits_decimalDigits n, Nat.ofDigitChars_ten_toDigits⟩
      rw [position?_of_cons ((toList_toString n).trans hcs) hz, hvalue]
      simp [Option.filter, hlt]

theorem isSome_position?_iff {key : String} : (position? key).isSome ↔ IsPosition key := by
  rw [Option.isSome_iff_exists]
  exact exists_congr fun n => position?_eq_some_iff

instance : DecidablePred IsPosition := fun _ => decidable_of_iff _ isSome_position?_iff

/-! ### Listing -/

section arrange

variable {α : Type} (entries : List (String × α))

/-- The fields whose keys are no positions. -/
theorem filter_isNone :
    (entries.filter fun e => (position? e.1).isNone) = entries.filter fun e => ¬IsPosition e.1 := by
  refine List.filter_congr fun e _ => ?_
  rw [Bool.eq_iff_iff, decide_eq_true_eq, ← isSome_position?_iff, Option.isNone_iff_eq_none,
    Option.not_isSome_iff_eq_none]

theorem position?_of_mem_positioned {p : Nat × String × α} (h : p ∈ positioned entries) :
    position? p.2.1 = some p.1 := by
  rw [positioned, List.mem_mergeSort, List.mem_filterMap] at h
  obtain ⟨e, -, hp⟩ := h
  obtain ⟨n, hn, rfl⟩ := Option.map_eq_some_iff.1 hp
  exact hn

theorem filterMap_positions {ps : List (Nat × String × α)}
    (h : ∀ p ∈ ps, position? p.2.1 = some p.1) :
    (ps.map (·.2)).filterMap (fun e => (position? e.1).map (·, e)) = ps := by
  induction ps with
  | nil => rfl
  | cons p ps ih =>
    rw [List.forall_mem_cons] at h
    simp [h.1, ih h.2]

theorem positioned_perm :
    ((positioned entries).map (·.2)).Perm (entries.filter fun e => IsPosition e.1) := by
  have hsnd : (entries.filterMap fun e => (position? e.1).map (·, e)).map (·.2) =
      entries.filter fun e => IsPosition e.1 := by
    induction entries with
    | nil => rfl
    | cons e entries ih =>
      cases hp : position? e.1 with
      | none =>
        have hno : ¬IsPosition e.1 := by simp [← isSome_position?_iff, hp]
        simp [hp, hno, ih]
      | some n =>
        have hyes : IsPosition e.1 := by simp [← isSome_position?_iff, hp]
        simp [hp, hyes, ih]
  rw [← hsnd]
  exact (List.mergeSort_perm _ _).map _

/-- Listing the fields neither loses nor adds one. -/
theorem arrange_perm : (arrange entries).Perm entries := by
  rw [arrange, filter_isNone]
  refine ((positioned_perm entries).append_right _).trans ?_
  simpa using List.filter_append_perm (fun e : String × α => decide (IsPosition e.1)) entries

theorem positioned_ascending :
    (positioned entries).Pairwise fun p q => p.1 ≤ q.1 := by
  refine (List.pairwise_mergeSort (fun a b c hab hbc => ?_) (fun a b => ?_) _).imp
    fun h => of_decide_eq_true h
  · exact decide_eq_true (Nat.le_trans (of_decide_eq_true hab) (of_decide_eq_true hbc))
  · simpa using Nat.le_total a.1 b.1

theorem positioned_arrange : positioned (arrange entries) = positioned entries := by
  have hothers : (entries.filter fun e => (position? e.1).isNone).filterMap
      (fun e => (position? e.1).map (·, e)) = [] := by
    rw [List.filterMap_eq_nil_iff]
    intro e he
    rw [Option.isNone_iff_eq_none.1 (List.mem_filter.1 he).2]
    rfl
  rw [positioned, arrange, List.filterMap_append, hothers, List.append_nil,
    filterMap_positions fun p hp => position?_of_mem_positioned entries hp]
  exact List.mergeSort_of_pairwise ((positioned_ascending entries).imp decide_eq_true)

theorem filter_isNone_arrange :
    (arrange entries).filter (fun e => (position? e.1).isNone) =
      entries.filter fun e => (position? e.1).isNone := by
  have hpositions : ((positioned entries).map (·.2)).filter
      (fun e => (position? e.1).isNone) = [] := by
    refine List.filter_eq_nil_iff.2 fun e he => ?_
    obtain ⟨p, hp, rfl⟩ := List.mem_map.1 he
    rw [position?_of_mem_positioned entries hp]
    exact Bool.false_ne_true
  rw [arrange, List.filter_append, hpositions, List.nil_append, List.filter_filter]
  simp

/-- Fields that are listed in this order stay where they are. -/
theorem arrange_arrange : arrange (arrange entries) = arrange entries := by
  rw [arrange, positioned_arrange, filter_isNone_arrange, arrange]

theorem positioned_lt (h : (entries.map Prod.fst).Nodup) :
    ((positioned entries).map (·.2)).Pairwise fun e f =>
      ∃ m n : Nat, e.1 = toString m ∧ f.1 = toString n ∧ m < n := by
  have hkeys : ((positioned entries).map (·.2)).Pairwise fun e f => e.1 ≠ f.1 := by
    have hfilter : ((entries.filter fun e => IsPosition e.1).map Prod.fst).Nodup :=
      h.sublist (List.filter_sublist.map _)
    exact List.pairwise_map.1 (((positioned_perm entries).map Prod.fst).nodup_iff.2 hfilter)
  rw [List.pairwise_map] at hkeys ⊢
  refine (hkeys.and (positioned_ascending entries)).imp_of_mem fun {p q} hp hq hpq => ?_
  obtain ⟨-, hm⟩ := position?_eq_some_iff.1 (position?_of_mem_positioned entries hp)
  obtain ⟨-, hn⟩ := position?_eq_some_iff.1 (position?_of_mem_positioned entries hq)
  refine ⟨p.1, q.1, hm, hn, Nat.lt_of_le_of_ne hpq.2 fun heq => hpq.1 ?_⟩
  rw [hm, hn, heq]

end arrange

end Seedbed
