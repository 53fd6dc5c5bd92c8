import Seedbed.Binary64

/-! The places of whole numbers. A number at a place that is whole is found again from its value,
and whole numbers up to 2⁵³ have places of their own. -/

namespace Seedbed

-- Powers are those of the core library, also where others are imported.
attribute [local instance (high)] instPowNat

namespace Binary64

/-! ### Rounding -/

theorem roundHalfEven_mul {d : Nat} (n : Nat) (h : d ≠ 0) : roundHalfEven (n * d) d = n := by
  have hd : 0 < d := Nat.pos_of_ne_zero h
  simp only [roundHalfEven, Nat.mul_mod_left, Nat.mul_zero, if_pos hd, Nat.mul_div_cancel n hd]

theorem div_le_roundHalfEven (n d : Nat) : n / d ≤ roundHalfEven n d := by
  simp only [roundHalfEven]
  split
  · exact Nat.le_refl _
  · split
    · exact Nat.le_succ _
    · split
      · exact Nat.le_refl _
      · exact Nat.le_succ _

theorem pow_le_scaled {n : Nat} (h : n ≠ 0) :
    2 ^ (52 : Nat) * 2 ^ (n.log2 - 52) ≤ n * 2 ^ (52 - n.log2) := by
  calc 2 ^ (52 : Nat) * 2 ^ (n.log2 - 52) = 2 ^ n.log2 * 2 ^ (52 - n.log2) := by
        rw [← Nat.pow_add, ← Nat.pow_add]
        congr 1
        omega
    _ ≤ n * 2 ^ (52 - n.log2) := Nat.mul_le_mul_right _ (Nat.log2_self_le h)

/-- A whole number is scaled to 53 binary digits and rounded. -/
theorem nearestPlace_one {n : Nat} (h : n ≠ 0) :
    nearestPlace n 1 = (n.log2 + 1022) * 2 ^ (52 : Nat) +
      roundHalfEven (n * 2 ^ (52 - n.log2)) (2 ^ (n.log2 - 52)) := by
  have hone : (1 : Nat).log2 = 0 := rfl
  have hlow : (-((n.log2 : Int) - (0 : Nat) - 52)).toNat = 52 - n.log2 := by omega
  have hhigh : ((n.log2 : Int) - (0 : Nat) - 52).toNat = n.log2 - 52 := by omega
  have hwide : ¬n * 2 ^ (52 - n.log2) < 2 ^ (52 : Nat) * (1 * 2 ^ (n.log2 - 52)) := by
    rw [Nat.one_mul, Nat.not_lt]
    exact pow_le_scaled h
  have hmax : max (-1074) ((n.log2 : Int) - (0 : Nat) - 52) = (n.log2 : Int) - (0 : Nat) - 52 := by
    omega
  have hplace : ((n.log2 : Int) - (0 : Nat) - 52 + 1074).toNat = n.log2 + 1022 := by omega
  simp only [nearestPlace, hone, hlow, hhigh, if_neg hwide, hmax, hplace, if_neg h]
  rw [Nat.one_mul]

/-- A place says between which powers of two a whole number is. -/
theorem le_nearestPlace {n : Nat} (h : n ≠ 0) :
    (n.log2 + 1023) * 2 ^ (52 : Nat) ≤ nearestPlace n 1 := by
  have hr : 2 ^ (52 : Nat) ≤ roundHalfEven (n * 2 ^ (52 - n.log2)) (2 ^ (n.log2 - 52)) := by
    refine Nat.le_trans ?_ (div_le_roundHalfEven _ _)
    rw [Nat.le_div_iff_mul_le (Nat.two_pow_pos _)]
    exact pow_le_scaled h
  rw [nearestPlace_one h, show n.log2 + 1023 = n.log2 + 1022 + 1 from rfl, Nat.add_mul _ 1,
    Nat.one_mul]
  exact Nat.add_le_add_left hr _

theorem nearestPlace_ne_zero {n : Nat} (h : n ≠ 0) : nearestPlace n 1 ≠ 0 :=
  Nat.ne_of_gt (Nat.lt_of_lt_of_le (Nat.mul_pos (Nat.succ_pos _) (Nat.two_pow_pos 52))
    (le_nearestPlace h))

theorem log2_lt_of_nearestPlace_lt {n : Nat} (hn : n ≠ 0)
    (h : nearestPlace n 1 < 2047 * 2 ^ (52 : Nat)) : n.log2 < 1024 := by
  have hle := le_nearestPlace hn
  omega

/-! ### Exact numbers -/

/-- A whole number below 2⁵³ is not rounded. -/
theorem nearestPlace_small {n : Nat} (h : n ≠ 0) (hl : n.log2 ≤ 52) :
    nearestPlace n 1 = (n.log2 + 1022) * 2 ^ (52 : Nat) + n * 2 ^ (52 - n.log2) := by
  have hone : 2 ^ (n.log2 - 52) = 1 := by
    rw [Nat.sub_eq_zero_of_le hl]
  have hr := roundHalfEven_mul (n * 2 ^ (52 - n.log2)) (Nat.one_ne_zero)
  rw [Nat.mul_one] at hr
  rw [nearestPlace_one h, hone, hr]

theorem log2_mul_two_pow {n : Nat} (h : n ≠ 0) (k : Nat) : (n * 2 ^ k).log2 = n.log2 + k := by
  induction k with
  | zero => rw [Nat.pow_zero, Nat.mul_one, Nat.add_zero]
  | succ k ih =>
    have hk : n * 2 ^ k ≠ 0 := Nat.mul_ne_zero h (Nat.ne_of_gt (Nat.two_pow_pos k))
    rw [Nat.pow_succ, ← Nat.mul_assoc, Nat.mul_comm, Nat.log2_two_mul hk, ih, Nat.add_assoc]

theorem nearestPlace_of_fraction {place n : Nat} (h : n ≠ 0)
    (hf : (fraction place).1 = n * (fraction place).2) : nearestPlace n 1 = place := by
  by_cases hp : place < 2 ^ (52 : Nat)
  · -- below one no place is whole
    simp only [fraction, scaled, if_pos hp] at hf
    have hle : place < place := by
      calc place < 2 ^ (52 : Nat) := hp
        _ ≤ 2 ^ (-(-1074) : Int).toNat := Nat.pow_le_pow_right (by omega) (by decide)
        _ = 1 * 2 ^ (-(-1074) : Int).toNat := (Nat.one_mul _).symm
        _ ≤ n * 2 ^ (-(-1074) : Int).toNat := Nat.mul_le_mul_right _ (Nat.pos_of_ne_zero h)
        _ = place := hf.symm.trans (Nat.mul_one _)
    exact absurd hle (Nat.lt_irrefl _)
  · have hm : (2 ^ (52 : Nat) + place % 2 ^ (52 : Nat)).log2 = 52 := by
      rw [Nat.log2_eq_iff (by omega)]
      omega
    have hhigh : ((place / 2 ^ (52 : Nat) : Nat) - 1075 : Int).toNat =
        place / 2 ^ (52 : Nat) - 1075 := by omega
    have hlow : (-((place / 2 ^ (52 : Nat) : Nat) - 1075 : Int)).toNat =
        1075 - place / 2 ^ (52 : Nat) := by omega
    simp only [fraction, scaled, if_neg hp, hhigh, hlow] at hf
    have hlog := congrArg Nat.log2 hf
    rw [log2_mul_two_pow (by omega), log2_mul_two_pow h, hm] at hlog
    have hk : n.log2 + 1023 = place / 2 ^ (52 : Nat) := by omega
    rw [nearestPlace_one h, show 52 - n.log2 = 1075 - place / 2 ^ (52 : Nat) by omega,
      show n.log2 - 52 = place / 2 ^ (52 : Nat) - 1075 by omega, ← hf,
      roundHalfEven_mul _ (Nat.ne_of_gt (Nat.two_pow_pos _))]
    omega

theorem nearestPlace_small_lt {n : Nat} (h : n ≠ 0) (hl : n.log2 ≤ 52) :
    nearestPlace n 1 < (n.log2 + 1024) * 2 ^ (52 : Nat) := by
  have hs : n * 2 ^ (52 - n.log2) < 2 ^ (53 : Nat) := by
    calc n * 2 ^ (52 - n.log2) < 2 ^ (n.log2 + 1) * 2 ^ (52 - n.log2) :=
          Nat.mul_lt_mul_of_pos_right Nat.lt_log2_self (Nat.two_pow_pos _)
      _ = 2 ^ (53 : Nat) := by
          rw [← Nat.pow_add]
          congr 1
          omega
  rw [nearestPlace_small h hl]
  omega

theorem le_scaled {n : Nat} (h : n ≠ 0) (hl : n.log2 ≤ 52) :
    2 ^ (52 : Nat) ≤ n * 2 ^ (52 - n.log2) := by
  have hle := pow_le_scaled h
  rwa [Nat.sub_eq_zero_of_le hl, Nat.pow_zero, Nat.mul_one] at hle

theorem fraction_nearestPlace {n : Nat} (h : n ≠ 0) (hl : n.log2 ≤ 52) :
    (fraction (nearestPlace n 1)).1 = n * (fraction (nearestPlace n 1)).2 := by
  have hle := le_scaled h hl
  have hlt := nearestPlace_small_lt h hl
  have hplace := nearestPlace_small h hl
  generalize hs : n * 2 ^ (52 - n.log2) = scaled at hle hplace
  have hdiv : nearestPlace n 1 / 2 ^ (52 : Nat) = n.log2 + 1023 := by omega
  have hmod : 2 ^ (52 : Nat) + nearestPlace n 1 % 2 ^ (52 : Nat) = scaled := by omega
  have hhigh : (((n.log2 + 1023 : Nat) : Int) - 1075).toNat = 0 := by omega
  have hlow : (-(((n.log2 + 1023 : Nat) : Int) - 1075)).toNat = 52 - n.log2 := by omega
  have hn : ¬nearestPlace n 1 < 2 ^ (52 : Nat) := by omega
  simp only [fraction, Binary64.scaled, if_neg hn, hdiv, hmod, hhigh, hlow, Nat.pow_zero,
    Nat.mul_one]
  exact hs.symm

/-- No other whole number has the place of a whole number below 2⁵³. -/
theorem eq_of_nearestPlace_eq {n n' : Nat} (h : n < 2 ^ (53 : Nat)) (hn : n ≠ 0) (hn' : n' ≠ 0)
    (he : nearestPlace n' 1 = nearestPlace n 1) : n' = n := by
  have hl : n.log2 ≤ 52 := Nat.le_of_lt_succ ((Nat.log2_lt hn).2 h)
  have hlt := nearestPlace_small_lt hn hl
  have hle := le_nearestPlace hn
  have hle' := le_nearestPlace hn'
  have hl' : n'.log2 ≤ 52 := by omega
  have hlt' := nearestPlace_small_lt hn' hl'
  have hlog : n'.log2 = n.log2 := by omega
  rw [nearestPlace_small hn hl, nearestPlace_small hn' hl', hlog] at he
  exact Nat.eq_of_mul_eq_mul_right (Nat.two_pow_pos _) (Nat.add_left_cancel he)

end Binary64

end Seedbed
