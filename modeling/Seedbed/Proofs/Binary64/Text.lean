import Seedbed.Proofs.Binary64.Numeral
import Seedbed.Proofs.Binary64.Whole

/-! The text of a whole number is read back as the number. The decimal that is written has no places
after its point, so its layout is a run of digits or has an exponent that makes up for them. -/

namespace Seedbed

attribute [local instance (high)] instPowNat

namespace Binary64

/-! ### Decimals without places -/

theorem two_pow_le_ten_pow {k e : Nat} (h : 62 * k ≤ e) : 2 ^ (205 * k) ≤ 10 ^ e := by
  refine Nat.le_trans ?_ (Nat.pow_le_pow_right (by omega) h)
  rw [Nat.pow_mul, Nat.pow_mul]
  exact Nat.pow_le_pow_left (by decide) k

/-- No finite number has a decimal exponent of 310. -/
theorem exponent_lt {digits e : Nat} (hd : digits ≠ 0)
    (h : nearestPlace (digits * 10 ^ e) 1 < 2047 * 2 ^ (52 : Nat)) : e < 310 := by
  refine Nat.lt_of_not_le fun he => ?_
  have hn : digits * 10 ^ e ≠ 0 := Nat.mul_ne_zero hd (Nat.ne_of_gt (Nat.pow_pos (by omega)))
  have hpow := Nat.le_trans (two_pow_le_ten_pow (k := 5) he)
    (Nat.le_mul_of_pos_left _ (Nat.pos_of_ne_zero hd))
  have hlog := log2_lt_of_nearestPlace_lt hn h
  have hle := (Nat.le_log2 hn).2 hpow
  omega

theorem ofDecimal_of_exponent_lt (negative : Bool) {digits e : Nat} (hd : digits ≠ 0)
    (he : e < 310) :
    ofDecimal negative digits e = ofPlace negative (nearestPlace (digits * 10 ^ e) 1) := by
  have hpos : (e : Int).toNat = e := rfl
  have hneg : (-(e : Int)).toNat = 0 := by omega
  rw [ofDecimal, if_neg hd, if_neg (by omega), if_neg (by omega), ofRatio, hpos, hneg]

/-- A decimal is the number at a place. -/
theorem ofDecimal_of_place (negative : Bool) {digits e place : Nat} (hd : digits ≠ 0)
    (hp : place < 2047 * 2 ^ (52 : Nat)) (h : nearestPlace (digits * 10 ^ e) 1 = place) :
    ofDecimal negative digits e = .finite negative ⟨place, hp⟩ := by
  have he : e < 310 := exponent_lt hd (by rwa [h])
  rw [ofDecimal_of_exponent_lt negative hd he, h, ofPlace, dif_pos hp]

theorem place_of_ofDecimal {digits e place : Nat} (hd : digits ≠ 0)
    (hp : place < 2047 * 2 ^ (52 : Nat)) (h : ofDecimal false digits e = ofPlace false place) :
    nearestPlace (digits * 10 ^ e) 1 = place := by
  rw [ofPlace, dif_pos hp] at h
  by_cases he : 310 ≤ e
  · rw [ofDecimal, if_neg hd, if_pos (by omega)] at h
    cases h
  · rw [ofDecimal_of_exponent_lt false hd (by omega), ofPlace] at h
    split at h
    · exact congrArg Fin.val (Binary64.finite.inj h).2
    · cases h

/-! ### The shortest decimal -/

section shortest

variable {place n d : Nat} (hd : d ≠ 0)

include hd

theorem tenExponent_whole (hn : n ≠ 0) :
    tenExponent (n * d) d = ((decimalDigits n).length - 1 : Nat) := by
  have hlen : 0 < (decimalDigits n).length := List.length_pos_iff.2 (decimalDigits_ne_nil n)
  rw [tenExponent, if_pos (Nat.le_mul_of_pos_left _ (Nat.pos_of_ne_zero hn)),
    Nat.mul_div_cancel _ (Nat.pos_of_ne_zero hd)]
  omega

theorem neighbours_whole (n : Nat) :
    neighbours (n * d) d 0 = [⟨n, 0⟩, ⟨n + 1, 0⟩] := by
  have hz : (-(0 : Int)).toNat = 0 := rfl
  have hz' : (0 : Int).toNat = 0 := rfl
  simp only [neighbours, hz, hz', Nat.pow_zero, Nat.mul_one, roundHalfEven_mul n hd,
    Nat.mul_div_cancel n (Nat.pos_of_ne_zero hd), if_true]

end shortest

/-- A whole number of more than 53 binary digits is no fraction. -/
theorem fraction_of_big {place n : Nat} (hf : (fraction place).1 = n * (fraction place).2)
    (hn : 2 ^ (53 : Nat) ≤ n) : (fraction place).2 = 1 := by
  have hle : ∀ k, n ≤ n * 2 ^ k := fun k => Nat.le_mul_of_pos_right _ (Nat.two_pow_pos k)
  by_cases hp : place < 2 ^ (52 : Nat)
  · simp only [fraction, scaled, if_pos hp] at hf
    have hz : (-1074 : Int).toNat = 0 := rfl
    rw [hz, Nat.pow_zero, Nat.mul_one] at hf
    have hl := hle (-(-1074) : Int).toNat
    rw [← hf] at hl
    omega
  · simp only [fraction, scaled, if_neg hp] at hf ⊢
    by_cases he : 1075 ≤ place / 2 ^ (52 : Nat)
    · rw [show (-((place / 2 ^ (52 : Nat) : Nat) - 1075 : Int)).toNat = 0 by omega, Nat.pow_zero]
    · rw [show ((place / 2 ^ (52 : Nat) : Nat) - 1075 : Int).toNat = 0 by omega, Nat.pow_zero,
        Nat.mul_one] at hf
      have hl := hle (-((place / 2 ^ (52 : Nat) : Nat) - 1075 : Int)).toNat
      rw [← hf] at hl
      omega

theorem fraction_snd_ne_zero (place : Nat) : (fraction place).2 ≠ 0 := by
  simp only [fraction]
  exact Nat.ne_of_gt (Nat.two_pow_pos _)

/-- Zeros at the end of the digits become part of the exponent. -/
theorem exists_trim {digits e : Nat} (hd : digits ≠ 0) : ∃ digits' e' : Nat,
    Decimal.trim ⟨digits, e⟩ = ⟨digits', e'⟩ ∧ digits' ≠ 0 ∧
      digits' * 10 ^ e' = digits * 10 ^ e := by
  obtain ⟨m, hm⟩ := ten_pow_zeros_dvd digits
  generalize hz : ((decimalDigits digits).reverse.takeWhile (· = '0')).length = zeros at hm
  have hpos : 0 < 10 ^ zeros := Nat.pow_pos (by omega)
  have hdiv : digits / 10 ^ zeros = m := by rw [hm, Nat.mul_div_cancel_left m hpos]
  refine ⟨m, e + zeros, ?_, ?_, ?_⟩
  · simp only [Decimal.trim, hz, if_neg hd, hdiv]
    rfl
  · rintro rfl
    exact hd (hm.trans (Nat.mul_zero _))
  · rw [hm, Nat.pow_add, Nat.mul_comm (10 ^ e), ← Nat.mul_assoc, Nat.mul_comm m]

/-- The decimal that is found with so many digits after its first one. -/
def onGrid? (place count : Nat) : Option Decimal :=
  (neighbours (fraction place).1 (fraction place).2
    (tenExponent (fraction place).1 (fraction place).2 - count)).find? fun x =>
      ofDecimal false x.digits x.exponent = ofPlace false place

theorem shortest_eq (place : Nat) : shortest place =
    (((List.range 17).findSome? (onGrid? place)).getD
      ⟨(fraction place).1 * 5 ^ (fraction place).2.log2, -(fraction place).2.log2⟩).trim := rfl

theorem exponent_of_onGrid? {place count : Nat} {x : Decimal} (h : onGrid? place count = some x) :
    x.exponent = tenExponent (fraction place).1 (fraction place).2 - count ∧
      ofDecimal false x.digits x.exponent = ofPlace false place := by
  have hval := List.find?_some h
  have hm := List.mem_of_find?_eq_some h
  refine ⟨?_, of_decide_eq_true hval⟩
  simp only [neighbours, List.mem_cons, List.not_mem_nil, or_false] at hm
  rcases hm with rfl | rfl
  · rfl
  · rfl

theorem le_of_findSome?_range {α : Type} {f : Nat → Option α} {n i : Nat} {x y : α}
    (h : (List.range n).findSome? f = some x) (hi : i < n) (hy : f i = some y) :
    ∃ k, k ≤ i ∧ f k = some x := by
  obtain ⟨before, k, after, hrange, hk, hnone⟩ := List.findSome?_eq_some_iff.1 h
  refine ⟨k, Nat.le_of_not_lt fun hlt => ?_, hk⟩
  have hpair := List.pairwise_lt_range (n := n)
  have hmem : i ∈ before ++ k :: after := hrange ▸ List.mem_range.2 hi
  rw [hrange, List.pairwise_append] at hpair
  rcases List.mem_append.1 hmem with hb | ha
  · rw [hnone i hb] at hy
    cases hy
  · rcases List.mem_cons.1 ha with rfl | ha
    · exact Nat.lt_irrefl _ hlt
    · exact absurd ((List.pairwise_cons.1 hpair.2.1).1 i ha) (by omega)

section whole

variable {place n : Nat} (hn : n ≠ 0) (hf : (fraction place).1 = n * (fraction place).2)

include hn hf

theorem onGrid?_whole :
    onGrid? place ((decimalDigits n).length - 1) = some ⟨n, 0⟩ := by
  have hd := fraction_snd_ne_zero place
  have htop := tenExponent_whole hd hn
  have hvalue := ofDecimal_of_exponent_lt false hn (e := 0) (by omega)
  rw [Nat.pow_zero, Nat.mul_one, nearestPlace_of_fraction hn hf] at hvalue
  rw [onGrid?, hf, htop, Int.sub_self, neighbours_whole hd]
  exact List.find?_cons_of_pos (decide_eq_true hvalue)

/-- What is found with fewer digits has no places after its point either. -/
theorem exists_of_onGrid? (hp : place < 2047 * 2 ^ (52 : Nat)) {count : Nat} {x : Decimal}
    (hc : count ≤ (decimalDigits n).length - 1) (hx : onGrid? place count = some x) :
    ∃ digits e : Nat, x = ⟨digits, e⟩ ∧ digits ≠ 0 ∧ nearestPlace (digits * 10 ^ e) 1 = place := by
  obtain ⟨hexp, hval⟩ := exponent_of_onGrid? hx
  obtain ⟨digits, e⟩ := x
  have he : e = ((decimalDigits n).length - 1 - count : Nat) := by
    rw [hf, tenExponent_whole (fraction_snd_ne_zero place) hn] at hexp
    exact hexp.trans (Int.ofNat_sub hc).symm
  subst he
  have hdigits : digits ≠ 0 := by
    rintro rfl
    rw [ofPlace, dif_pos hp] at hval
    have hzero := congrArg Fin.val (Binary64.finite.inj hval).2
    exact nearestPlace_ne_zero hn ((nearestPlace_of_fraction hn hf).trans hzero.symm)
  exact ⟨digits, _, rfl, hdigits, place_of_ofDecimal hdigits hp hval⟩

/-- If none is found with 17 digits, the number has more of them, and all are written. -/
theorem shortest_of_not_found (h : (List.range 17).findSome? (onGrid? place) = none) :
    shortest place = Decimal.trim ⟨n, 0⟩ := by
  have htop : 17 ≤ (decimalDigits n).length - 1 := by
    refine Nat.le_of_not_lt fun hlt => ?_
    have hnone := List.findSome?_eq_none_iff.1 h _ (List.mem_range.2 hlt)
    cases hnone.symm.trans (onGrid?_whole hn hf)
  have hone : (fraction place).2 = 1 := by
    refine fraction_of_big hf (Nat.le_of_not_lt fun hlt => ?_)
    have hlen : (decimalDigits n).length ≤ 16 :=
      (Nat.length_toDigits_le_iff (by omega) (by omega)).2 (Nat.lt_trans hlt (by decide))
    omega
  have hlog : (1 : Nat).log2 = 0 := rfl
  rw [hone, Nat.mul_one] at hf
  rw [shortest_eq, h, hone, hf, hlog, Nat.pow_zero, Nat.mul_one]
  rfl

/-- The shortest decimal of a whole number has no places and is the number. -/
theorem exists_shortest (hp : place < 2047 * 2 ^ (52 : Nat)) : ∃ digits e : Nat,
    shortest place = ⟨digits, e⟩ ∧ digits ≠ 0 ∧ nearestPlace (digits * 10 ^ e) 1 = place := by
  have hbefore : ∃ digits e : Nat, shortest place = Decimal.trim ⟨digits, e⟩ ∧ digits ≠ 0 ∧
      nearestPlace (digits * 10 ^ e) 1 = place := by
    cases hfound : (List.range 17).findSome? (onGrid? place) with
    | none =>
      refine ⟨n, 0, shortest_of_not_found hn hf hfound, hn, ?_⟩
      rw [Nat.pow_zero, Nat.mul_one, nearestPlace_of_fraction hn hf]
    | some x =>
      obtain ⟨count, hcount, hx⟩ : ∃ count, count ≤ (decimalDigits n).length - 1 ∧
          onGrid? place count = some x := by
        by_cases htop : (decimalDigits n).length - 1 < 17
        · exact le_of_findSome?_range hfound htop (onGrid?_whole hn hf)
        · obtain ⟨count, hmem, hc⟩ := List.exists_of_findSome?_eq_some hfound
          have hlt := List.mem_range.1 hmem
          exact ⟨count, by omega, hc⟩
      obtain ⟨digits, e, rfl, hdigits, hnear⟩ := exists_of_onGrid? hn hf hp hcount hx
      exact ⟨digits, e, by rw [shortest_eq, hfound]; rfl, hdigits, hnear⟩
  obtain ⟨digits, e, hs, hdigits, hnear⟩ := hbefore
  obtain ⟨digits', e', ht, hdigits', hprod⟩ := exists_trim (e := e) hdigits
  exact ⟨digits', e', hs.trans ht, hdigits', by rw [hprod, hnear]⟩

end whole

/-! ### The layout -/

section layout

variable {digits e : Nat}

theorem layout_short (h : (decimalDigits digits).length + e ≤ 21) :
    layout ⟨digits, e⟩ = decimalDigits digits ++ List.replicate e '0' := by
  have hzeros : (((decimalDigits digits).length : Int) + e - (decimalDigits digits).length).toNat =
      e := by omega
  simp only [layout]
  rw [if_pos (by omega), hzeros]

def laterDigits (digits : Nat) : Option (List Char) :=
  if (decimalDigits digits).length = 1 then none else some ((decimalDigits digits).drop 1)

theorem layout_long (h : 21 < (decimalDigits digits).length + e) :
    layout ⟨digits, e⟩ = (decimalDigits digits).take 1 ++
      (Numeral.afterPoint (laterDigits digits) ++
        'e' :: '+' :: decimalDigits ((decimalDigits digits).length + e - 1)) := by
  have hlen : 0 < (decimalDigits digits).length :=
    List.length_pos_iff.2 (decimalDigits_ne_nil digits)
  have hexp : (((decimalDigits digits).length : Int) + e - 1).natAbs =
      (decimalDigits digits).length + e - 1 := by omega
  simp only [layout]
  rw [if_neg (by omega), if_neg (by omega), if_neg (by omega), hexp, laterDigits]
  have hsign : ¬((decimalDigits digits).length : Int) + e - 1 < 0 := by omega
  by_cases hone : (decimalDigits digits).length = 1
  · rw [if_neg hsign, if_pos hone, if_pos hone, List.take_of_length_le (Nat.le_of_eq hone)]
    rfl
  · rw [if_neg hsign, if_neg hone, if_neg hone, List.append_assoc]
    rfl

theorem take_append_laterDigits (digits : Nat) :
    (decimalDigits digits).take 1 ++ (laterDigits digits).getD [] = decimalDigits digits := by
  unfold laterDigits
  split
  · rename_i hone
    rw [Option.getD_none, List.append_nil, List.take_of_length_le (Nat.le_of_eq hone)]
  · exact List.take_append_drop 1 _

theorem length_laterDigits (digits : Nat) :
    ((laterDigits digits).getD []).length + 1 = (decimalDigits digits).length := by
  have hlen : 0 < (decimalDigits digits).length :=
    List.length_pos_iff.2 (decimalDigits_ne_nil digits)
  unfold laterDigits
  split
  · rename_i hone
    exact hone.symm
  · rw [Option.getD_some, List.length_drop]
    omega

theorem exponent?_plus (n : Nat) :
    Numeral.exponent? ('e' :: '+' :: decimalDigits n) = some (some (n : Int)) := by
  have hall : (decimalDigits n).all Char.isDigit := List.all_eq_true.2 (digits_decimalDigits n)
  simp only [Numeral.exponent?, Numeral.sign, valueOfDigits_decimalDigits]
  rw [if_pos ⟨.inl trivial, decimalDigits_ne_nil n, hall⟩, if_neg Bool.false_ne_true]

theorem read?_decimalDigits (negative : Bool) (n : Nat) :
    Numeral.read? (Numeral.minus negative ++ decimalDigits n) =
      some ⟨negative, decimalDigits n, none, none⟩ := by
  have hread := Numeral.read?_parts negative (decimalDigits_ne_nil n) (digits_decimalDigits n)
    (fun ds (h : ds ∈ (none : Option (List Char))) => nomatch h)
    (show Numeral.exponent? [] = some none from rfl)
  rwa [Numeral.afterPoint, List.append_nil, List.append_nil] at hread

theorem value_decimalDigits (negative : Bool) (n : Nat) :
    Numeral.value ⟨negative, decimalDigits n, none, none⟩ = ofDecimal negative n 0 := by
  rw [Numeral.value, Option.getD_none, List.append_nil, valueOfDigits_decimalDigits]
  rfl

theorem exists_read?_layout (negative : Bool) {place : Nat} (hd : digits ≠ 0)
    (hp : place < 2047 * 2 ^ (52 : Nat)) (h : nearestPlace (digits * 10 ^ e) 1 = place) :
    ∃ x, Numeral.read? (Numeral.minus negative ++ layout ⟨digits, e⟩) = some x ∧
      x.value = .finite negative ⟨place, hp⟩ := by
  have hlen : 0 < (decimalDigits digits).length :=
    List.length_pos_iff.2 (decimalDigits_ne_nil digits)
  have hdigits := digits_decimalDigits digits
  by_cases hshort : (decimalDigits digits).length + e ≤ 21
  · have hne : digits * 10 ^ e ≠ 0 := Nat.mul_ne_zero hd (Nat.ne_of_gt (Nat.pow_pos (by omega)))
    refine ⟨_, ?_, (value_decimalDigits negative (digits * 10 ^ e)).trans ?_⟩
    · rw [layout_short hshort, ← decimalDigits_mul_ten_pow hd]
      exact read?_decimalDigits negative _
    · exact ofDecimal_of_place negative hne (e := 0) hp (by rw [Nat.pow_zero, Nat.mul_one, h])
  · refine ⟨⟨negative, (decimalDigits digits).take 1, laterDigits digits,
      some ((decimalDigits digits).length + e - 1 : Nat)⟩, ?_, ?_⟩
    · rw [layout_long (by omega)]
      refine Numeral.read?_parts negative ?_ (fun c hc => hdigits c (List.mem_of_mem_take hc)) ?_
        (exponent?_plus _)
      · rw [← List.length_pos_iff, List.length_take]
        omega
      · intro ds hds c hc
        unfold laterDigits at hds
        split at hds
        · cases hds
        · cases hds
          exact hdigits c (List.mem_of_mem_drop hc)
    · have hlater := length_laterDigits digits
      have hexp : (((decimalDigits digits).length + e - 1 : Nat) : Int) -
          ((laterDigits digits).getD []).length = e := by omega
      rw [Numeral.value]
      dsimp only
      rw [take_append_laterDigits, valueOfDigits_decimalDigits, Option.getD_some, hexp]
      exact ofDecimal_of_place negative hd hp h

end layout

/-! ### Whole numbers -/

theorem fraction_of_toInt? {negative : Bool} {place : Fin (2047 * 2 ^ (52 : Nat))} {n : Int}
    (h : toInt? (.finite negative place) = some n) :
    ∃ m, (fraction place).1 = m * (fraction place).2 := by
  simp only [toInt?] at h
  split at h
  · exact ⟨_, (Nat.div_mul_cancel (Nat.dvd_of_mod_eq_zero ‹_›)).symm⟩
  · cases h

theorem eq_zero_of_fraction {place : Nat} (h : (fraction place).1 = 0) : place = 0 := by
  by_cases hp : place < 2 ^ (52 : Nat)
  · simp only [fraction, scaled, if_pos hp] at h
    exact (Nat.mul_eq_zero.1 h).resolve_right (Nat.ne_of_gt (Nat.two_pow_pos _))
  · simp only [fraction, scaled, if_neg hp] at h
    have hm := (Nat.mul_eq_zero.1 h).resolve_right (Nat.ne_of_gt (Nat.two_pow_pos _))
    omega

/-- The text of a whole number but zero is the layout of a decimal without places. -/
theorem text_of_toInt? {x : Binary64} {n : Int} (h : x.toInt? = some n) :
    x.text = "0" ∨ ∃ negative place, x = .finite negative place ∧ ∃ digits e : Nat,
      x.text.toList = Numeral.minus negative ++ layout ⟨digits, e⟩ ∧ digits ≠ 0 ∧
      nearestPlace (digits * 10 ^ e) 1 = place := by
  cases x with
  | nan | infinite _ => cases h
  | finite negative place =>
    obtain ⟨m, hf⟩ := fraction_of_toInt? h
    by_cases hzero : place.val = 0
    · rw [text, if_pos hzero]
      exact .inl rfl
    · have hm : m ≠ 0 := by
        rintro rfl
        exact hzero (eq_zero_of_fraction (hf.trans (Nat.zero_mul _)))
      obtain ⟨digits, e, hs, hd, hnear⟩ := exists_shortest hm hf place.isLt
      refine .inr ⟨negative, place, rfl, digits, e, ?_, hd, hnear⟩
      rw [text, if_neg hzero, hs, String.toList_ofList]
      rfl

/-- The text of a whole number is read as a number with this text. -/
theorem exists_read?_text {x : Binary64} {n : Int} (h : x.toInt? = some n) :
    ∃ y, Numeral.read? x.text.toList = some y ∧ y.value.text = x.text := by
  rcases text_of_toInt? h with hzero | ⟨negative, place, rfl, digits, e, ht, hd, hnear⟩
  · rw [hzero]
    exact ⟨⟨false, ['0'], none, none⟩, rfl, rfl⟩
  · obtain ⟨y, hread, hval⟩ := exists_read?_layout negative hd place.isLt hnear
    exact ⟨y, by rw [ht, hread], by rw [hval]⟩

theorem mem_layout {digits e : Nat} {c : Char} (h : c ∈ layout ⟨digits, e⟩) :
    c.isDigit ∨ c = '.' ∨ c = 'e' ∨ c = '+' := by
  have hdigits := digits_decimalDigits digits
  by_cases hshort : (decimalDigits digits).length + e ≤ 21
  · rw [layout_short hshort] at h
    rcases List.mem_append.1 h with h | h
    · exact .inl (hdigits c h)
    · rw [List.eq_of_mem_replicate h]
      exact .inl rfl
  · rw [layout_long (by omega)] at h
    rcases List.mem_append.1 h with h | h
    · exact .inl (hdigits c (List.mem_of_mem_take h))
    rcases List.mem_append.1 h with h | h
    · unfold laterDigits at h
      split at h
      · cases h
      · rcases List.mem_cons.1 h with rfl | h
        · exact .inr (.inl rfl)
        · exact .inl (hdigits c (List.mem_of_mem_drop h))
    · rcases List.mem_cons.1 h with rfl | h
      · exact .inr (.inr (.inl rfl))
      · rcases List.mem_cons.1 h with rfl | h
        · exact .inr (.inr (.inr rfl))
        · exact .inl (digits_decimalDigits _ c h)

theorem exists_cons_layout (digits e : Nat) :
    ∃ c rest, layout ⟨digits, e⟩ = c :: rest ∧ c.isDigit := by
  obtain ⟨c, cs, hcs⟩ := List.exists_cons_of_ne_nil (decimalDigits_ne_nil digits)
  have hc : c.isDigit := digits_decimalDigits digits c (by rw [hcs]; exact List.mem_cons_self)
  by_cases hshort : (decimalDigits digits).length + e ≤ 21
  · exact ⟨c, _, by rw [layout_short hshort, hcs]; rfl, hc⟩
  · exact ⟨c, _, by rw [layout_long (by omega), hcs]; rfl, hc⟩

theorem exists_text {x : Binary64} {n : Int} (h : x.toInt? = some n) : ∃ negative c rest,
    x.text.toList = Numeral.minus negative ++ c :: rest ∧ c.isDigit ∧
      ∀ d ∈ rest, d.isDigit ∨ d = '.' ∨ d = 'e' ∨ d = '+' := by
  rcases text_of_toInt? h with hzero | ⟨negative, place, rfl, digits, e, ht, -, -⟩
  · rw [hzero]
    exact ⟨false, '0', [], rfl, rfl, nofun⟩
  · obtain ⟨c, rest, hlayout, hc⟩ := exists_cons_layout digits e
    exact ⟨negative, c, rest, by rw [ht, hlayout], hc, fun d hd =>
      mem_layout (by rw [hlayout]; exact List.mem_cons_of_mem c hd)⟩

/-! ### Whole numbers written out -/

theorem toList_toString (n : Int) :
    (toString n).toList = Numeral.minus (n < 0) ++ decimalDigits n.natAbs := by
  rw [Int.toString_eq_repr, Int.repr_eq_if]
  by_cases hn : 0 ≤ n
  · have hneg : ¬n < 0 := by omega
    rw [if_pos hn, decide_eq_false hneg, Nat.toList_repr, show n.natAbs = n.toNat by omega]
    rfl
  · have hneg : n < 0 := by omega
    rw [if_neg hn, decide_eq_true hneg, String.toList_append, Nat.toList_repr,
      show n.natAbs = (-n).toNat by omega]
    rfl

/-- A whole number written out is read as the number nearest to it. -/
theorem exists_read?_toString (n : Int) :
    ∃ y, Numeral.read? (toString n).toList = some y ∧ y.value = ofInt n := by
  refine ⟨_, ?_, (value_decimalDigits (n < 0) n.natAbs).trans ?_⟩
  · rw [toList_toString]
    exact read?_decimalDigits _ _
  · by_cases hn : n.natAbs = 0
    · cases Int.natAbs_eq_zero.1 hn
      rfl
    · have hval := ofDecimal_of_exponent_lt (n < 0) hn (e := 0) (by omega)
      rw [Nat.pow_zero, Nat.mul_one] at hval
      exact hval

/-- A whole number up to 2⁵³ has its own text. -/
theorem text_ofInt {n : Int} (h : n.natAbs ≤ 2 ^ (53 : Nat)) : (ofInt n).text = toString n := by
  by_cases hzero : n.natAbs = 0
  · cases Int.natAbs_eq_zero.1 hzero
    rfl
  by_cases hlt : n.natAbs < 2 ^ (53 : Nat)
  · have hl : n.natAbs.log2 ≤ 52 := Nat.le_of_lt_succ ((Nat.log2_lt hzero).2 hlt)
    have hp : nearestPlace n.natAbs 1 < 2047 * 2 ^ (52 : Nat) :=
      Nat.lt_of_lt_of_le (nearestPlace_small_lt hzero hl) (Nat.mul_le_mul_right _ (by omega))
    have hplace := nearestPlace_ne_zero hzero
    obtain ⟨digits, e, hs, hd, hnear⟩ := exists_shortest hzero (fraction_nearestPlace hzero hl) hp
    have hne : digits * 10 ^ e ≠ 0 := Nat.mul_ne_zero hd (Nat.ne_of_gt (Nat.pow_pos (by omega)))
    have hn := eq_of_nearestPlace_eq hlt hzero hne hnear
    have hwritten := decimalDigits_mul_ten_pow hd e
    rw [hn] at hwritten
    have hlen : (decimalDigits digits).length + e ≤ 21 := by
      have hle : (decimalDigits n.natAbs).length ≤ 16 :=
        (Nat.length_toDigits_le_iff (by omega) (by omega)).2 (Nat.lt_trans hlt (by decide))
      rw [hwritten, List.length_append, List.length_replicate] at hle
      omega
    rw [ofInt, ofRatio, ofPlace, dif_pos hp, text, if_neg hplace, hs, layout_short hlen, ← hwritten]
    exact String.toList_inj.1 ((String.toList_ofList).trans (toList_toString n).symm)
  · have hn : n = 2 ^ (53 : Nat) ∨ n = -2 ^ (53 : Nat) := by omega
    rcases hn with rfl | rfl
    · decide +kernel
    · decide +kernel

end Binary64

end Seedbed
