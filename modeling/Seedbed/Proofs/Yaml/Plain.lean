import Mathlib.Tactic.IntervalCases
import Seedbed.Proofs.Binary64.Numeral
import Seedbed.Value.Text
import Seedbed.Yaml.Scalar

/-! The value of a plain scalar and the text of this value, which is not always the scalar: there
are several spellings of null, of the booleans and of numbers, and a value has one text. What they
are depends on the version of the document, and only in version 1.1 some scalars are instants. -/

namespace Seedbed

namespace Yaml

namespace Scalar

variable {version : Version} {cs : List Char}

/-- The number that a plain scalar is, unless it is null or a boolean. -/
def number? (version : Version) (cs : List Char) : Option Binary64 :=
  int? version cs <|> float? version cs

/-- The spellings of null and of the booleans that are not their texts. -/
def respelled (version : Version) : List (List Char) :=
  (["", "~", "Null", "NULL"] ++ (spellings version true).filter (· ≠ "true")
    ++ (spellings version false).filter (· ≠ "false")).map String.toList

example : respelled .v1_2 =
    ["", "~", "Null", "NULL", "True", "TRUE", "False", "FALSE"].map String.toList := by decide

def keywords (version : Version) : List (List Char) :=
  ["null", "true", "false"].map String.toList ++ respelled version

theorem any_of_not_mem {names : List String} (hs : ∀ name ∈ names, name.toList ∈ keywords version)
    (h : cs ∉ keywords version) : names.any (·.toList = cs) = false := by
  rw [List.any_eq_false]
  intro name hname he
  rw [← of_decide_eq_true he] at h
  exact h (hs name hname)

theorem neither_of_not_mem (h : cs ∉ keywords version) :
    isNull cs = false ∧ bool? version cs = none := by
  have hnull : ∀ name ∈ ["", "~", "null", "Null", "NULL"], name.toList ∈ keywords version := by
    cases version <;> decide
  have hbool (b : Bool) : ∀ name ∈ spellings version b, name.toList ∈ keywords version := by
    cases version <;> cases b <;> decide
  refine ⟨any_of_not_mem hnull h, ?_⟩
  rw [bool?, any_of_not_mem (hbool true) h, any_of_not_mem (hbool false) h]
  rfl

theorem plainValue_of_not_mem (h : cs ∉ keywords version) :
    plainValue version cs =
      ((number? version cs).map Value.number <|> (instant? version cs).map Value.instant).getD
        (.text (.ofList cs)) := by
  obtain ⟨hn, hb⟩ := neither_of_not_mem h
  rw [plainValue, hn, hb, number?]
  cases int? version cs with
  | some x => rfl
  | none =>
    cases float? version cs with
    | some x => rfl
    | none => cases instant? version cs <;> rfl

/-! ### Dates -/

/-- A date begins with the digits of its year. -/
theorem year_of_timestamp? {t : Instant} (h : timestamp? cs = some t) :
    ∃ d ds rest, cs = d :: ds ++ '-' :: rest ∧ ∀ c ∈ d :: ds, c.isDigit := by
  obtain ⟨⟨year, after⟩, hyear, h⟩ := Option.bind_eq_some_iff.1 h
  obtain ⟨rest, hdash, -⟩ := Option.bind_eq_some_iff.1 h
  have hafter : after = '-' :: rest := by
    cases after with
    | nil => cases hdash
    | cons x after =>
      rw [char?] at hdash
      split at hdash
      · next hx => rw [hx, Option.some.inj hdash]
      · cases hdash
  simp only [digits?] at hyear
  split at hyear
  · next hlow =>
    obtain ⟨-, hdrop⟩ := Prod.mk.inj (Option.some.inj hyear)
    have hprefix : (cs.take 4).takeWhile Char.isDigit <+: cs :=
      (List.takeWhile_prefix _).trans (List.take_prefix _ _)
    have hcs := List.prefix_iff_eq_append.1 hprefix
    rw [hdrop, hafter] at hcs
    cases hds : (cs.take 4).takeWhile Char.isDigit with
    | nil => simp [hds] at hlow
    | cons d ds =>
      rw [hds] at hcs
      exact ⟨d, ds, rest, hcs.symm, hds ▸ List.all_eq_true.1 List.all_takeWhile⟩
  · cases hyear

theorem isGrouped_of_dash {isDigit : Char → Bool} (hd : isDigit '-' = false) (h : '-' ∈ cs) :
    isGrouped isDigit cs = false := by
  rw [isGrouped, List.all_eq_false]
  exact ⟨'-', h, by simp [hd]⟩

theorem isDecimal_of_dash (h : '-' ∈ cs) : isDecimal cs = false := by
  cases cs with
  | nil => rfl
  | cons c rest =>
    rw [isDecimal, Bool.and_eq_false_iff]
    rcases List.mem_cons.1 h with rfl | h
    · exact .inl rfl
    · exact .inr (isGrouped_of_dash rfl h)

theorem groupedInt?_of_dash (h : '-' ∈ (Numeral.sign cs).2) : groupedInt? cs = none := by
  unfold groupedInt?
  split
  next negative rest hsign =>
  rw [hsign] at h
  split
  · rw [isGrouped_of_dash rfl (by simpa using h)]
    rfl
  · rw [isGrouped_of_dash rfl (by simpa using h)]
    rfl
  · rw [isGrouped_of_dash rfl h, isDecimal_of_dash h]
    simp

theorem exists_betweenColons_of_dash (h : '-' ∈ cs) : ∃ part ∈ betweenColons cs, '-' ∈ part := by
  induction cs with
  | nil => cases h
  | cons c rest ih =>
    change ∃ part ∈ (if c = ':' then [] :: betweenColons rest
      else (c :: (betweenColons rest).headD []) :: (betweenColons rest).tail), '-' ∈ part
    rcases List.mem_cons.1 h with rfl | h
    · exact ⟨_, .head _, .head _⟩
    · obtain ⟨part, hp, hdash⟩ := ih h
      split
      · exact ⟨part, .tail _ hp, hdash⟩
      · cases hb : betweenColons rest with
        | nil => simp [hb] at hp
        | cons first more =>
          rcases List.mem_cons.1 (hb ▸ hp) with rfl | hp
          · exact ⟨_, .head _, .tail _ hdash⟩
          · exact ⟨part, .tail _ hp, hdash⟩

theorem isSixtieth_of_dash (h : '-' ∈ cs) : isSixtieth cs = false := by
  unfold isSixtieth
  split
  · rw [← List.mem_singleton.1 h]
    rfl
  · simp only [List.mem_cons, List.not_mem_nil, or_false] at h
    rcases h with rfl | rfl
    · rfl
    · simp
  · rfl

theorem sexagesimal?_of_dash {hasPoint : Bool} (h : '-' ∈ (Numeral.sign cs).2) :
    sexagesimal? hasPoint cs = none := by
  unfold sexagesimal?
  split
  next negative rest hsign =>
  rw [hsign, ← List.takeWhile_append_dropWhile (p := (· ≠ '.')) (l := rest)] at h
  simp only
  split
  · next first more hparts =>
    refine if_neg fun hdigits => ?_
    simp only [Bool.and_eq_true] at hdigits
    obtain ⟨⟨⟨hfirst, hmore⟩, -⟩, hpart⟩ := hdigits
    rcases List.mem_append.1 h with h | h
    · obtain ⟨part, hp, hdash⟩ := exists_betweenColons_of_dash h
      rw [hparts] at hp
      rcases List.mem_cons.1 hp with rfl | hp
      · cases hfirst.symm.trans (isDecimal_of_dash hdash)
      · cases (List.all_eq_true.1 hmore part hp).symm.trans (isSixtieth_of_dash hdash)
    · have hhead := List.head?_dropWhile_not (· ≠ '.') rest
      cases hafter : rest.dropWhile (· ≠ '.') with
      | nil =>
        rw [hafter] at h
        cases h
      | cons point tail =>
        rw [hafter] at h hhead hpart
        rcases List.mem_cons.1 h with rfl | h
        · cases hhead
        · cases hpart.symm.trans (isGrouped_of_dash rfl h)
  · rfl

theorem sign_of_isDigit {d : Char} (hd : d.isDigit) : Numeral.sign (d :: cs) = (false, d :: cs) := by
  unfold Numeral.sign
  split
  · next h =>
    rw [(List.cons.inj h).1] at hd
    cases hd
  · next h =>
    rw [(List.cons.inj h).1] at hd
    cases hd
  · rfl

theorem special?_of_isDigit {d : Char} (hd : d.isDigit) : special? (d :: cs) = none := by
  have hnames (names : List String) (hn : ∀ name ∈ names, name.toList.head? = some '.') :
      names.any (·.toList = d :: cs) = false := by
    rw [List.any_eq_false]
    intro name hname he
    have hpoint := hn name hname
    rw [of_decide_eq_true he] at hpoint
    cases hpoint
    cases hd
  have hinf := hnames [".inf", ".Inf", ".INF"] (by decide)
  have hnan := hnames [".nan", ".NaN", ".NAN"] (by decide)
  simp [special?, sign_of_isDigit hd, hinf, hnan]

theorem number?_of_timestamp? {t : Instant} (h : timestamp? cs = some t) :
    number? .v1_1 cs = none := by
  obtain ⟨d, ds, rest, rfl, hdigits⟩ := year_of_timestamp? h
  have hd := hdigits d (.head _)
  have hsign : Numeral.sign (d :: (ds ++ '-' :: rest)) = (false, d :: (ds ++ '-' :: rest)) :=
    sign_of_isDigit hd
  have hdash : '-' ∈ (Numeral.sign (d :: ds ++ '-' :: rest)).2 := by
    rw [List.cons_append, hsign]
    exact .tail _ (List.mem_append_right _ (.head _))
  have hafter : (d :: ds ++ '-' :: rest).dropWhile (fun c => c.isDigit || c = '_') =
      '-' :: rest := by
    rw [List.dropWhile_append_of_pos fun c hc => by rw [hdigits c hc, Bool.true_or]]
    rfl
  have hexponent : Numeral.exponent? ('-' :: rest) = none := by simp [Numeral.exponent?]
  have hfloat : groupedFloat? (d :: ds ++ '-' :: rest) = none := by
    rw [List.cons_append] at hafter ⊢
    simp [groupedFloat?, hsign, hafter, hexponent]
  rw [number?, int?, float?, groupedInt?_of_dash hdash, sexagesimal?_of_dash hdash,
    sexagesimal?_of_dash hdash, hfloat, List.cons_append, special?_of_isDigit hd]
  rfl

/-- The long form of an instant begins with no digit. -/
theorem long_ne_of_timestamp? {t u : Instant} (h : timestamp? cs = some t) :
    u.long ≠ .ofList cs := by
  obtain ⟨d, ds, rest, rfl, hdigits⟩ := year_of_timestamp? h
  intro hlong
  have hday : ∀ n, ∃ c more, (Instant.weekdayNames.getD n "").toList ++ [' '] = c :: more ∧
      c.isDigit = false := by
    intro n
    by_cases hn : n < 7
    · interval_cases n <;> exact ⟨_, _, rfl, rfl⟩
    · have hlength : Instant.weekdayNames.length ≤ n := by simpa [Instant.weekdayNames] using hn
      rw [List.getD_eq_getElem?_getD, List.getElem?_eq_none hlength]
      exact ⟨' ', [], rfl, rfl⟩
  obtain ⟨c, more, hc, hdigit⟩ := hday u.parts.weekday
  obtain ⟨tail, htail⟩ : ∃ tail, u.long.toList =
      ((Instant.weekdayNames.getD u.parts.weekday "").toList ++ [' ']) ++ tail :=
    ⟨_, by simp only [Instant.long, String.toList_append, List.append_assoc]; rfl⟩
  rw [hlong, String.toList_ofList, hc] at htail
  have hd := hdigits d (.head _)
  rw [(List.cons.inj htail).1, hdigit] at hd
  cases hd

/-- A plain scalar is the text of its value, except where it respells null, a boolean or a number,
or is an instant. -/
theorem toText_plainValue_iff (version : Version) (cs : List Char) :
    (plainValue version cs).toText = .ofList cs ↔
      cs ∉ respelled version ∧ (∀ x, number? version cs = some x → x.text = .ofList cs) ∧
        instant? version cs = none := by
  by_cases hk : cs ∈ keywords version
  · have hnumber : ∀ cs ∈ keywords version, number? version cs = none := by
      cases version <;> decide
    have hinstant : ∀ cs ∈ keywords version, instant? version cs = none := by
      cases version <;> decide
    have htext : ∀ cs ∈ keywords version,
        (plainValue version cs).toText = .ofList cs ↔ cs ∉ respelled version := by
      cases version <;> decide
    rw [htext cs hk, hnumber cs hk, hinstant cs hk]
    exact (and_iff_left ⟨nofun, rfl⟩).symm
  · have hr : cs ∉ respelled version := fun hr => hk (List.mem_append_right _ hr)
    rw [plainValue_of_not_mem hk]
    cases hn : number? version cs with
    | some x =>
      have hinstant : instant? version cs = none := by
        cases version with
        | v1_2 => rfl
        | v1_1 =>
          refine Option.eq_none_iff_forall_ne_some.2 fun t ht => ?_
          cases hn.symm.trans (number?_of_timestamp? ht)
      refine ⟨fun h => ⟨hr, ?_, hinstant⟩, fun h => h.2.1 x rfl⟩
      rintro _ ⟨⟩
      exact h
    | none =>
      cases ht : instant? version cs with
      | none => exact ⟨fun _ => ⟨hr, nofun, rfl⟩, fun _ => rfl⟩
      | some t =>
        refine ⟨fun h => ?_, fun h => nomatch h.2.2⟩
        cases version with
        | v1_2 => cases ht
        | v1_1 => exact absurd h (long_ne_of_timestamp? ht)

/-! ### Numerals -/

section numerals

variable {y : Numeral} (h : Numeral.read? cs = some y)

include h

theorem not_mem_keywords : cs ∉ keywords .v1_2 := by
  intro hk
  have hread : ∀ cs ∈ keywords .v1_2, (Numeral.read? cs).isNone := by decide
  have hnone := hread cs hk
  rw [h] at hnone
  cases hnone

theorem special?_of_read? : special? cs = none := by
  have hinf : [".inf", ".Inf", ".INF"].any (·.toList = (Numeral.sign cs).2) = false := by
    rw [List.any_eq_false]
    intro name hname he
    simp only [Numeral.read?, ← of_decide_eq_true he] at h
    simp only [List.mem_cons, List.not_mem_nil, or_false] at hname
    rcases hname with rfl | rfl | rfl
    all_goals cases h
  have hnan : [".nan", ".NaN", ".NAN"].any (·.toList = cs) = false := by
    rw [List.any_eq_false]
    intro name hname he
    rw [← of_decide_eq_true he] at h
    simp only [List.mem_cons, List.not_mem_nil, or_false] at hname
    rcases hname with rfl | rfl | rfl
    all_goals cases h
  simp only [special?, hinf, hnan]
  rfl

theorem int?_of_read? : int? .v1_2 cs = if y.isWhole then some y.value else none := by
  rw [int?]
  unfold coreInt?
  split
  · cases h
  · cases h
  · rw [h]
    cases hw : y.isWhole with
    | true | false => simp [Option.filter, hw]

theorem plainValue_of_read? : plainValue .v1_2 cs = .number y.value := by
  have hnumber : number? .v1_2 cs = some y.value := by
    rw [number?, int?_of_read? h, float?, special?_of_read? h, coreFloat?, h]
    cases hw : y.isWhole with
    | true => rfl
    | false => simp [Option.filter, hw]
  rw [plainValue_of_not_mem (not_mem_keywords h), hnumber]
  rfl

end numerals

end Scalar

end Yaml

end Seedbed
