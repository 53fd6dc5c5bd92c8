import Seedbed.Proofs.Binary64.Numeral
import Seedbed.Sql.Insert

/-! The lexemes of a statement by the rules of SQL, apart from how statements are written here. A
quote begins a delimited name; within it two quotes stand for one, and a quote that stands alone
ends it. A text with anything but words, names, parameters, brackets and commas has no lexemes. -/

namespace Seedbed

namespace Sql

inductive Lexeme
  | word (s : String)
  /-- A delimited name, as it is meant. -/
  | name (s : String)
  | parameter (n : Nat)
  | mark (c : Char)
  deriving DecidableEq

/-- The characters of a delimited name from its opening quote on, and what stands after its closing
one. A name that is not closed is none. -/
def name? : List Char → Option (List Char × List Char)
  | [] => none
  | '"' :: '"' :: rest => (name? rest).map fun r => ('"' :: r.1, r.2)
  | '"' :: rest => some ([], rest)
  | c :: rest => (name? rest).map fun r => (c :: r.1, r.2)

theorem name?_length {cs name rest : List Char} (h : name? cs = some (name, rest)) :
    rest.length < cs.length := by
  induction cs using name?.induct generalizing name rest with
  | case1 => simp [name?] at h
  | case2 cs ih =>
    rw [name?] at h
    obtain ⟨r, hr, h⟩ := Option.map_eq_some_iff.1 h
    cases h
    have hlt := ih hr
    simp only [List.length_cons]
    omega
  | case3 cs hne =>
    rw [name?] at h
    · cases h
      simp
    · exact hne
  | case4 c cs h₁ h₂ ih =>
    rw [name?] at h
    · obtain ⟨r, hr, h⟩ := Option.map_eq_some_iff.1 h
      cases h
      have hlt := ih hr
      simp only [List.length_cons]
      omega
    all_goals assumption

def isLetter (c : Char) : Bool := c.isAlpha || c = '_'

def isWordChar (c : Char) : Bool := isLetter c || c.isDigit || c = '$'

def marks : List Char := ['(', ')', ',']

def lexemes? (cs : List Char) : Option (List Lexeme) :=
  match cs with
  | [] => some []
  | c :: rest =>
    if c = '"' then
      match _h : name? rest with
      | none => none
      | some (name, rest) => (lexemes? rest).map (.name (.ofList name) :: ·)
    else if c = '$' then
      let digits := rest.takeWhile Char.isDigit
      if digits = [] then none
      else
        (lexemes? (rest.dropWhile Char.isDigit)).map (.parameter (valueOfDigits 10 digits) :: ·)
    else if isLetter c then
      (lexemes? (rest.dropWhile isWordChar)).map
        (.word (.ofList (c :: rest.takeWhile isWordChar)) :: ·)
    else if c.isWhitespace then lexemes? rest
    else if c ∈ marks then (lexemes? rest).map (.mark c :: ·)
    else none
termination_by cs.length
decreasing_by
  · exact Nat.lt_succ_of_lt (name?_length _h)
  · exact Nat.lt_succ_of_le (List.dropWhile_suffix _).length_le
  · exact Nat.lt_succ_of_le (List.dropWhile_suffix _).length_le
  · exact Nat.lt_succ_self _
  · exact Nat.lt_succ_self _

/-- Two quotes within a name stand for one, and nothing else ends or begins it. -/
example : lexemes? "\"a\"\"(,$1\" \"\"".toList = some [.name "a\"(,$1", .name ""] := by cbv

/-! ### One lexeme and the text after it -/

/-- A text that continues no lexeme before it. -/
def Apart (cs : List Char) : Prop := ∀ c ∈ cs.head?, c = ' ' ∨ c = ',' ∨ c = ')'

theorem apart_nil : Apart [] := by simp [Apart]

theorem apart_cons {c : Char} (cs : List Char) (h : c = ' ' ∨ c = ',' ∨ c = ')') :
    Apart (c :: cs) := by
  simpa [Apart] using h

section rest

variable {rest : List Char}

theorem takeWhile_append_of_apart {p : Char → Bool}
    (hp : p ' ' = false ∧ p ',' = false ∧ p ')' = false) {cs : List Char} (h : ∀ c ∈ cs, p c)
    (hr : Apart rest) :
    (cs ++ rest).takeWhile p = cs ∧ (cs ++ rest).dropWhile p = rest := by
  rw [List.takeWhile_append_of_pos h, List.dropWhile_append_of_pos h]
  cases rest with
  | nil => simp
  | cons c rest =>
    have hc : p c = false := by
      rcases hr c rfl with rfl | rfl | rfl
      · exact hp.1
      · exact hp.2.1
      · exact hp.2.2
    simp [hc]

theorem lexemes?_space : lexemes? (' ' :: rest) = lexemes? rest := by
  rw [lexemes?]
  rfl

theorem lexemes?_mark {c : Char} (h : c ∈ marks) :
    lexemes? (c :: rest) = (lexemes? rest).map (.mark c :: ·) := by
  rw [lexemes?]
  rcases (by simpa [marks] using h : c = '(' ∨ c = ')' ∨ c = ',') with rfl | rfl | rfl <;> rfl

theorem lexemes?_word {c : Char} {cs : List Char} (hc : isLetter c) (h : ∀ c ∈ cs, isWordChar c)
    (hr : Apart rest) :
    lexemes? (c :: (cs ++ rest)) = (lexemes? rest).map (.word (.ofList (c :: cs)) :: ·) := by
  obtain ⟨htake, hdrop⟩ := takeWhile_append_of_apart (p := isWordChar) (by decide) h hr
  have hquote : c ≠ '"' := by
    rintro rfl
    revert hc
    decide
  have hdollar : c ≠ '$' := by
    rintro rfl
    revert hc
    decide
  rw [lexemes?, if_neg hquote, if_neg hdollar, if_pos hc, htake, hdrop]

theorem name?_delimit (name : List Char) (hr : Apart rest) :
    name? (name.flatMap (fun c => if c = '"' then ['"', '"'] else [c]) ++ '"' :: rest) =
      some (name, rest) := by
  induction name with
  | nil =>
    show name? ('"' :: rest) = _
    rw [name?]
    intro rest' heq
    subst heq
    simpa using hr '"' rfl
  | cons c name ih =>
    rw [List.flatMap_cons, List.append_assoc]
    by_cases hc : c = '"'
    · subst hc
      simp [name?, ih]
    · rw [if_neg hc, List.singleton_append, name?, ih]
      · rfl
      all_goals simp [hc]

/-- A delimited name is read as it is meant, whatever characters it has. -/
theorem lexemes?_delimit (name : List Char) (hr : Apart rest) :
    lexemes? (Insert.delimit name ++ rest) =
      (lexemes? rest).map (.name (.ofList name) :: ·) := by
  have hn := name?_delimit name hr
  rw [Insert.delimit, List.append_assoc, List.cons_append, List.singleton_append, lexemes?,
    if_pos rfl]
  split
  · rename_i h
    cases h.symm.trans hn
  · rename_i h
    cases h.symm.trans hn
    rfl

theorem lexemes?_placeholder (n : Nat) (hr : Apart rest) :
    lexemes? ((Insert.placeholder n).toList ++ rest) =
      (lexemes? rest).map (.parameter n :: ·) := by
  obtain ⟨htake, hdrop⟩ :=
    takeWhile_append_of_apart (p := Char.isDigit) (by decide) (digits_decimalDigits n) hr
  have htext : (Insert.placeholder n).toList ++ rest = '$' :: (decimalDigits n ++ rest) := by
    rw [Insert.placeholder, String.toList_append, List.append_assoc]
    exact congrArg (fun cs => '$' :: (cs ++ rest)) Nat.toList_repr
  rw [htext, lexemes?, if_neg (by decide), if_pos rfl]
  simp only [htake, hdrop]
  rw [if_neg (decimalDigits_ne_nil n), valueOfDigits_decimalDigits]

def listed (ls : List Lexeme) : List Lexeme := ls.intersperse (.mark ',')

theorem lexemes?_commaSeparated {α : Type} {text : α → String} {lexeme : α → Lexeme}
    (h : ∀ a rest, Apart rest →
      lexemes? ((text a).toList ++ rest) = (lexemes? rest).map (lexeme a :: ·))
    (as : List α) (hr : Apart rest) :
    lexemes? ((Insert.commaSeparated (as.map text)).toList ++ rest) =
      (lexemes? rest).map (listed (as.map lexeme) ++ ·) := by
  rw [Insert.commaSeparated, String.toList_intercalate, List.map_map]
  induction as with
  | nil => simp [listed]
  | cons a as ih =>
    cases as with
    | nil => simpa [listed] using h a rest hr
    | cons b as =>
      have hsep : ", ".toList = [',', ' '] := rfl
      have htext : ", ".toList.intercalate ((a :: b :: as).map (String.toList ∘ text)) ++ rest =
          (text a).toList ++ ',' :: ' ' ::
            (", ".toList.intercalate ((b :: as).map (String.toList ∘ text)) ++ rest) := by
        simp [List.intercalate_cons_cons, hsep]
      rw [htext, h a _ (apart_cons _ (by simp)), lexemes?_mark (by simp [marks]), lexemes?_space,
        ih]
      simp [listed, Function.comp_def]

end rest

end Sql

end Seedbed
