import Seedbed.Text.Blank
import Seedbed.Text.Units
/-! Embedded tags, written

    ${{ DIRECTIVE ( KEY ) }}    or    ${{ DIRECTIVE ( KEY :- DEFAULT ) }}

with blanks allowed around every token. A directive is of ASCII letters and digits, a key of these,
`_` and `-`, and a default is of letters and digits or is quoted; it keeps its quotes. Whatever does
not match as a whole is no tag. -/

namespace Seedbed

structure Tag where
  directive : String
  key : String
  fallback : Option String := none
  deriving DecidableEq, Repr, Inhabited

namespace Tag

def opening : List Char := ['$', '{', '{']

def closing : List Char := ['}', '}']

def isWordChar (c : Char) : Bool := c.isAlphanum

def isKeyChar (c : Char) : Bool := c.isAlphanum || c == '_' || c == '-'

/-- What may stand between the quotes of a default: no quote and no control character. -/
def isQuotedChar (c : Char) : Bool := c != '"' && 0x20 ≤ c.toNat && c.toNat != 0x7F

def after? : List Char → List Char → Option (List Char)
  | [], cs => some cs
  | _ :: _, [] => none
  | x :: xs, c :: cs => if x = c then after? xs cs else none

/-- The longest run of characters of a class at the beginning, which must not be empty, and the
text after it. -/
def run? (p : Char → Bool) (cs : List Char) : Option (List Char × List Char) :=
  match cs.takeWhile p with
  | [] => none
  | word => some (word, cs.dropWhile p)

/-- A default as it is written, and the text after it. -/
def default? (cs : List Char) : Option (List Char × List Char) :=
  match cs with
  | '"' :: rest => do
    let (inner, rest) ← run? isQuotedChar rest
    let rest ← after? ['"'] rest
    return ('"' :: inner ++ ['"'], rest)
  | cs => run? isWordChar cs

/-- A default with the `:-` before it, if the latter is there, and the text after it. -/
def fallback? (cs : List Char) : Option (Option (List Char) × List Char) :=
  match after? [':', '-'] (skipBlank cs) with
  | none => some (none, cs)
  | some rest => (default? (skipBlank rest)).map fun (d, rest) => (some d, rest)

def read? (cs : List Char) : Option (Tag × List Char) := do
  let cs ← after? opening cs
  let (directive, cs) ← run? isWordChar (skipBlank cs)
  let cs ← after? ['('] (skipBlank cs)
  let (key, cs) ← run? isKeyChar (skipBlank cs)
  let (fallback, cs) ← fallback? cs
  let cs ← after? [')'] (skipBlank cs)
  let cs ← after? closing (skipBlank cs)
  return (⟨.ofList directive, .ofList key, fallback.map .ofList⟩, cs)

theorem after?_length {xs cs rest : List Char} (h : after? xs cs = some rest) :
    rest.length + xs.length = cs.length := by
  induction xs generalizing cs with
  | nil => simp_all [after?]
  | cons x xs ih =>
    cases cs with
    | nil => simp [after?] at h
    | cons c cs =>
      simp only [after?] at h
      split at h
      · have := ih h
        simp only [List.length_cons]
        omega
      · simp at h

theorem run?_length {p : Char → Bool} {cs word rest : List Char}
    (h : run? p cs = some (word, rest)) : word.length + rest.length = cs.length := by
  have e := congrArg List.length (List.takeWhile_append_dropWhile (p := p) (l := cs))
  unfold run? at h
  split at h
  · simp at h
  · obtain ⟨rfl, rfl⟩ := by simpa using h
    rw [← List.length_append, e]

theorem default?_length {cs word rest : List Char} (h : default? cs = some (word, rest)) :
    rest.length ≤ cs.length := by
  unfold default? at h
  split at h
  · rename_i tail
    cases hr : run? isQuotedChar tail with
    | none => simp [hr] at h
    | some p =>
      cases ha : after? ['"'] p.2 with
      | none => simp [hr, ha] at h
      | some r =>
        have h1 := run?_length hr
        have h2 := after?_length ha
        simp only [hr, ha, Option.bind_eq_bind, Option.bind_some, Option.pure_def, Option.some.injEq,
          Prod.mk.injEq] at h
        obtain ⟨-, rfl⟩ := h
        simp only [List.length_cons, List.length_nil] at h2 ⊢
        omega
  · have := run?_length h
    omega

theorem fallback?_length {cs rest : List Char} {d : Option (List Char)}
    (h : fallback? cs = some (d, rest)) : rest.length ≤ cs.length := by
  unfold fallback? at h
  split at h
  · simp_all
  · rename_i tail ha
    obtain ⟨⟨w, r⟩, hw, e⟩ := Option.map_eq_some_iff.1 h
    have h1 := after?_length ha
    have h2 := default?_length hw
    have h3 := skipBlank_length_le cs
    have h4 := skipBlank_length_le tail
    simp only [Prod.mk.injEq] at e
    obtain ⟨-, rfl⟩ := e
    omega

theorem read?_length {cs rest : List Char} {t : Tag} (h : read? cs = some (t, rest)) :
    rest.length < cs.length := by
  unfold read? at h
  simp only [Option.bind_eq_bind, Option.bind_eq_some_iff, Option.pure_def, Option.some.injEq,
    Prod.mk.injEq] at h
  obtain ⟨a, h1, b, h2, c, h3, d, h4, e, h5, f, h6, g, h7, -, rfl⟩ := h
  have h1 := after?_length h1
  have h2 := run?_length h2
  have h3 := after?_length h3
  have h4 := run?_length h4
  have h5 := fallback?_length h5
  have h6 := after?_length h6
  have h7 := after?_length h7
  have s1 := skipBlank_length_le a
  have s2 := skipBlank_length_le b.2
  have s3 := skipBlank_length_le c
  have s4 := skipBlank_length_le e.2
  have s5 := skipBlank_length_le f
  simp only [opening, closing, List.length_cons, List.length_nil] at *
  omega

end Tag

end Seedbed
