import Seedbed.Binary64.Numeral
import Seedbed.Yaml.Scalar.Folded
/-! The text of double-quoted scalars. Lines are folded as in other scalars, and a backslash begins
an escape: a character, a code point in hexadecimal, or nothing at all at the end of a line. -/

namespace Seedbed

namespace Yaml

/-- The characters with an escape of one letter. -/
def escapeOf? : Char → Option Char
  | '0' => some '\x00'
  | 'a' => some '\x07'
  | 'b' => some '\x08'
  | 'e' => some '\x1b'
  | 'f' => some '\x0c'
  | 'n' => some '\n'
  | 'r' => some '\r'
  | 't' => some '\t'
  | 'v' => some '\x0b'
  | 'N' => some '\u0085'
  | '_' => some '\u00a0'
  | 'L' => some '\u2028'
  | 'P' => some '\u2029'
  | ' ' => some ' '
  | '"' => some '"'
  | '/' => some '/'
  | '\\' => some '\\'
  | '\t' => some '\t'
  | _ => none

/-- The hexadecimal digits of a code point after the letter of its escape. -/
def codeDigits : Char → Nat
  | 'x' => 2
  | 'u' => 4
  | 'U' => 8
  | _ => 0

def hexCode? (digits : Nat) (cs : List Char) : Option Nat :=
  let ds := cs.take digits
  if ds.length = digits && ds.all isHexDigit then some (valueOfDigits 16 ds) else none

def isHighSurrogate (n : Nat) : Bool := 0xD800 ≤ n && n < 0xDC00

def isLowSurrogate (n : Nat) : Bool := 0xDC00 ≤ n && n < 0xE000

def lowHalf? : List Char → Option Nat
  | '\\' :: 'u' :: rest => (hexCode? 4 rest).filter isLowSurrogate
  | _ => none

/-- The character with a code point and the length of a second escape that was needed for it.
Half a character is U+FFFD. -/
def charOfCode? (n : Nat) (after : List Char) : Option (Char × Nat) :=
  if isHighSurrogate n then
    match lowHalf? after with
    | some low => some (Char.ofNat (0x10000 + (n - 0xD800) * 1024 + (low - 0xDC00)), 6)
    | none => some ('\uFFFD', 0)
  else if isLowSurrogate n then some ('\uFFFD', 0)
  else if n < 0x110000 then some (Char.ofNat n, 0)
  else none

/-- The line breaks at the beginning, after the first one, and the text after them and the blanks
around them. -/
def moreBreaks : List Char → Nat × List Char
  | [] => (0, [])
  | c :: rest =>
    if c = '\n' then
      let (n, after) := moreBreaks rest
      (n + 1, after)
    else if c = ' ' || c = '\t' || (c = '\r' && rest.head? = some '\n') then moreBreaks rest
    else (0, c :: rest)

def foldBreaks (more : Nat) : List Char := if more = 0 then [' '] else List.replicate more '\n'

theorem moreBreaks_length (cs : List Char) : (moreBreaks cs).2.length ≤ cs.length := by
  induction cs with
  | nil => simp [moreBreaks]
  | cons c rest ih =>
    simp only [moreBreaks]
    split
    · simp only [List.length_cons]; omega
    · split
      · simp only [List.length_cons]; omega
      · simp

def unescape? (cs : List Char) : Option (List Char) :=
  match cs with
  | [] => none
  | [c] => if c = '"' then some [] else none
  | '\\' :: c :: rest =>
    match escapeOf? c with
    | some x =>
      if rest = [] then (if c = '"' then some [x] else none) else (unescape? rest).map (x :: ·)
    | none =>
      if c = '\n' then unescape? (trimStart rest)
      else if c = '\r' then
        if rest.head? = some '\n' then unescape? (trimStart rest.tail) else none
      else if 0 < codeDigits c then
        match hexCode? (codeDigits c) rest with
        | none => none
        | some n =>
          let after := rest.drop (codeDigits c)
          match charOfCode? n after with
          | none => none
          | some (x, more) => (unescape? (after.drop more)).map (x :: ·)
      else none
  | c :: rest =>
    if c = '\n' then (unescape? (moreBreaks rest).2).map (foldBreaks (moreBreaks rest).1 ++ ·)
    else if c = '\r' && rest.head? = some '\n' then unescape? rest
    else if isBlankOrTab c then
      let after := trimStart rest
      if lineBreak after ≠ [] then unescape? after
      else (unescape? after).map (c :: rest.takeWhile isBlankOrTab ++ ·)
    else (unescape? rest).map (c :: ·)
termination_by cs.length
decreasing_by
  all_goals
    have h₁ := trimStart_length rest
    have h₂ := trimStart_length rest.tail
    have h₃ := moreBreaks_length rest
    simp only [List.length_tail] at h₂
    simp only [List.length_cons, List.length_drop]
    omega

def doubleQuotedText? (cs : List Char) : Option (List Char) :=
  match cs with
  | '"' :: rest => unescape? rest
  | _ => none

end Yaml

end Seedbed
