import Seedbed.Binary64.Text
import Seedbed.Value.Json
import Seedbed.Yaml.Linked
/-! The text of a node that is a key but no plain value: its own YAML, in brackets. It is in one
line where that is not too long, and else each entry has a line. -/

namespace Seedbed

attribute [local instance (high)] Zero.ofOfNat0 instPowNat

namespace Yaml

namespace KeyText

/-- The longest line with all entries in it. -/
def lineWidth : Nat := 80

/-- The text of a tag, with the handle of the core schema where it applies. -/
def tag (name : String) : List Char :=
  let core := "tag:yaml.org,2002:".toList
  if core.isPrefixOf name.toList then '!' :: '!' :: name.toList.drop core.length
  else if name.toList.head? = some '!' then name.toList
  else '!' :: '<' :: name.toList ++ ['>']

/-- An anchor and a tag, each with a space after it. The tag `!` of a collection stands for the
tag that is given as its own. -/
def label (l : Label) (own : String := "!") : List Char :=
  let name := l.tag.map fun t => if t = "!" then own else t
  ((l.anchor.map fun a => '&' :: a.toList ++ [' ']).getD [])
    ++ ((name.map fun t => tag t ++ [' ']).getD [])

/-! ### Scalars -/

def hasPair (p : Char → Char → Bool) : List Char → Bool
  | a :: rest@(b :: _) => p a b || hasPair p rest
  | _ => false

def startMarks : List Char :=
  "\n\t ,[]\x7b\x7d#&*!|>'\"%@".toList ++ [Char.ofNat 0x60]

def isPlain (cs : List Char) : Bool :=
  let isSpace (c : Char) : Bool := c = '\n' || c = '\t' || c = ' '
  !cs.any (fun c => isFlowMark' c)
    && !(cs.head?.any startMarks.contains)
    && cs ≠ ['?'] && cs ≠ ['-']
    && !((cs.head? = some '?' || cs.head? = some '-') && (cs[1]?.any fun c => c = ' ' || c = '\t'))
    && !hasPair (fun a b => (a = '\n' || a = ':') && (b = ' ' || b = '\t')) cs
    && !hasPair (fun a b => (a = ' ' || a = '\t') && b = '\n') cs
    && !hasPair (fun a b => isSpace a && b = '#') cs
    && !(cs.getLast?.any fun c => isSpace c || c = ':' || c = '-')
where
  isFlowMark' (c : Char) : Bool := ",[]\x7b\x7d".toList.contains c

def needsEscape (c : Char) : Bool :=
  let n := c.toNat
  n < 0x09 || (0x0B ≤ n && n < 0x20) || (0x7F ≤ n && n < 0xA0)

def escape (c : Char) : List Char :=
  match c with
  | '\x00' => ['\\', '0']
  | '\x07' => ['\\', 'a']
  | '\x0b' => ['\\', 'v']
  | '\x1b' => ['\\', 'e']
  | c =>
    match Json.escape c with
    | '\\' :: 'u' :: _ :: _ :: digits => '\\' :: 'x' :: digits
    | cs => cs

/-- A space before a line break is escaped, too. -/
def doubleQuoted (cs : List Char) : List Char := '"' :: go cs
where
  go : List Char → List Char
    | [] => ['"']
    | ' ' :: '\n' :: rest => '\\' :: ' ' :: '\\' :: 'n' :: go rest
    | c :: rest => escape c ++ go rest

/-- A text whose line breaks are written as such: one more of them each time, and the lines
indented. -/
def withBreaks (indent : Nat) : List Char → List Char
  | [] => []
  | c :: rest =>
    if c = '\n' && rest.head? ≠ some '\n' then
      '\n' :: '\n' :: List.replicate indent ' ' ++ withBreaks indent rest
    else c :: withBreaks indent rest

def singleQuoted (inLine : Bool) (indent : Nat) (cs : List Char) : List Char :=
  let isBlank (c : Char) : Bool := c = ' ' || c = '\t'
  if (inLine && cs.contains '\n')
      || hasPair (fun a b => (isBlank a && b = '\n') || (a = '\n' && isBlank b)) cs then
    doubleQuoted cs
  else
    '\'' :: withBreaks indent (cs.flatMap fun c => if c = '\'' then ['\'', '\''] else [c]) ++ ['\'']

/-- In the quotes that need fewer escapes. -/
def quoted (inLine : Bool) (indent : Nat) (cs : List Char) : List Char :=
  if cs.contains '"' && !cs.contains '\'' then singleQuoted inLine indent cs else doubleQuoted cs

def isText : Value → Bool
  | .text _ => true
  | _ => false

/-- A text in the style that it had, if that can write it. One that is a key without `?` stays in
its line. -/
def text (version : Version) (style : Style) (inLine : Bool) (indent : Nat) (cs : List Char) :
    List Char :=
  if cs.any needsEscape then doubleQuoted cs
  else
    match style with
    | .doubleQuoted => doubleQuoted cs
    | .singleQuoted => singleQuoted inLine indent cs
    | .block => quoted inLine indent cs
    | .plain =>
      let plain := withBreaks indent cs
      if isPlain cs && isText (Scalar.keyValue version plain) && !(inLine && cs.contains '\n') then
        plain
      else quoted inLine indent cs

def exponential (x : Binary64) : List Char :=
  match x with
  | .finite negative p =>
    let d := Binary64.shortest p
    let ds := decimalDigits d.digits
    let e := if d.digits = 0 then 0 else d.exponent + ds.length - 1
    (if negative && p.val ≠ 0 then ['-'] else []) ++ ds.take 1
      ++ (if ds.length ≤ 1 then [] else '.' :: ds.drop 1)
      ++ 'e' :: (if e < 0 then '-' else '+') :: decimalDigits e.natAbs
  | x => x.text.toList

/-- A number in decimal, with the places that its text had. -/
def decimal (x : Binary64) (shown written : List Char) : List Char :=
  if written.any fun c => c = 'e' || c = 'E' then exponential x
  else
    let places := ((Scalar.ungrouped (written.dropWhile (· ≠ '.'))).drop 1).length
    let has := ((shown.dropWhile (· ≠ '.')).drop 1).length
    if (Scalar.ungrouped written).getLast? ≠ some '0' || places = 0 || shown.contains 'e' then shown
    else shown ++ (if shown.contains '.' then [] else ['.']) ++ List.replicate (places - has) '0'

/-- Without zeros and digits at the end that only rounding brings about. -/
def dropNoise : List Char → List Char
  | [] => []
  | c :: rest =>
    if (c :: rest).take 6 = List.replicate 6 '0' && rest.all Char.isDigit then []
    else c :: dropNoise rest

def sexagesimal (negative : Bool) (place : Nat) : List Char :=
  let (n, d) := Binary64.fraction place
  let minutes := n / (60 * d)
  let two (x : Binary64) : List Char :=
    List.replicate (2 - x.text.length) '0' ++ x.text.toList
  let low := two (.ofNat (minutes % 60)) ++ ':' :: two (.ofRatio false (n % (60 * d)) d)
  dropNoise ((if negative && place ≠ 0 then ['-'] else [])
    ++ (if minutes < 60 then low else two (.ofNat (minutes / 60)) ++ ':' :: low))

/-- The base in which an integer is written, with the mark of the base. -/
def base? (version : Version) (written : List Char) : Option (Nat × List Char) :=
  match version, written with
  | _, '0' :: 'x' :: _ => some (16, ['0', 'x'])
  | .v1_2, '0' :: 'o' :: _ => some (8, ['0', 'o'])
  | .v1_1, '0' :: 'b' :: _ => some (2, ['0', 'b'])
  | .v1_1, '0' :: ds@(_ :: _) =>
    if Scalar.isGrouped Scalar.isOctalDigit ds then some (8, ['0']) else none
  | _, _ => none

def number (version : Version) (x : Binary64) (written : List Char) : List Char :=
  match x with
  | .nan => ".nan".toList
  | .infinite negative => (if negative then ['-'] else []) ++ ".inf".toList
  | .finite negative p =>
    let shown := if negative && p.val = 0 then ['-', '0'] else x.text.toList
    match base? version (Numeral.sign written).2, x.toInt? with
    | some (base, mark), some n =>
      (if n < 0 then ['-'] else []) ++ mark ++ Nat.toDigits base n.natAbs
    | _, _ => if written.contains ':' then sexagesimal negative p.val else decimal x shown written

def scalar (version : Version) (inLine : Bool) (indent : Nat) (s : Scalar) : List Char :=
  match s.value with
  | .number x => number version x s.text
  | .text t => text version s.style inLine indent t.toList
  | .symbol name => name.toList
  | .instant t =>
    let iso := t.iso.toList
    let date := iso.take (iso.length - 14)
    if iso.drop date.length = "T00:00:00.000Z".toList then date
    else if iso.drop (iso.length - 5) = ".000Z".toList then iso.take (iso.length - 5)
    else iso
  | _ => s.text

/-! ### Collections -/

/-- Entries in brackets: in one line, or each in a line of its own. -/
def bracketed (opening closing : Char) (indent : Nat) (entries : List (List Char)) : List Char :=
  let lines := entries.zipIdx.map fun (e, i) => if i + 1 < entries.length then e ++ [','] else e
  let width := (lines.map fun l => units16 l + 2).sum + 2
  let spaces (n : Nat) : List Char := List.replicate n ' '
  if lines.isEmpty then [opening, closing]
  else if lineWidth < width || lines.any (·.contains '\n') then
    opening :: lines.flatMap (fun l => '\n' :: spaces (indent + 2) ++ l) ++ '\n' :: spaces indent
      ++ [closing]
  else opening :: ' ' :: [' '].intercalate lines ++ [' ', closing]

def isCollection : Linked → Bool
  | .seq .. | .map .. => true
  | _ => false

/-- A key that needs a `?` before it. -/
def isExplicit : Linked → Bool
  | .scalar _ _ s => s.style = .block
  | _ => true

def pair (key value : Linked) (keyText valueText : List Char) (indent : Nat) : List Char :=
  let spaces (n : Nat) : List Char := List.replicate n ' '
  let before :=
    if isExplicit key then '?' :: ' ' :: keyText ++ '\n' :: spaces indent ++ [':']
    else keyText ++ [':']
  if !isExplicit key && isCollection value && valueText.contains '\n' then
    before ++ '\n' :: spaces (indent + 2) ++ valueText
  else if valueText = [] then before
  else before ++ ' ' :: valueText

def lone (key : Linked) (keyText : List Char) : List Char :=
  if keyText = [] then ['?'] else if isExplicit key then '?' :: ' ' :: keyText else keyText

mutual

def ofLinked (version : Version) (inLine : Bool) (indent : Nat) : Linked → List Char
  | .scalar _ l s => label l ++ scalar version inLine indent s
  | .seq _ l items =>
    label l "tag:yaml.org,2002:seq" ++ bracketed '[' ']' indent (ofItems version (indent + 4) items)
  | .map _ l pairs =>
    label l "tag:yaml.org,2002:map" ++ bracketed '{' '}' indent
      (ofPairs version (pairs.any fun p => p.2.isSome) (indent + 2) pairs)
  | .alias name _ | .dangling name => '*' :: name.toList
termination_by structural l => l

def ofItems (version : Version) (indent : Nat) : List Linked → List (List Char)
  | [] => []
  | item :: rest => ofLinked version false indent item :: ofItems version indent rest
termination_by structural l => l

/-- The entries of a map. Where none has a value, the keys may be in several lines. -/
def ofPairs (version : Version) (inLine : Bool) (indent : Nat) :
    List (Linked × Option Linked) → List (List Char)
  | [] => []
  | (key, value) :: rest =>
    let keyText := ofLinked version (inLine && !isExplicit key) (indent + 2) key
    (match value with
      | some v => pair key v keyText (ofLinked version false (indent + 2) v) indent
      | none => lone key keyText)
      :: ofPairs version inLine indent rest
termination_by structural l => l

end

def ofKey (version : Version) : Linked → List Char
  | .seq n _ items => ofLinked version false 0 (.seq n {} items)
  | .map n _ pairs => ofLinked version false 0 (.map n {} pairs)
  | key => ofLinked version false 0 key

end KeyText

end Yaml

end Seedbed
