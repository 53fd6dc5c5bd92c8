import Seedbed.Yaml.Lexeme
import Seedbed.Yaml.Lexeme.Scalar
/-! The lexemes of a YAML text. The scan is in one of four modes, and each step of it emits the
lexemes of a line or a part of one. It ends without an answer where the text can not be YAML. -/

namespace Seedbed

namespace Yaml

inductive Mode
  | stream
  /-- Before a `-`, `?` or `:` that may begin a block, or else within a document. -/
  | blockStart
  | document
  | flow
  deriving DecidableEq, Repr

structure Scan where
  rest : List Char
  emitted : List Lexeme := []
  indent : Nat := 0
  /-- The least indentation of a line that goes on with what is open. -/
  least : Nat := 0
  depth : Nat := 0
  /-- What stands before is a key for which a `:` needs no separator after it. -/
  keyDone : Bool := false

abbrev Scanner := StateT Scan Option

namespace Scan

def emitAs (kind : Lexeme.Kind) (n : Nat) : Scanner Unit :=
  modify fun s => { s with rest := s.rest.drop n, emitted := ⟨kind, s.rest.take n⟩ :: s.emitted }

def emit (n : Nat) : Scanner Unit := do
  match (← get).rest.take n with
  | [] => return
  | cs =>
    let kind ← (Lexeme.Kind.of? cs : Option Lexeme.Kind)
    emitAs kind n

def emitRun (p : Char → Bool) : Scanner Nat := do
  let n := ((← get).rest.takeWhile p).length
  emit n
  return n

def emitSpaces : Scanner Nat := emitRun (· = ' ')

def emitBlanks : Scanner Unit := discard (emitRun isBlankOrTab)

def emitLineBreak : Scanner Unit := do emit (lineBreak (← get).rest).length

def emitRestOfLine : Scanner Unit := do emit (restOfLine (← get).rest).length

def peek (n : Nat) : Scanner (Option Char) := return (← get).rest[n]?

def tagLength : List Char → Nat
  | '!' :: '<' :: rest =>
    let name := rest.takeWhile fun c => c ≠ '>' && !isEmpty (some c)
    name.length + 2 + if (rest.drop name.length).head? = some '>' then 1 else 0
  | _ :: rest => go rest + 1
  | [] => 0
where
  isHex (c : Char) : Bool := c.isDigit || ('a' ≤ c && c ≤ 'f') || ('A' ≤ c && c ≤ 'F')
  go : List Char → Nat
    | '%' :: a :: b :: rest => if isHex a && isHex b then go rest + 3 else 0
    | c :: rest => if isTagChar c then go rest + 1 else 0
    | [] => 0

/-- Emits tags, anchors and the indicators `-`, `?` and `:`, with the blanks after each. -/
def emitIndicators : Nat → Scanner Unit
  | 0 => return
  | fuel + 1 => do
    match ← peek 0 with
    | some '!' =>
      emit (tagLength (← get).rest)
      emitBlanks
      emitIndicators fuel
    | some '&' =>
      emit ((((← get).rest.drop 1).takeWhile isAnchorChar).length + 1)
      emitBlanks
      emitIndicators fuel
    | some c =>
      let next ← peek 1
      let inFlow := 0 < (← get).depth
      if (c = '-' || c = '?' || c = ':') && (isEmpty next || (inFlow && isFlowMark next)) then
        modify fun s => if inFlow then { s with keyDone := false } else { s with least := s.indent + 1 }
        emit 1
        emitBlanks
        emitIndicators fuel
    | none => return

def lineStart : Scanner Mode := do
  let rest := (← get).rest
  if atDocumentMark rest then
    emit 3
    modify fun s => { s with indent := 0, least := 0 }
    return if rest.head? = some '-' then .document else .stream
  else
    let n ← emitSpaces
    let next ← peek 1
    modify fun s =>
      { s with indent := n, least := if n < s.least && !isEmpty next then n else s.least }
    return .blockStart

def blockStart : Scanner Mode := do
  let first ← peek 0
  if (first = some '-' || first = some '?' || first = some ':') && isEmpty (← peek 1) then
    emit 1
    let n ← emitRun isBlankOrTab
    modify fun s => { s with least := s.indent + 1, indent := s.indent + 1 + n }
    return .blockStart
  else
    return .document

/-- The indicators of the header of a block scalar: the last digit and whether there is a `+`. -/
def headerMarks : List Char → Option Nat × Bool
  | [] => (none, false)
  | c :: rest =>
    let (digit, keep) := headerMarks rest
    if c = '+' then (digit, true)
    else if '1' ≤ c && c ≤ '9' then (digit <|> some (c.toNat - '0'.toNat), keep)
    else if c = '-' then (digit, keep)
    else (none, false)

def blockScalar : Scanner Mode := do
  let (digit, keep) := headerMarks ((← get).rest.drop 1)
  discard (emitRun fun c => !isEmpty (some c) && c ≠ '#')
  emitBlanks
  emitRestOfLine
  emitLineBreak
  let s ← get
  let (n, least) := blockLength s.least digit keep s.rest
  set { s with least }
  emitAs .text n
  lineStart

def plainScalar : Scanner Unit := do
  let s ← get
  emitAs .text (plainLength s.least (0 < s.depth) 0 0 s.rest)

def quotedScalar : Scanner Unit := do
  let s ← get
  emit (quotedLength s.least s.rest)

def aliasName : Scanner Unit := do
  emit ((((← get).rest.drop 1).takeWhile isAnchorChar).length + 1)

/-- The end of a directive: before a comment that a blank precedes. -/
def directiveLength (line : List Char) : Nat :=
  go 0 0 false line
where
  /-- `kept` is the length without final blanks. -/
  go (read kept : Nat) (blankBefore : Bool) : List Char → Nat
    | [] => kept
    | '#' :: rest =>
      if blankBefore then kept else go (read + 1) (read + 1) false rest
    | c :: rest =>
      if isBlankOrTab c then go (read + 1) kept true rest else go (read + 1) (read + 1) false rest

def inStream : Scanner Mode := do
  if (← peek 0) = some '\uFEFF' then emit 1
  let rest := (← get).rest
  if rest.head? = some '%' then
    emit (directiveLength (restOfLine rest))
    emitBlanks
    emitRestOfLine
    return .stream
  let line := rest.dropWhile isBlankOrTab
  if line = [] || line.head? = some '#' || lineBreak line ≠ [] then
    emitBlanks
    emitRestOfLine
    emitLineBreak
    return .stream
  modify fun s => { s with emitted := ⟨.document, []⟩ :: s.emitted }
  lineStart

def isLineEnd (rest : List Char) : Bool := rest = [] || lineBreak rest ≠ []

def inDocument : Scanner Mode := do
  emitBlanks
  emitIndicators (← get).rest.length
  let rest := (← get).rest
  if isLineEnd rest then
    emitLineBreak
    lineStart
  else
    match rest.head? with
    | some '#' =>
      emitRestOfLine
      emitLineBreak
      lineStart
    | some '{' | some '[' =>
      emit 1
      modify fun s => { s with keyDone := false, depth := 1 }
      return .flow
    | some '}' | some ']' =>
      emit 1
      return .document
    | some '*' =>
      aliasName
      return .document
    | some '"' | some '\'' =>
      quotedScalar
      return .document
    | some '|' | some '>' => blockScalar
    | _ =>
      plainScalar
      return .document

/-- Emits line breaks and blanks. The answer is the indentation of the last line, if there was a
line break. -/
def emitLines : Nat → Option Nat → Scanner (Option Nat)
  | 0, indent => return indent
  | fuel + 1, indent => do
    let before := (← get).rest
    emitLineBreak
    if lineBreak before ≠ [] then
      let n ← emitSpaces
      modify fun s => { s with indent := n }
      emitBlanks
      emitLines fuel (some n)
    else
      emitBlanks
      if (← get).rest.length < before.length then emitLines fuel indent else return indent

def emitCommas : Nat → Scanner Unit
  | 0 => return
  | fuel + 1 => do
    if (← peek 0) = some ',' then
      emit 1
      emitBlanks
      modify fun s => { s with keyDone := false }
      emitCommas fuel

/-- The line ends the brackets before they are closed: it is not indented enough or a document
mark. The last closing bracket may stand just where the line with the first opening one is. -/
def breaksFlow (s : Scan) (indent : Option Nat) : Bool :=
  match indent with
  | none => false
  | some n =>
    let closes := n + 1 = s.least && s.depth = 1
      && (s.rest.head? = some ']' || s.rest.head? = some '}')
    ((n < s.least && s.rest.head? ≠ some '#') || (n = 0 && atDocumentMark s.rest)) && !closes

def inFlow : Scanner Mode := do
  let indent ← emitLines ((← get).rest.length + 1) none
  if breaksFlow (← get) indent then
    modify fun s => { s with depth := 0, emitted := ⟨.flowEnd, []⟩ :: s.emitted }
    return ← lineStart
  emitCommas (← get).rest.length
  emitIndicators (← get).rest.length
  let rest := (← get).rest
  if isLineEnd rest then return .flow
  match rest.head? with
  | some '#' =>
    emitRestOfLine
    return .flow
  | some '{' | some '[' =>
    emit 1
    modify fun s => { s with keyDone := false, depth := s.depth + 1 }
    return .flow
  | some '}' | some ']' =>
    emit 1
    modify fun s => { s with keyDone := true, depth := s.depth - 1 }
    return if 0 < (← get).depth then .flow else .document
  | some '*' =>
    aliasName
    return .flow
  | some '"' | some '\'' =>
    modify fun s => { s with keyDone := true }
    quotedScalar
    return .flow
  | first =>
    let next ← peek 1
    let colon := first = some ':' && ((← get).keyDone || isEmpty next || next = some ',')
    modify fun s => { s with keyDone := false }
    if colon then
      emit 1
      emitBlanks
    else
      plainScalar
    return .flow

def step : Mode → Scanner Mode
  | .stream => inStream
  | .blockStart => blockStart
  | .document => inDocument
  | .flow => inFlow

def run : Nat → Mode → Scanner Unit
  | 0, _ => failure
  | fuel + 1, mode => do
    if (← get).rest = [] then return
    run fuel (← step mode)

end Scan

/-- The lexemes of a text. Each character takes at most three steps: two that change the mode and
one that reads it. -/
def lexemes? (cs : List Char) : Option (List Lexeme) := do
  let ((), s) ← (Scan.run (3 * cs.length + 3) .stream).run { rest := cs }
  return s.emitted.reverse

end Yaml

end Seedbed
