import Seedbed.Yaml.Lexeme.Class
/-! How far the text of a scalar reaches. A scalar goes on over a line break as long as the next
line is indented enough; `least` is the least indentation for that. -/

namespace Seedbed

namespace Yaml

/-- A scalar goes on at the line that begins here: the line is indented enough or blank or, where
no indentation is asked for, it is no document mark. -/
def continues (least : Nat) (line : List Char) : Bool :=
  if 0 < least then
    let rest := line.dropWhile (· = ' ')
    lineBreak rest ≠ [] || least ≤ line.length - rest.length
  else !atDocumentMark line

/-- The length of a plain scalar. `read` characters of it are read, and the last of them that is
no separator is the one at `len`. -/
def plainLength (least : Nat) (inFlow : Bool) (read len : Nat) : List Char → Nat
  | [] => len
  | ':' :: rest =>
    if isEmpty rest.head? || (inFlow && isFlowMark rest.head?) then len
    else plainLength least inFlow (read + 1) (read + 1) rest
  | '\r' :: '\n' :: rest =>
    if rest.head? = some '#' || (inFlow && isFlowMark rest.head?) || !continues least rest then len
    else plainLength least inFlow (read + 2) len rest
  | c :: rest =>
    if isEmpty (some c) then
      let len := if c = '\r' then read + 1 else len
      if rest.head? = some '#' || (inFlow && isFlowMark rest.head?) then len
      else if c = '\n' && !continues least rest then len
      else plainLength least inFlow (read + 1) len rest
    else if inFlow && isFlowMark (some c) then len
    else plainLength least inFlow (read + 1) (read + 1) rest

/-- The characters of a single-quoted scalar after its opening quote, up to the closing one. A
quote written twice does not close it. -/
def singleQuoted? : List Char → Option Nat
  | [] => none
  | '\'' :: '\'' :: rest => (singleQuoted? rest).map (· + 2)
  | '\'' :: _ => some 1
  | _ :: rest => (singleQuoted? rest).map (· + 1)

/-- The characters of a double-quoted scalar after its opening quote, up to the closing one. A
quote after a backslash does not close it. -/
def doubleQuoted? : List Char → Option Nat
  | [] => none
  | '\\' :: _ :: rest => (doubleQuoted? rest).map (· + 2)
  | '"' :: _ => some 1
  | _ :: rest => (doubleQuoted? rest).map (· + 1)

/-- The characters before the first line break, of the given number of characters, after which a
scalar does not go on. -/
def brokenAt? (least : Nat) : Nat → List Char → Option Nat
  | 0, _ | _, [] => none
  | n + 1, c :: rest =>
    if c = '\n' && !continues least rest then some 0
    else if lineBreak (c :: rest) = ['\r', '\n'] && n ≠ 0 && !continues least rest.tail then some 0
    else (brokenAt? least n rest).map (· + 1)

/-- The length of a quoted scalar, with its quotes. One that is not closed reaches to the end of
the text, and one that does not go on at the next line to the end of its line. -/
def quotedLength (least : Nat) : List Char → Nat
  | [] => 0
  | q :: rest =>
    match if q = '\'' then singleQuoted? rest else doubleQuoted? rest with
    | none => rest.length + 1
    | some n => ((brokenAt? least (n - 1) rest).getD n) + 1

/-- What a block scalar begins with: the characters up to the line with its first character, and
the indentation of that line. `read` characters are read, `indent` of them in the last line. -/
def blockLead (read indent n : Nat) : List Char → Nat × Nat
  | ' ' :: rest => blockLead (read + 1) (indent + 1) n rest
  | '\n' :: rest => blockLead (read + 1) 0 (read + 1) rest
  | '\r' :: '\n' :: rest => blockLead (read + 2) 0 (read + 2) rest
  | _ => (n, indent)

/-- The number of characters of the lines that belong to a block scalar, from the beginning of a
line. The last line may lack its line break; it counts as if it had one. -/
def blockLines (least : Nat) : Nat → List Char → Nat
  | 0, _ => 0
  | fuel + 1, cs =>
    if !continues least cs then 0
    else
      let line := cs.takeWhile (· ≠ '\n')
      match cs.drop line.length with
      | [] => line.length + 1
      | _ :: rest => line.length + 1 + blockLines least fuel rest

/-- A place in the last lines of a block scalar, read backwards. -/
inductive TailState
  | lineEnd
  | blanks (n : Nat)

/-- The characters of the last lines of a block scalar that are dropped: those that are blank and
not indented more than the first line. The text stands backwards, without its last line break. -/
def blockTail (indent : Nat) (state : TailState) (read dropped : Nat) : List Char → Nat
  | [] => dropped
  | c :: rest =>
    let spaces := match state with
      | .lineEnd => 0
      | .blanks n => n
    if c = ' ' then blockTail indent (.blanks (spaces + 1)) (read + 1) dropped rest
    else if c = '\n' && spaces ≤ indent then
      blockTail indent .lineEnd (read + 1) (read + 1) rest
    else
      match c, state with
      | '\r', .lineEnd => blockTail indent (.blanks 0) (read + 1) dropped rest
      | _, _ => dropped

/-- The length of the text of a block scalar and the least indentation of its lines. Its header
gives the digit of its indentation, if there is one, and whether its last lines are kept. -/
def blockLength (least : Nat) (digit : Option Nat) (keep : Bool) (cs : List Char) : Nat × Nat :=
  let (lead, indent) := blockLead 0 0 0 cs
  let (n, least) :=
    if indent < least then (lead, least)
    else
      let least := match digit with
        | none => indent
        | some d => d - 1 + (if least = 0 then 1 else least)
      (lead + blockLines least (cs.length + 1) (cs.drop lead), least)
  let after := (cs.drop n).dropWhile (· = ' ')
  if after.head? = some '\t' then
    let rest := after.dropWhile fun c => isEmpty (some c)
    (cs.length - rest.length, least)
  else if keep || n = 0 then (n, least)
  else (n - blockTail indent .lineEnd 0 0 (cs.take (n - 1)).reverse, least)

end Yaml

end Seedbed
