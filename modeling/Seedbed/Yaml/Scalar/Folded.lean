import Seedbed.Yaml.Lexeme.Class
/-! The text of plain and single-quoted scalars. A line break in them is a space, and more of them
in a row are one line break less; blanks around line breaks do not count. -/

namespace Seedbed

namespace Yaml

def trimStart (cs : List Char) : List Char := cs.dropWhile isBlankOrTab

theorem trimStart_length (cs : List Char) : (trimStart cs).length ≤ cs.length :=
  (List.dropWhile_sublist isBlankOrTab).length_le

def trimEnd (cs : List Char) : List Char :=
  let back := cs.reverse
  let back := if back.head? = some '\r' then back.tail else back
  (back.dropWhile isBlankOrTab).reverse

def foldRest (separator : Char) : List (List Char) → List Char
  | [] => []
  | [last] => separator :: trimStart last
  | line :: rest =>
    match trimEnd (trimStart line) with
    | [] => if separator = '\n' then '\n' :: foldRest '\n' rest else foldRest '\n' rest
    | text => separator :: text ++ foldRest ' ' rest

def foldLines (cs : List Char) : List Char :=
  match cs.splitOn '\n' with
  | first :: rest@(_ :: _) => trimEnd first ++ foldRest ' ' rest
  | _ => cs

def singleQuotes : List Char → List Char
  | '\'' :: '\'' :: rest => '\'' :: singleQuotes rest
  | c :: rest => c :: singleQuotes rest
  | [] => []

def badStarts : List Char := ['\t', ',', '%', '|', '>', '@', Char.ofNat 0x60]

def plainText? (cs : List Char) : Option (List Char) :=
  if cs.head?.any badStarts.contains then none else some (foldLines cs)

def singleQuotedText? (cs : List Char) : Option (List Char) :=
  match cs with
  | '\'' :: rest =>
    if rest.getLast? = some '\'' then some (singleQuotes (foldLines rest.dropLast)) else none
  | _ => none

end Yaml

end Seedbed
