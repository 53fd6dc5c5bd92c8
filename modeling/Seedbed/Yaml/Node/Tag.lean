import Seedbed.Yaml.Lexeme.Class
import Seedbed.Yaml.Scalar.Number
/-! The names of tags, and the directives before a document. A tag is written with a handle, which
stands for the beginning of its name, or as a whole between `!<` and `>`. -/

namespace Seedbed

namespace Yaml

/-- The beginnings of names that handles stand for. -/
abbrev Handles := List (String × String)

def defaultHandles : Handles := [("!!", "tag:yaml.org,2002:")]

/-- The bytes of a text in which a byte may be written as `%` and two hexadecimal digits. -/
def percentBytes : List Char → List UInt8
  | '%' :: a :: b :: rest => (valueOfDigits 16 [a, b]).toUInt8 :: percentBytes rest
  | c :: rest => (String.singleton c).toUTF8.toList ++ percentBytes rest
  | [] => []

def unpercent? (cs : List Char) : Option String :=
  if cs.contains '%' then String.fromUTF8? ⟨(percentBytes cs).toArray⟩ else some (.ofList cs)

/-- Cuts a tag after its last exclamation mark. -/
def cutHandle (cs : List Char) : List Char × List Char :=
  let suffix := (cs.reverse.takeWhile (· ≠ '!')).reverse
  (cs.take (cs.length - suffix.length), suffix)

/-- The name of a tag. The name `!` asks for no other value than the text. -/
def tagName? (handles : Handles) (cs : List Char) : Option String :=
  match cs with
  | ['!'] => some "!"
  | '!' :: '<' :: rest =>
    let name := rest.dropLast
    if rest.getLast? ≠ some '>' || name = ['!'] || name = ['!', '!'] then none
    else some (.ofList name)
  | cs =>
    let (handle, suffix) := cutHandle cs
    if suffix = [] then none
    else
      match (handles.lookup (.ofList handle)).filter (· ≠ "") with
      | some beginning => (unpercent? suffix).map (beginning ++ ·)
      | none => if handle = ['!'] then some (.ofList cs) else none

structure Directives where
  handles : Handles := defaultHandles
  version : Version := .v1_2

/-- A directive before a document. Of the versions that there are two have a meaning here. -/
def Directives.add? (d : Directives) (cs : List Char) : Option Directives :=
  let words := (String.ofList cs).splitToList (fun c => isBlankOrTab c) |>.filter (· ≠ "")
  match words with
  | "%TAG" :: parts =>
    match parts with
    | [handle, beginning] => some { d with handles := (handle, beginning) :: d.handles }
    | _ => none
  | "%YAML" :: parts =>
    match parts with
    | ["1.1"] => some { d with version := .v1_1 }
    | ["1.2"] => some { d with version := .v1_2 }
    | [version] => if isVersion version.toList then some d else none
    | _ => none
  | _ => some d
where
  isVersion (cs : List Char) : Bool :=
    let minor := (cs.dropWhile Char.isDigit).drop 1
    cs.takeWhile Char.isDigit ≠ [] && (cs.dropWhile Char.isDigit).head? = some '.'
      && minor ≠ [] && minor.all Char.isDigit

end Yaml

end Seedbed
