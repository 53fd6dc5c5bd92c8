import Seedbed.Yaml.Layout
/-! The text of block scalars. Its lines lose their common indentation; in a folded one a single
line break between two lines that are not indented more is a space. The line breaks at the end are
kept, dropped or all but one dropped. -/

namespace Seedbed

namespace Yaml

/-- What an indicator says about the line breaks at the end. Without one the first is kept. -/
inductive Chomp
  | strip
  | keep
  deriving DecidableEq, Repr

structure BlockHeader where
  folded : Bool
  /-- The indentation that is given, or zero. -/
  indent : Nat := 0
  chomp : Option Chomp := none
  deriving DecidableEq, Repr

namespace BlockHeader

/-- Reads one indicator: at most one for the line breaks and at most one digit from 1 to 9. -/
def add? (h : BlockHeader) (c : Char) : Option BlockHeader :=
  if h.chomp.isNone && c = '-' then some { h with chomp := some .strip }
  else if h.chomp.isNone && c = '+' then some { h with chomp := some .keep }
  else if h.indent = 0 && '1' ≤ c && c ≤ '9' then some { h with indent := c.toNat - '0'.toNat }
  else none

def read? : List Char → Option BlockHeader
  | c :: marks => marks.foldlM add? { folded := c = '>' }
  | [] => none

end BlockHeader

structure BlockLine where
  spaces : Nat
  content : List Char
  deriving DecidableEq, Repr

namespace BlockLine

def of (cs : List Char) : BlockLine :=
  let content := cs.dropWhile (· = ' ')
  ⟨cs.length - content.length, content⟩

/-- Without content, a carriage return apart. -/
def isBlank (l : BlockLine) : Bool := l.content = [] || l.content = ['\r']

def text (l : BlockLine) : List Char :=
  if l.content.getLast? = some '\r' then l.content.dropLast else l.content

def extra (indent : Nat) (l : BlockLine) : List Char := List.replicate (l.spaces - indent) ' '

end BlockLine

namespace BlockText

inductive Separator
  | none
  | space
  | newline

def literal (indent : Nat) (lines : List BlockLine) : List Char :=
  ['\n'].intercalate (lines.map fun l => l.extra indent ++ l.text)

/-- The lines of a folded scalar. A line that is indented more, or that begins with a tab, keeps
the line breaks around it. -/
def fold (indent : Nat) (separator : Separator) (wasMore : Bool) : List BlockLine → List Char
  | [] => []
  | l :: rest =>
    if indent < l.spaces || l.text.head? = some '\t' then
      let before : List Char :=
        match separator with
        | .none => []
        | .space => ['\n']
        | .newline => if wasMore then ['\n'] else ['\n', '\n']
      before ++ l.extra indent ++ l.text ++ fold indent .newline true rest
    else if l.text = [] then
      match separator with
      | .newline => '\n' :: fold indent .newline wasMore rest
      | _ => fold indent .newline wasMore rest
    else
      let before : List Char :=
        match separator with
        | .none => []
        | .space => [' ']
        | .newline => ['\n']
      before ++ l.text ++ fold indent .space false rest

/-- The indentation of the lines, from the first one with content; `none` if a blank line before
it has more spaces. -/
def indentOf? (given base : Nat) (leading : List BlockLine) (first : BlockLine) : Option Nat :=
  let widest := leading.foldl (fun n l => max n l.spaces) 0
  let least := if given = 0 then max base widest else base + given
  if first.spaces < least then none
  else some (if given = 0 then first.spaces else least)

def ending (chomp : Option Chomp) (indent : Nat) (body : List Char) (final : List BlockLine) :
    List Char :=
  match chomp with
  | some .strip => body
  | some .keep =>
    let all := body ++ final.flatMap fun l => '\n' :: l.extra indent
    if all.getLast? = some '\n' then all else all ++ ['\n']
  | none => body ++ ['\n']

/-- The text of a block scalar in a part that is indented by `base`. At the root the lines need no
indentation. -/
def value? (h : BlockHeader) (base : Nat) (atRoot : Bool) (cs : List Char) : Option (List Char) :=
  let lines := if cs = [] then [] else (cs.splitOn '\n').map BlockLine.of
  let leading := lines.takeWhile BlockLine.isBlank
  match lines.dropWhile BlockLine.isBlank with
  | [] =>
    some (if h.chomp = some .keep && !lines.isEmpty then
      List.replicate (max 1 (lines.length - 1)) '\n' else [])
  | first :: more =>
    match indentOf? h.indent base leading first with
    | none => none
    | some indent =>
      let final := (first :: more).reverse.takeWhile BlockLine.isBlank
      -- blank lines at the end that are indented more belong to the content
      let dropped := (final.takeWhile (·.spaces ≤ indent)).length
      let kept := (first :: more).length - dropped
      let content := (first :: more).take kept
      if indent = 0 && !atRoot then none
      else if content.any fun l => l.text ≠ [] && l.spaces < indent then none
      else
        let before := leading.flatMap fun l => l.extra indent ++ ['\n']
        let body := before ++
          if h.folded then fold indent .none false content else literal indent content
        some (ending h.chomp indent body ((first :: more).drop kept))

end BlockText

end Yaml

end Seedbed
