import Seedbed.Yaml.Layout
/-! What stands before a node: an indicator, an anchor, a tag, comments and white space. Only some
orders of them are allowed. -/

namespace Seedbed

attribute [local instance (high)] Zero.ofOfNat0

namespace Yaml

structure Props where
  comma : Bool := false
  found : Option Token := none
  hasComment : Bool := false
  hasNewline : Bool := false
  anchor : Option Token := none
  tag : Option Token := none
  /-- The last line break after an anchor or a tag. -/
  newlineAfter : Option Token := none
  /-- The offset of the first anchor or tag, or else of the node. -/
  start : Nat
  stop : Nat

inductive Following
  | nothing
  | layout (l : Layout)
  | token (t : Token)

namespace Following

/-- The node, or else the first of the tokens after where it would be. -/
def of (l : Option Layout) (ts : List Token) : Following :=
  match l, ts with
  | some l, _ => layout l
  | none, t :: _ => token t
  | none, [] => nothing

def isFlow : Following → Bool
  | layout (.flow ..) => true
  | _ => false

def isBlockCollection : Following → Bool
  | layout l => l.isBlockCollection
  | _ => false

/-- It may stand directly after an anchor or a tag. -/
def needsNoSpace : Following → Bool
  | nothing => true
  | layout (.scalar t _) => t.kind = .text && t.chars = []
  | layout _ => false
  | token t => t.kind = .blank || t.kind = .newline || t.kind = .comma

end Following

structure Props.Site where
  inFlow : Bool := false
  /-- The indicator that may stand here. -/
  indicator : Lexeme.Kind
  next : Following
  offset : Nat
  indent : Nat
  atNewline : Bool

namespace Props

structure Reading where
  atNewline : Bool
  hasSpace : Bool
  /-- An anchor or a tag stands just before. -/
  needsSpace : Bool := false
  /-- A blank with a tab stands just before. -/
  tab : Option Token := none
  comma : Bool := false
  found : Option Token := none
  hasComment : Bool := false
  hasNewline : Bool := false
  anchor : Option Token := none
  tag : Option Token := none
  newlineAfter : Option Token := none
  start : Option Nat := none

/-- A token may follow: white space after an anchor or a tag, and no content after tabs that
begin a line. -/
def Reading.admits (r : Reading) (t : Token) : Bool :=
  (!r.needsSpace || t.kind = .blank || t.kind = .newline || t.kind = .comma)
    && (r.tab.isNone || !r.atNewline || t.kind = .comment || t.kind = .newline)

def Reading.afterProp (r : Reading) (t : Token) : Reading :=
  { r with atNewline := false, hasSpace := false, needsSpace := true,
           start := r.start <|> some t.offset }

def Reading.add? (site : Site) (r : Reading) (t : Token) : Option Reading :=
  if !r.admits t then none
  else
    let r := { r with needsSpace := false, tab := none }
    if t.kind = .blank then
      let counts := !site.inFlow && !(site.indicator = .documentStart && site.next.isFlow)
      some { r with hasSpace := true,
                    tab := if counts && t.chars.contains '\t' then some t else none }
    else if t.kind = .comment then
      if r.hasSpace then some { r with hasComment := true, atNewline := false } else none
    else if t.kind = .newline then
      some { r with
        atNewline := true, hasNewline := true, hasSpace := true
        newlineAfter := if r.anchor.isSome || r.tag.isSome then some t else r.newlineAfter }
    else if t.kind = .anchor then
      if r.anchor.isSome then none else some { r.afterProp t with anchor := some t }
    else if t.kind = .tag then
      if r.tag.isSome then none else some { r.afterProp t with tag := some t }
    else if t.kind = site.indicator then
      if r.anchor.isSome || r.tag.isSome || r.found.isSome then none
      else
        some { r with
          found := some t, hasSpace := false
          atNewline := site.indicator = .dash || site.indicator = .question }
    else if t.kind = .comma && site.inFlow && !r.comma then
      some { r with comma := true, atNewline := false, hasSpace := false }
    else none

def Reading.finishes (site : Site) (r : Reading) : Bool :=
  (!r.needsSpace || site.next.needsNoSpace)
    && !(r.tab.any fun t => (r.atNewline && t.indent ≤ site.indent) || site.next.isBlockCollection)

def read? (site : Site) (ts : List Token) : Option Props := do
  let r ← ts.foldlM (Reading.add? site) { atNewline := site.atNewline, hasSpace := site.atNewline }
  let stop := (ts.getLast?.map Token.stop).getD site.offset
  if r.finishes site then
    some { comma := r.comma, found := r.found, hasComment := r.hasComment, hasNewline := r.hasNewline,
           anchor := r.anchor, tag := r.tag, newlineAfter := r.newlineAfter,
           start := r.start.getD stop, stop }
  else none

end Props

/-- The offset after what stands at the end of a node, if that is only white space and comments.
A comment may need white space before it. -/
def trailStop? (offset : Nat) (needsSpace : Bool) : List Token → Option Nat
  | [] => some offset
  | t :: rest =>
    match t.kind with
    | .blank | .newline => trailStop? (offset + t.length) false rest
    | .comment => if needsSpace then none else trailStop? (offset + t.length) needsSpace rest
    | _ => none

/-- The offset of a node without characters: after the last token that is no white space, and the
blanks that follow it. Nothing but white space before it counts from the end of that. -/
def emptyOffset (offset : Nat) (before : List Token) : Nat :=
  let back := before.reverse.takeWhile Token.isFiller
  if back.length = before.length then offset - (back.map Token.length).sum
  else
    offset - (back.map Token.length).sum
      + ((back.reverse.takeWhile (·.kind = .blank)).map Token.length).sum

end Yaml

end Seedbed
