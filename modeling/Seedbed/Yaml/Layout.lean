import Seedbed.Yaml.Lexeme
/-! The layout of a YAML text: which lexemes stand in which collection, before which key, between
which key and its value. No lexeme is lost. What a layout means, and whether it is allowed, is not
decided here. -/

namespace Seedbed

namespace Yaml

/-- A lexeme at its place: the offset in UTF-16 units and the indentation of its line so far. -/
structure Token where
  kind : Lexeme.Kind
  offset : Nat
  indent : Nat
  chars : List Char
  deriving DecidableEq, Repr

namespace Token

def length (t : Token) : Nat := units16 t.chars

def stop (t : Token) : Nat := t.offset + t.length

def isNewline (t : Token) : Bool := t.kind = .newline

def isFiller (t : Token) : Bool := t.kind = .blank || t.kind = .comment || t.kind = .newline

end Token

def hasKind (kind : Lexeme.Kind) (ts : List Token) : Bool := ts.any (·.kind = kind)

/-- An entry of a collection. An item of a sequence has no key. -/
structure EntryOf (τ : Type) where
  /-- What stands before the key or the item. -/
  start : List Token := []
  /-- A `?` stands before the key. -/
  isExplicit : Bool := false
  key : Option τ := none
  /-- What stands after the key; there only once the key is complete. -/
  sep : Option (List Token) := none
  value : Option τ := none

inductive Layout
  /-- An alias or a scalar within a line, and what stands after it. -/
  | scalar (token : Token) (trail : List Token)
  /-- A block scalar: its header with what follows in the line, and its text. -/
  | block (offset indent : Nat) (header : List Token) (text : List Char)
  | blockMap (offset indent : Nat) (entries : List (EntryOf Layout))
  | blockSeq (offset indent : Nat) (entries : List (EntryOf Layout))
  /-- A collection in brackets, and what stands from the closing bracket on. -/
  | flow (opening : Token) (indent : Nat) (entries : List (EntryOf Layout)) (closing : List Token)

abbrev Entry := EntryOf Layout

namespace Layout

def indent : Layout → Nat
  | scalar t _ => t.indent
  | block _ i _ _ | blockMap _ i _ | blockSeq _ i _ | flow _ i _ _ => i

def isBlockCollection : Layout → Bool
  | blockMap .. | blockSeq .. => true
  | _ => false

def isBlockMap : Layout → Bool
  | blockMap .. => true
  | _ => false

def isBlockSeq : Layout → Bool
  | blockSeq .. => true
  | _ => false

/-- It may stand within a line. -/
def isInline : Layout → Bool
  | scalar .. | flow .. => true
  | _ => false

def trail? : Layout → Option (List Token)
  | scalar _ [] => none
  | scalar _ trail => some trail
  | flow _ _ _ closing => some closing
  | _ => none

def followedBy (ts : List Token) : Layout → Layout
  | scalar t trail => scalar t (trail ++ ts)
  | flow o i es closing => flow o i es (closing ++ ts)
  | l => l

end Layout

inductive Part
  | directive (chars : List Char)
  | document (offset : Nat) (start : List Token) (value : Option Layout) (trail : List Token)
  | documentEnd (trail : List Token)

end Yaml

end Seedbed
