/-! Circles of collections: a collection, one in it, and so on, until the first one stands in the
last one. -/

namespace Seedbed

inductive Place
  | item (i : Nat)
  | field (name : String)
  deriving DecidableEq, Repr

def Place.text : Place → String
  | item i => s!"index {i}"
  | field "" => "<anonymous>"
  | field name => "property '" ++ name ++ "'"

/-- A collection of a circle and the place in it of the next one. -/
structure Link where
  isList : Bool
  next : Place
  deriving DecidableEq, Repr

def Link.kind (l : Link) : String :=
  "object with constructor '" ++ (if l.isList then "Array" else "Object") ++ "'"

abbrev Circle := List Link

namespace Circle

/-- One line for each collection after the first. Of many only the first two and the last one are
shown. -/
def lines (c : Circle) : List String :=
  let all := (c.zip c.tail).map fun (l, inner) => l.next.text ++ " -> " ++ inner.kind
  if all.length ≤ 3 then all else all.take 2 ++ "..." :: all.drop (all.length - 1)

def text (c : Circle) : String :=
  let first := c.head?.map fun l => "\n    --> starting at " ++ l.kind
  let last := c.getLast?.map fun l => "\n    --- " ++ l.next.text ++ " closes the circle"
  String.join (first.toList ++ c.lines.map ("\n    |     " ++ ·) ++ last.toList)

example : text [⟨false, .field "b"⟩, ⟨true, .item 2⟩] =
    "\n    --> starting at object with constructor 'Object'" ++
    "\n    |     property 'b' -> object with constructor 'Array'" ++
    "\n    --- index 2 closes the circle" := by decide +kernel

end Circle

end Seedbed
