import Seedbed.Binary64
import Seedbed.Instant
import Seedbed.Keyed.Arranged
import Seedbed.Text.Units
/-! Values of fixtures: what a record, a field of it, a column of a row or a query parameter can
be. The fields of a record stand in the order of `arrange`. A collection can stand within itself:
there its place is held by a reference that counts the collections from inside out. -/

namespace Seedbed

inductive Value
  /-- The value of a field that is not set. -/
  | absent
  | null
  | bool (b : Bool)
  | number (x : Binary64)
  /-- A whole number of any size. -/
  | integer (n : Int)
  | text (s : String)
  /-- A mark that is no text and that is the same only as itself. -/
  | symbol (name : String)
  | instant (t : Instant)
  | bytes (bs : List UInt8)
  | list (items : List Value)
  | record (fields : List (String × Value))
  | set (members : List Value)
  | dictionary (entries : List (Value × Value))
  /-- A collection that this stands in, with `up` other ones between them. -/
  | enclosing (up : Nat)
  deriving Inhabited

namespace Value

def ofNat (n : Nat) : Value := .number (.ofNat n)

/-- The record with the given fields written one after the other. -/
def ofFields (fields : List (String × Value)) : Value := .record (fieldsOf fields)

def isAbsent : Value → Bool
  | .absent => true
  | _ => false

mutual

/-- A value with other ones in the place of its references to the collection around it, each chosen
by the number of collections between the value and the reference. -/
def within (outer : Nat → Value) (depth : Nat) : Value → Value
  | .list items => .list (itemsWithin outer (depth + 1) items)
  | .record fields => .record (fieldsWithin outer (depth + 1) fields)
  | .set members => .set (itemsWithin outer (depth + 1) members)
  | .dictionary entries => .dictionary (entriesWithin outer (depth + 1) entries)
  | .enclosing up => if up = depth then outer depth else .enclosing up
  | v => v

def itemsWithin (outer : Nat → Value) (depth : Nat) : List Value → List Value
  | [] => []
  | item :: rest => within outer depth item :: itemsWithin outer depth rest

def fieldsWithin (outer : Nat → Value) (depth : Nat) :
    List (String × Value) → List (String × Value)
  | [] => []
  | (name, v) :: rest => (name, within outer depth v) :: fieldsWithin outer depth rest

def entriesWithin (outer : Nat → Value) (depth : Nat) : List (Value × Value) → List (Value × Value)
  | [] => []
  | (k, v) :: rest =>
    (within outer depth k, within outer depth v) :: entriesWithin outer depth rest

end

/-- The items of a list, each as a value by itself. Where the list stands within an item, it holds a
reference to this item. -/
def itemsOf (items : List Value) : List Value :=
  items.zipIdx.map fun (v, i) =>
    v.within (fun depth => .list (if depth = 0 then items else items.set i (.enclosing depth))) 0

/-- The fields of a record, each with its value by itself. -/
def valuesOf (fields : List (String × Value)) : List (String × Value) :=
  fields.zipIdx.map fun ((name, v), i) =>
    (name, v.within (fun depth =>
      .record (if depth = 0 then fields else fields.set i (name, .enclosing depth))) 0)

/-- The characters of a text under their positions in UTF-16 units, counted from `offset`. -/
def characterFields (offset : Nat) : List Char → List (String × Value)
  | [] => []
  | c :: rest => (toString offset, .text (String.singleton c)) :: characterFields (offset + unitsOf c) rest

/-- Items under their positions. -/
def itemFields (items : List Value) : List (String × Value) :=
  items.zipIdx.map fun (v, i) => (toString i, v)

/-- The fields of a value: those of a record, the items of a list, the bytes of a run of bytes and
the characters of a text under their positions. Numbers, booleans, marks, instants, sets and
dictionaries have none; what is null or absent has not even that. -/
def fields? : Value → Option (List (String × Value))
  | .absent | .null => none
  | .record fields => some (valuesOf fields)
  | .list items => some (itemFields (itemsOf items))
  | .text s => some (characterFields 0 s.toList)
  | .bytes bs => some (itemFields (bs.map fun b => ofNat b.toNat))
  | _ => some []

def length? : Value → Option Nat
  | .list items => some items.length
  | .text s => some (units16 s.toList)
  | .bytes bs => some bs.length
  | _ => none

/-- The value of one field, absent where there is no such field. What has a length shows it under
`length`. Only a null or absent value can not be asked. -/
def field? (v : Value) (name : String) : Option Value :=
  v.fields?.map fun fields =>
    match fields.lookup name, v.length? with
    | some x, _ => x
    | none, some n => if name = "length" then ofNat n else .absent
    | none, none => .absent

end Value

end Seedbed
