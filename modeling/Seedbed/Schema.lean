import Seedbed.Value
import Seedbed.Binary64.Text
/-! Schemas of records. A value that meets its schema is given back as the schema has it: with
defaults where it is absent and, unless the schema says otherwise, without fields that the schema
does not name. All that is wrong with a value is reported. -/

namespace Seedbed

/-- What happens to fields that a schema does not name. -/
inductive Unknown
  | dropped
  | kept
  | refused
  deriving DecidableEq, Repr

inductive Schema
  | text (min max : Option Nat)
  | number (whole : Bool) (min max : Option Binary64)
  | bool
  | any
  | oneOf (values : List String)
  | list (items : Schema)
  | record (fields : List (String × Schema)) (unknown : Unknown)
  | orNull (inner : Schema)
  | orAbsent (inner : Schema)
  | withDefault (inner : Schema) (value : Value)

namespace Schema

inductive Problem
  | missing
  | wrongKind (expected received : String)
  | notAnOption (options : List String) (received : String)
  | fractional
  | tooShort (min : Nat)
  | tooLong (max : Nat)
  | tooSmall (min : Binary64)
  | tooLarge (max : Binary64)
  | unknownFields (names : List String)

def options (values : List String) : String :=
  " | ".intercalate (values.map fun v => "'" ++ v ++ "'")

def Problem.message : Problem → String
  | missing => "Required"
  | wrongKind expected received => s!"Expected {expected}, received {received}"
  | notAnOption values received =>
    "Invalid enum value. Expected " ++ options values ++ ", received '" ++ received ++ "'"
  | fractional => "Expected integer, received float"
  | tooShort n => s!"String must contain at least {n} character(s)"
  | tooLong n => s!"String must contain at most {n} character(s)"
  | tooSmall x => "Number must be greater than or equal to " ++ x.text
  | tooLarge x => "Number must be less than or equal to " ++ x.text
  | unknownFields names =>
    "Unrecognized key(s) in object: " ++ ", ".intercalate (names.map fun n => "'" ++ n ++ "'")

/-- A problem and the fields and positions that lead to it. -/
structure Issue where
  path : List String
  problem : Problem

def kindOf : Value → String
  | .absent => "undefined"
  | .null => "null"
  | .bool _ => "boolean"
  | .number .nan => "nan"
  | .number _ => "number"
  | .integer _ => "bigint"
  | .text _ => "string"
  | .symbol _ => "symbol"
  | .instant _ => "date"
  | .list _ => "array"
  | .set _ => "set"
  | .dictionary _ => "map"
  | .bytes _ | .record _ | .enclosing _ => "object"

/-- A value of another kind than expected. -/
def mismatch (path : List String) (expected : String) (v : Value) : List Issue :=
  [⟨path, match v with
    | .absent => .missing
    | v => .wrongKind expected (kindOf v)⟩]

def demand (ok : Bool) (path : List String) (problem : Problem) : List Issue :=
  if ok then [] else [⟨path, problem⟩]

def textIssues (path : List String) (min max : Option Nat) (s : String) : List Issue :=
  let n := units16 s.toList
  (min.map fun m => demand (m ≤ n) path (.tooShort m)).getD []
    ++ (max.map fun m => demand (n ≤ m) path (.tooLong m)).getD []

def numberIssues (path : List String) (whole : Bool) (min max : Option Binary64) (x : Binary64) :
    List Issue :=
  demand (!whole || x.toInt?.isSome) path .fractional
    ++ (min.map fun m => demand (m.atMost x) path (.tooSmall m)).getD []
    ++ (max.map fun m => demand (x.atMost m) path (.tooLarge m)).getD []

/-- What is left of a value, or all that is wrong with it. -/
abbrev Checked (α : Type) := Except (List Issue) α

/-- The value, if there are no issues. -/
def checked {α : Type} (issues : List Issue) (a : α) : Checked α :=
  if issues.isEmpty then .ok a else .error issues

def both {α β : Type} (a : Checked α) (b : Checked β) : Checked (α × β) :=
  match a, b with
  | .ok a, .ok b => .ok (a, b)
  | .error i, .error j => .error (i ++ j)
  | .error i, .ok _ => .error i
  | .ok _, .error j => .error j

def all {α : Type} : List (Checked α) → Checked (List α)
  | [] => .ok []
  | a :: rest => (both a (all rest)).map fun p => p.1 :: p.2

/-- A name that no field of a checked record has. -/
def reservedName : String := "__proto__"

/-- A field of a checked record. One that is absent and was not there before is left out. -/
def keptField (fields : List (String × Value)) (name : String) (v : Value) : List (String × Value) :=
  if name = reservedName || (v.isAbsent && (fields.lookup name).isNone) then [] else [(name, v)]

def unnamed (names : List String) (fields : List (String × Value)) : List (String × Value) :=
  fields.filter fun f => !names.contains f.1

def checkUnnamed (path : List String) (unknown : Unknown) (extra : List (String × Value)) :
    Checked (List (String × Value)) :=
  match unknown with
  | .dropped => .ok []
  | .kept => .ok (extra.filter fun f => f.1 ≠ reservedName)
  | .refused => checked (demand extra.isEmpty path (.unknownFields (extra.map (·.1)))) []

/-- The fields of a value that is taken for a record. -/
def recordFields? : Value → Option (List (String × Value))
  | .record fields => some (Value.valuesOf fields)
  | .bytes bs => some (Value.itemFields (bs.map fun b => .ofNat b.toNat))
  | _ => none

mutual

def check (path : List String) (v : Value) : Schema → Checked Value
  | .text min max =>
    match v with
    | .text s => checked (textIssues path min max s) v
    | v => .error (mismatch path "string" v)
  | .number whole min max =>
    match v with
    | .number .nan => .error (mismatch path "number" v)
    | .number x => checked (numberIssues path whole min max x) v
    | v => .error (mismatch path "number" v)
  | .bool =>
    match v with
    | .bool _ => .ok v
    | v => .error (mismatch path "boolean" v)
  | .any => .ok v
  | .oneOf values =>
    match v with
    | .text s => checked (demand (values.contains s) path (.notAnOption values s)) v
    | v => .error (mismatch path (options values) v)
  | .list items =>
    match v with
    | .list vs =>
      (all ((Value.itemsOf vs).zipIdx.map fun p => check (path ++ [toString p.2]) p.1 items)).map .list
    | v => .error (mismatch path "array" v)
  | .record schemas unknown =>
    match recordFields? v with
    | some fields =>
      (both (checkFields path fields schemas)
        (checkUnnamed path unknown (unnamed (schemas.map (·.1)) fields))).map fun (named, extra) =>
          Value.ofFields (named ++ extra)
    | none => .error (mismatch path "object" v)
  | .orNull inner =>
    match v with
    | .null => .ok .null
    | v => check path v inner
  | .orAbsent inner =>
    match v with
    | .absent => .ok .absent
    | v => check path v inner
  | .withDefault inner value =>
    match v with
    | .absent => check path value inner
    | v => check path v inner
termination_by structural s => s

/-- Checks the fields of a record in the order of the schema. -/
def checkFields (path : List String) (fields : List (String × Value)) :
    List (String × Schema) → Checked (List (String × Value))
  | [] => .ok []
  | (name, schema) :: rest =>
    let v := (fields.lookup name).getD .absent
    (both (check (path ++ [name]) v schema) (checkFields path fields rest)).map fun (v, vs) =>
      keptField fields name v ++ vs
termination_by structural l => l

end

end Schema

end Seedbed
