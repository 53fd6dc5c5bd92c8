import Seedbed.Value
import Seedbed.Yaml.Scalar.Number
import Seedbed.Yaml.Scalar.Timestamp
/-! Scalars with their values, and the values that plain scalars have by their text: null, booleans,
numbers, and in version 1.1 instants and the mark of merges. Every other text is a text. -/

namespace Seedbed

namespace Yaml

inductive Style
  | plain
  | singleQuoted
  | doubleQuoted
  | block
  deriving DecidableEq, Repr

structure Scalar where
  value : Value
  /-- The text before its value was found. -/
  text : List Char
  style : Style
  /-- As a key it merges the maps under it. -/
  merges : Bool := false

namespace Scalar

def nullTag : String := "tag:yaml.org,2002:null"

def boolTag : String := "tag:yaml.org,2002:bool"

def intTag : String := "tag:yaml.org,2002:int"

def floatTag : String := "tag:yaml.org,2002:float"

def timestampTag : String := "tag:yaml.org,2002:timestamp"

def mergeTag : String := "tag:yaml.org,2002:merge"

def isNull (cs : List Char) : Bool :=
  ["", "~", "null", "Null", "NULL"].any (·.toList = cs)

def spellings (version : Version) (b : Bool) : List String :=
  match version, b with
  | .v1_1, true =>
    ["Y", "y", "Yes", "yes", "YES", "True", "true", "TRUE", "On", "on", "ON"]
  | .v1_1, false =>
    ["N", "n", "No", "no", "NO", "False", "false", "FALSE", "Off", "off", "OFF"]
  | .v1_2, true => ["true", "True", "TRUE"]
  | .v1_2, false => ["false", "False", "FALSE"]

def bool? (version : Version) (cs : List Char) : Option Bool :=
  if (spellings version true).any (·.toList = cs) then some true
  else if (spellings version false).any (·.toList = cs) then some false
  else none

/-- An instant. In version 1.2 only a tag makes one. -/
def instant? (version : Version) (cs : List Char) : Option Instant :=
  match version with
  | .v1_1 => timestamp? cs
  | .v1_2 => none

def plainValue (version : Version) (cs : List Char) : Value :=
  if isNull cs then .null
  else
    match bool? version cs, int? version cs, float? version cs, instant? version cs with
    | some b, _, _, _ => .bool b
    | _, some x, _, _ => .number x
    | _, _, some x, _ => .number x
    | _, _, _, some t => .instant t
    | _, _, _, _ => .text (.ofList cs)

/-! ### Merges -/

/-- The key of a map under which maps are merged into it. -/
def mergeKey : String := "<<"

def mergeMark : Value := .symbol mergeKey

def isMergeMark : Value → Bool
  | .symbol _ => true
  | _ => false

def isMergeText (s : Scalar) : Bool :=
  match s.value with
  | .text t => t = mergeKey
  | _ => false

/-- The value of a plain key without a tag. -/
def keyValue (version : Version) (cs : List Char) : Value :=
  if version = .v1_1 ∧ cs = mergeKey.toList then mergeMark else plainValue version cs

def schemaValue? (version : Version) (tag : String) (cs : List Char) : Option Value :=
  if tag = nullTag then (if isNull cs then some .null else none)
  else if tag = boolTag then (bool? version cs).map .bool
  else if tag = intTag then (int? version cs).map .number
  else if tag = floatTag then (float? version cs).map .number
  else if tag = timestampTag then (instant? version cs).map .instant
  else if tag = mergeTag then
    if version = .v1_1 ∧ cs = mergeKey.toList then some mergeMark else none
  else none

end Scalar

end Yaml

end Seedbed
