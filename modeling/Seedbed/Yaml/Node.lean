import Seedbed.Yaml.Scalar
/-! The nodes of a YAML document: scalars, collections and aliases. -/

namespace Seedbed

namespace Yaml

structure Label where
  anchor : Option String := none
  tag : Option String := none
  deriving DecidableEq, Repr, Inhabited

inductive Node
  | scalar (label : Label) (s : Scalar)
  | alias (name : String)
  | seq (label : Label) (items : List Node)
  /-- A pair without a value is one in which no `:` stands. -/
  | map (label : Label) (pairs : List (Node × Option Node))

namespace Node

def setTag : String := "tag:yaml.org,2002:set"

def orderedMapTag : String := "tag:yaml.org,2002:omap"

def pairsTag : String := "tag:yaml.org,2002:pairs"

/-- The same value. Instants, bytes and marks never are. -/
def sameValue : Value → Value → Bool
  | .null, .null => true
  | .bool a, .bool b => a == b
  | .number a, .number b => a.same b
  | .text a, .text b => a == b
  | _, _ => false

/-- The same value, where NaN is the same as itself. -/
def sameOrNaN : Value → Value → Bool
  | .number .nan, .number .nan => true
  | a, b => sameValue a b

/-- Two keys that can not stand in one map: scalars with the same value. -/
def sameKey : Node → Node → Bool
  | scalar _ a, scalar _ b => sameValue a.value b.value
  | _, _ => false

/-- A node as a key of a map. In version 1.1 a plain `<<` merges other maps. -/
def asKey (version : Version) : Node → Node
  | scalar label s =>
    if version = .v1_1 ∧ s.style = .plain ∧ s.isMergeText then
      scalar label { s with value := if label.tag = none then Scalar.mergeMark else s.value
                            merges := true }
    else scalar label s
  | n => n

def emptyScalar : Node := scalar {} { value := .null, text := [], style := .plain }

end Node

end Yaml

end Seedbed
