import Seedbed.Yaml.Node
/-! Nodes in which each alias has the number of the node that it stands for: of the nodes before it
and around it with its anchor the last. -/

namespace Seedbed

namespace Yaml

/-- A node with an anchor has a number, which no other node of the document has. -/
inductive Linked
  | scalar (number : Option Nat) (label : Label) (s : Scalar)
  | seq (number : Option Nat) (label : Label) (items : List Linked)
  | map (number : Option Nat) (label : Label) (pairs : List (Linked × Option Linked))
  | alias (name : String) (number : Nat)
  /-- An alias without a node that it could stand for. -/
  | dangling (name : String)

namespace Linked

/-- The anchors so far with the numbers of their nodes, the latest first. -/
abbrev Anchors := List (String × Nat)

abbrev Linking := StateM Anchors

def enter (label : Label) : Linking (Option Nat) := do
  match label.anchor with
  | none => return none
  | some name =>
    let anchors ← get
    set ((name, anchors.length) :: anchors)
    return some anchors.length

def resolve (name : String) (anchors : Anchors) : Linked :=
  match anchors.lookup name with
  | some number => .alias name number
  | none => dangling name

mutual

def ofNode : Node → Linking Linked
  | .scalar label s => return .scalar (← enter label) label s
  | .alias name => return resolve name (← get)
  | .seq label items => do
    let number ← enter label
    return .seq number label (← ofItems items)
  | .map label pairs => do
    let number ← enter label
    return .map number label (← ofPairs pairs)
termination_by structural n => n

def ofItems : List Node → Linking (List Linked)
  | [] => return []
  | item :: rest => do
    let item ← ofNode item
    return item :: (← ofItems rest)
termination_by structural l => l

def ofPairs : List (Node × Option Node) → Linking (List (Linked × Option Linked))
  | [] => return []
  | (key, value) :: rest => do
    let key ← ofNode key
    let value ←
      match value with
      | some v => some <$> ofNode v
      | none => pure none
    return (key, value) :: (← ofPairs rest)
termination_by structural l => l

end

/-- A key under which maps are merged. -/
def merges : Linked → Bool
  | scalar _ _ s => s.merges
  | _ => false

def ofRoot (root : Node) : Linked := ((ofNode root).run []).1

/-- Nodes with an anchor by their numbers. -/
abbrev Nodes := List (Nat × Linked)

def numbered (number : Option Nat) (node : Linked) : Nodes :=
  (number.map (·, node)).toList

mutual

def anchored : Linked → Nodes
  | .scalar number label s => numbered number (.scalar number label s)
  | .seq number label items => numbered number (.seq number label items) ++ anchoredItems items
  | .map number label pairs => numbered number (.map number label pairs) ++ anchoredPairs pairs
  | .alias .. | .dangling _ => []
termination_by structural l => l

def anchoredItems : List Linked → Nodes
  | [] => []
  | item :: rest => anchored item ++ anchoredItems rest
termination_by structural l => l

def anchoredPairs : List (Linked × Option Linked) → Nodes
  | [] => []
  | (key, value) :: rest =>
    anchored key
      ++ (match value with
        | some v => anchored v
        | none => [])
      ++ anchoredPairs rest
termination_by structural l => l

end

end Linked

end Yaml

end Seedbed
