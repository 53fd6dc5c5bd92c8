import Seedbed.Failure
import Seedbed.Value.Text
import Seedbed.Yaml.KeyText
/-! The value of a node. Every collection is an object, which an alias for its node shares, so that
an object can come to stand within itself. Under a merge key the entries of other maps become those
of a map. How often a node is used counts, weighted by the aliases within it, so that a short text
can not make a value beyond all bounds. -/

namespace Seedbed

namespace Yaml

inductive Result
  | value (v : Value)
  | object (id : Nat)

namespace Result

/-- The same key: an object is the same only as itself, and NaN is the same as itself. -/
def same : Result → Result → Bool
  | value a, value b => Node.sameOrNaN a b
  | object i, object j => i == j
  | _, _ => false

def absent : Result := value .absent

end Result

/-- What an object holds: an instant or bytes, or a collection. -/
inductive Body
  | atom (v : Value)
  | list (items : List Result)
  | record (fields : List (String × Result))
  | set (members : List Result)
  | dictionary (entries : List (Result × Result))

/-- The objects that are complete, by their numbers. -/
abbrev Heap := List (Nat × Body)

namespace Heap

/-- The value of a result that stands in the objects of `path`, the innermost first. Beside these
there are at most `room` objects. -/
def value (heap : Heap) : Nat → List Nat → Result → Value
  | _, _, .value v => v
  | room, path, .object id =>
    match path.idxOf? id, room with
    | some up, _ => .enclosing up
    | none, 0 => .null
    | none, room + 1 =>
      let part : Result → Value := heap.value room (id :: path)
      match heap.lookup id with
      | none => .null
      | some (.atom v) => v
      | some (.list items) => .list (items.map part)
      | some (.record fields) => .record (fields.map fun f => (f.1, part f.2))
      | some (.set members) => .set (members.map part)
      | some (.dictionary entries) => .dictionary (entries.map fun e => (part e.1, part e.2))

def valueOf (heap : Heap) (r : Result) : Value := heap.value heap.length [] r

end Heap

structure Use where
  result : Result
  /-- The node itself and the aliases for it. -/
  count : Nat := 1
  /-- The uses of other nodes within it, once an alias for it is met. -/
  weight : Nat := 0

structure Memory where
  uses : List (Nat × Use) := []
  heap : Heap := []
  objects : Nat := 0

abbrev Evaluation := ExceptT Failure (StateM Memory)

namespace Evaluation

def maxUses : Nat := 100

def notMergeable : Failure := .plain "Merge sources must be maps or map aliases"

def duplicateKeys : Failure := .plain "Ordered maps must not include duplicate keys"

def create : Evaluation Nat :=
  modifyGet fun m => (m.objects, { m with objects := m.objects + 1 })

def complete (id : Nat) (body : Body) : Evaluation Result := do
  modify fun m => { m with heap := (id, body) :: m.heap }
  return .object id

def enter (number : Option Nat) (result : Result) : Evaluation Unit :=
  match number with
  | none => pure ()
  | some n =>
    modify fun m => { m with uses := (n, { result }) :: m.uses.filter (·.1 ≠ n) }

/-- A collection. Its object is there before what it holds. -/
def collect (number : Option Nat) (body : Evaluation Body) : Evaluation Result := do
  let id ← create
  enter number (.object id)
  complete id (← body)

/-- The value of a scalar. Instants and bytes are objects. -/
def scalar (number : Option Nat) (v : Value) : Evaluation Result := do
  let result ←
    match v with
    | .instant _ | .bytes _ => complete (← create) (.atom v)
    | v => pure (.value v)
  enter number result
  return result

mutual

/-- The uses that an evaluation of a node again would add to those of the nodes within it. -/
def weight (uses : List (Nat × Use)) : Linked → Nat
  | .scalar .. => 1
  | .seq _ _ items => weightOfItems uses items
  | .map _ _ pairs => weightOfPairs uses pairs
  | .alias _ number => ((uses.lookup number).map fun u => u.count * u.weight).getD 0
  | .dangling _ => 0
termination_by structural l => l

def weightOfItems (uses : List (Nat × Use)) : List Linked → Nat
  | [] => 0
  | item :: rest => max (weight uses item) (weightOfItems uses rest)
termination_by structural l => l

def weightOfPairs (uses : List (Nat × Use)) : List (Linked × Option Linked) → Nat
  | [] => 0
  | (key, value) :: rest =>
    let valueWeight :=
      match value with
      | some v => weight uses v
      | none => 1
    max (max (weight uses key) valueWeight) (weightOfPairs uses rest)
termination_by structural l => l

end

def useAgain (name : String) (number : Nat) (source : Option Linked) : Evaluation Result := do
  let m ← get
  match m.uses.lookup number with
  | some { result, count, weight := w } =>
    let update (f : Use → Use) (uses : List (Nat × Use)) : List (Nat × Use) :=
      uses.map fun (i, u) => (i, if i = number then f u else u)
    let uses := update (fun u => { u with count := count + 1 }) m.uses
    let w := if w = 0 then (source.map (weight uses)).getD 0 else w
    set { m with uses := update (fun u => { u with weight := w }) uses }
    if maxUses < (count + 1) * w then throw .excessiveAliases else return result
  | none => throw (.unresolvedAlias name)

/-- The text of a key: nothing for null, the YAML of a collection or of an alias for an object, and
the text of another value. -/
def keyText (version : Version) (key : Linked) (result : Result) : String :=
  match result, key with
  | .value .null, _ => ""
  | .value v, _ => v.toText
  | .object _, .scalar _ _ s => s.value.toText
  | .object _, key => .ofList (KeyText.ofKey version key)

/-- What a pair of a map adds to it: an entry, whose key is also a text, or entries of other maps.
-/
inductive Addition
  | pair (name : String) (key value : Result)
  | merged (entries : List (Result × Result))

namespace Addition

/-- The name of the field that a merged entry is. There is none for a mark. -/
def fieldName? (heap : Heap) (key : Result) : Option String :=
  match heap.valueOf key with
  | .symbol _ => none
  | v => some v.toText

/-- The fields of a record with those of an addition. Merged ones leave others as they are. -/
def fields (heap : Heap) (before : List (String × Result)) : Addition → List (String × Result)
  | pair name _ value => before ++ [(name, value)]
  | merged entries =>
    entries.foldl (fun before (key, value) =>
      match fieldName? heap key with
      | some name => if before.any (·.1 = name) then before else before ++ [(name, value)]
      | none => before) before

def entries (before : List (Result × Result)) : Addition → List (Result × Result)
  | pair _ key value =>
    if before.any (·.1.same key) then
      before.map fun e => if e.1.same key then (e.1, value) else e
    else before ++ [(key, value)]
  | merged entries =>
    entries.foldl (fun before e => if before.any (·.1.same e.1) then before else before ++ [e]) before

end Addition

def members (results : List Result) : List Result :=
  results.foldl (fun before r => if before.any (·.same r) then before else before ++ [r]) []

def entryOf (r : Result) : Evaluation (Result × Result) := do
  let first (items : List Result) : Result × Result :=
    (items[0]?.getD .absent, items[1]?.getD .absent)
  match r, (← get).heap with
  | .value (.text s), _ =>
    return first (s.toList.map fun c => .value (.text (String.singleton c)))
  | .object id, heap =>
    match heap.lookup id with
    | some (.list items) | some (.set items) => return first items
    | some (.atom (.bytes bs)) => return first (bs.map fun b => .value (.ofNat b.toNat))
    | some (.dictionary entries) =>
      let items ← (entries.take 2).mapM fun e => do complete (← create) (.list [e.1, e.2])
      return first items
    | _ => throw .notIterable
  | _, _ => throw .notIterable

/-- What an evaluation has of the document: its version, its nodes with an anchor, the evaluation of
such a node and the entries that one of them has to be merged. Only `deep` ones may be sequences
of maps. -/
structure Access where
  version : Version
  node : Nat → Option Linked
  result : Nat → Evaluation Result
  merged : (deep : Bool) → Nat → Evaluation (List (Result × Result))

mutual

def ofLinked (a : Access) : Linked → Evaluation Result
  | .scalar number _ s => scalar number s.value
  | .seq number label items =>
    collect number
      (if label.tag = some Node.orderedMapTag then return .dictionary (← ofOrdered a [] items)
      else return .list (← ofItems a items))
  | .map number label pairs =>
    collect number
      (if label.tag = some Node.setTag then return .set (members (← ofMembers a pairs))
      else do
        let additions ← ofPairs a pairs
        let heap := (← get).heap
        return .record (fieldsOf (additions.foldl (Addition.fields heap) [])))
  | .alias name number => do
    if ((← get).uses.lookup number).isNone then discard (a.result number)
    useAgain name number (a.node number)
  | .dangling name => throw (.unresolvedAlias name)
termination_by structural l => l

def ofItems (a : Access) : List Linked → Evaluation (List Result)
  | [] => return []
  | item :: rest => do
    let result ← ofLinked a item
    return result :: (← ofItems a rest)
termination_by structural l => l

def ofOrdered (a : Access) (before : List (Result × Result)) :
    List Linked → Evaluation (List (Result × Result))
  | .map _ _ ((key, value) :: _) :: rest => do
    let k ← ofLinked a key
    let v ←
      match value with
      | some v => ofLinked a v
      | none => pure (.value .null)
    if before.any (·.1.same k) then throw duplicateKeys
    ofOrdered a (before ++ [(k, v)]) rest
  | _ => return before
termination_by structural l => l

/-- The members of a set, which are keys without values. -/
def ofMembers (a : Access) : List (Linked × Option Linked) → Evaluation (List Result)
  | [] => return []
  | (key, _) :: rest => do
    if key.merges then throw notMergeable
    let result ← ofLinked a key
    return result :: (← ofMembers a rest)
termination_by structural l => l

/-- What the pairs of a map add to it. A pair without a value is null. -/
def ofPairs (a : Access) : List (Linked × Option Linked) → Evaluation (List Addition)
  | [] => return []
  | (key, value) :: rest => do
    let addition ←
      if key.merges then
        match value with
        | some v => .merged <$> mergedOf a true v
        | none => throw notMergeable
      else do
        let k ← ofLinked a key
        let v ←
          match value with
          | some v => ofLinked a v
          | none => pure (.value .null)
        pure (.pair (keyText a.version key k) k v)
    return addition :: (← ofPairs a rest)
termination_by structural l => l

/-- The entries of a map that is merged, or of several in a sequence. -/
def mergedOf (a : Access) (deep : Bool) : Linked → Evaluation (List (Result × Result))
  | .map _ label pairs =>
    if label.tag = some Node.setTag then do
      (members (← ofMembers a pairs)).mapM entryOf
    else return (← ofPairs a pairs).foldl Addition.entries []
  | .seq _ label items =>
    if deep && (items.isEmpty
        || (label.tag ≠ some Node.orderedMapTag && label.tag ≠ some Node.pairsTag)) then
      mergedOfItems a items
    else throw notMergeable
  | .alias _ number => a.merged deep number
  | .scalar .. | .dangling _ => throw notMergeable
termination_by structural l => l

def mergedOfItems (a : Access) : List Linked → Evaluation (List (Result × Result))
  | [] => return []
  | item :: rest => do
    let entries ← mergedOf a false item
    return entries ++ (← mergedOfItems a rest)
termination_by structural l => l

end

/-- What an evaluation has of a document whose nodes refer to each other to some depth. -/
def access (version : Version) (nodes : Linked.Nodes) : (depth : Nat) → Access
  | 0 =>
    { version, node := fun number => nodes.lookup number
      result := fun _ => throw .endlessMerge
      merged := fun _ _ => throw .endlessMerge }
  | depth + 1 =>
    let inner := access version nodes depth
    { version, node := fun number => nodes.lookup number
      result := fun number =>
        match nodes.lookup number with
        | some node => ofLinked inner node
        | none => throw .endlessMerge
      merged := fun deep number =>
        match nodes.lookup number with
        | some node => mergedOf inner deep node
        | none => throw notMergeable }

/-- A depth that only an endless merge exceeds. Of the references on the way to a node the first one
to each node can be any, the others are merges, of which no two between these are of one node. -/
def maxDepth (nodes : Linked.Nodes) : Nat := (nodes.length + 1) * (nodes.length + 1) + maxUses

end Evaluation

/-- The value of a node of which nothing has been evaluated. -/
def Linked.value (version : Version) (nodes : Linked.Nodes) (node : Linked) : Except Failure Value :=
  let access := Evaluation.access version nodes (Evaluation.maxDepth nodes)
  match (Evaluation.ofLinked access node).run.run {} with
  | (.ok result, m) => .ok (m.heap.valueOf result)
  | (.error e, _) => .error e

end Yaml

end Seedbed
