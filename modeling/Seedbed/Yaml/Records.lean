import Seedbed.Load
import Seedbed.Yaml.Document
import Seedbed.Yaml.Evaluate
/-! Records from a YAML text: a map of labels to records. Labels are texts, whatever the keys are,
and they keep their order. -/

namespace Seedbed

namespace Yaml

/-- A fault of a text that is no map of records. -/
def undecodable (message : String) (cause : Option Thrown := none) : Fault :=
  { code := .decodeFailed, message, cause }

def malformed : Fault :=
  undecodable s!"invalid YAML: {Failure.malformedYaml.message}" (some (.failure .malformedYaml))

def notAMap : Fault := undecodable "fixture file must be a YAML mapping of label to record"

def notALabel : Fault := undecodable "record labels must be scalar values"

def record (version : Version) (nodes : Linked.Nodes) (pair : Linked × Option Linked) :
    Except Thrown (String × Value) :=
  match pair with
  | (.scalar _ _ key, some node) =>
    match node.value version nodes with
    | .ok value => .ok (key.value.toText, value)
    | .error e => .error (.failure e)
  | (.scalar _ _ key, none) => .ok (key.value.toText, .null)
  | _ => .error (.fault notALabel)

def rootRecords (version : Version) (root : Linked) : Except Thrown Records :=
  match root with
  | .map _ _ pairs => (pairs.mapM (record version root.anchored)).map Keyed.ofList
  | _ => .error (.fault notAMap)

def records (text : String) : Except Thrown Records :=
  match Document.read? text with
  | none => .error (.fault malformed)
  | some { root := none, .. } => .ok ∅
  | some { root := some root, version, .. } => rootRecords version (Linked.ofRoot root)

def decoder {σ : Type} : Decoder σ := fun text => Action.ofExcept id (records text)

end Yaml

end Seedbed
