import Seedbed.Schema
import Seedbed.Yaml.Records
/-! Records from a YAML text, each of which has to pass a check. The first record that does not is
named, with all that is wrong with it. A schema is such a check. -/

namespace Seedbed

structure Objection where
  path : List String
  message : String
  deriving DecidableEq, Repr

def Objection.text (o : Objection) : String :=
  let place := ".".intercalate o.path
  (if place = "" then "(record)" else place) ++ ": " ++ o.message

def Fault.invalidRecord (label : String) (objections : List Objection) : Fault :=
  { code := .decodeFailed
    message := s!"record `{label}` is invalid: " ++ "; ".intercalate (objections.map Objection.text)
    context := { label := some label }
    cause := some (.failure .schemaMismatch) }

/-- Checks a record: what it is once checked, or all that is wrong with it. -/
abbrev Validator (σ α : Type) := Value → Action σ (Except (List Objection) α)

namespace Validator

variable {σ α : Type}

def entry (validate : Validator σ α) (e : String × Value) : Action σ (String × α) := do
  match ← validate e.2 with
  | .ok v => return (e.1, v)
  | .error objections => .fail (.invalidRecord e.1 objections)

/-- The records that a YAML text describes, checked one after the other. -/
def records (validate : Validator σ α) (text : String) : Action σ (Keyed α) := do
  let raw ← Yaml.decoder text
  return .ofList (← raw.entries.mapM validate.entry)

end Validator

namespace Schema

def Issue.objection (i : Issue) : Objection := ⟨i.path, i.problem.message⟩

def validator {σ : Type} (schema : Schema) : Validator σ Value := fun v =>
  return (schema.check [] v).mapError (·.map Issue.objection)

def decoder {σ : Type} (schema : Schema) : Decoder σ := schema.validator.records

def records (schema : Schema) (text : String) : Except Thrown Records :=
  ((schema.decoder (σ := Unit) text).run.run ()).1

end Schema

end Seedbed
