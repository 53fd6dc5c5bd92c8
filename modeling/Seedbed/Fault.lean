import Seedbed.Failure
import Seedbed.Value.Text
/-! Faults of fixtures: an error with a code, the place where it arose and its cause. A fault that
is passed on takes context along, and the context that it has already wins. -/

namespace Seedbed

namespace Fault

inductive Code
  | notFound
  | unsupportedDirective
  | missingVariable
  | unresolvedReference
  | decodeFailed
  | insertFailed
  | alreadyLoaded
  | notLoaded
  | recordNotFound
  | invalidSettings
  deriving DecidableEq, Repr

def Code.id : Code → String
  | notFound => "FIXTURE_E101"
  | unsupportedDirective => "FIXTURE_E201"
  | missingVariable => "FIXTURE_E202"
  | unresolvedReference => "FIXTURE_E203"
  | decodeFailed => "FIXTURE_E301"
  | insertFailed => "FIXTURE_E401"
  | alreadyLoaded => "FIXTURE_E501"
  | notLoaded => "FIXTURE_E502"
  | recordNotFound => "FIXTURE_E503"
  | invalidSettings => "FIXTURE_E601"

structure Context where
  filename : Option String := none
  path : Option String := none
  label : Option String := none
  key : Option String := none
  directive : Option String := none
  deriving DecidableEq, Repr, Inhabited

/-- What the first context knows, and the second one's knowledge of all else. -/
def Context.orElse (c d : Context) : Context where
  filename := c.filename <|> d.filename
  path := c.path <|> d.path
  label := c.label <|> d.label
  key := c.key <|> d.key
  directive := c.directive <|> d.directive

end Fault

/-- A fault whose cause is of the type `τ`. -/
structure FaultWith (τ : Type) where
  code : Fault.Code
  message : String
  context : Fault.Context := {}
  retryable : Bool := false
  cause : Option τ := none

/-- Whatever can be thrown: a fault, another error, or a value that is no error. -/
inductive Thrown
  | fault (f : FaultWith Thrown)
  | failure (e : Failure)
  | value (v : Value)

abbrev Fault := FaultWith Thrown

namespace Thrown

def isFault : Thrown → Bool
  | fault _ => true
  | _ => false

def reason : Thrown → String
  | fault f => f.message
  | failure e => e.message
  | value v => v.toText

end Thrown

namespace FaultWith

variable {τ : Type}

/-- The fault with more context. The context that it has already wins. -/
def withContext (f : FaultWith τ) (c : Fault.Context) : FaultWith τ :=
  { f with context := f.context.orElse c }

@[simp] theorem withContext_context (f : FaultWith τ) (c : Fault.Context) :
    (f.withContext c).context = f.context.orElse c := rfl

@[simp] theorem withContext_code (f : FaultWith τ) (c : Fault.Context) :
    (f.withContext c).code = f.code := rfl

end FaultWith

namespace Fault

/-- A fault with the given cause. A value that is absent is no cause. -/
def withCause (f : Fault) : Thrown → Fault
  | .value .absent => f
  | cause => { f with cause := some cause }

def notOpened (file : String) (context : Context) : Fault :=
  { code := .notFound, message := s!"can't open the file: {file}", context }

def missingVariable (key : String) : Fault :=
  { code := .missingVariable
    message := s!"environment variable `{key}` is not set and no default was given"
    context := { directive := some "ENV", key := some key } }

def unresolvedReference (label : String) : Fault :=
  { code := .unresolvedReference
    message := s!"no record has been registered under the label `{label}`"
    context := { directive := some "REF", key := some label } }

def unsupportedDirective (directive key : String) : Fault :=
  { code := .unsupportedDirective
    message := s!"the directive `{directive}` is not supported"
    context := { directive := some directive, key := some key } }

def undecodable (filename : String) : Fault :=
  { code := .decodeFailed
    message := s!"decoding failed, check the file: {filename}"
    context := { filename := some filename } }

def insertFailed (filename label : String) (cause : Thrown) : Fault :=
  withCause
    { code := .insertFailed
      message := s!"{filename}: inserting record `{label}` failed: {cause.reason}"
      context := { filename := some filename, label := some label } } cause

def alreadyLoaded (filename : String) : Fault :=
  { code := .alreadyLoaded
    message := s!"{filename}: the records have been loaded already"
    context := { filename := some filename } }

def notLoaded (filename : String) : Fault :=
  { code := .notLoaded
    message := s!"{filename}: no records have been loaded yet"
    context := { filename := some filename } }

def recordNotFound (filename label : String) : Fault :=
  { code := .recordNotFound
    message := s!"{filename}: no record was found for the label `{label}`"
    context := { filename := some filename, label := some label } }

end Fault

end Seedbed
