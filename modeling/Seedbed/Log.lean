import Seedbed.Fault
import Seedbed.Keyed
import Seedbed.Value.ReadBack
/-! Log lines. A line is a record of its level, the bindings of its logger, its own fields and its
message; of two fields with one name the later one is kept. Secrets are masked by the name of their
field, at the top of the record only. -/

namespace Seedbed

namespace Log

inductive Level
  | trace
  | debug
  | info
  | warn
  | error
  | fatal
  | silent
  deriving DecidableEq, Repr, Inhabited

namespace Level

def rank : Level → Nat
  | trace => 10
  | debug => 20
  | info => 30
  | warn => 40
  | error => 50
  | fatal => 60
  | silent => 100

def name : Level → String
  | trace => "trace"
  | debug => "debug"
  | info => "info"
  | warn => "warn"
  | error => "error"
  | fatal => "fatal"
  | silent => "silent"

def ofLines : List Level := [trace, debug, info, warn, error, fatal]

/-- The level with the given name. Capitals do not matter, except in `silent`. -/
def ofName? (name : String) : Option Level :=
  if name = silent.name then some silent
  else
    let lower := String.ofList (name.toList.map Char.toLower)
    ofLines.find? fun l => l.name = lower

def read (name : String) : Except Failure Level :=
  match ofName? name with
  | some l => .ok l
  | none => .error (.unknownLevel name)

end Level

def secretNames : List String := ["token", "apiKey", "password", "secret", "connectionString"]

def mask : Value := .text "[REDACTED]"

def shownFields (fields : List (String × Value)) : List (String × Value) :=
  (fields.filter fun f => !f.2.isAbsent).map fun f =>
    (f.1, if f.1 ∈ secretNames then mask else f.2.readBack)

/-- The names that a logger keeps for itself and does not take as bindings. -/
def ownNames : List String := ["level", "serializers", "formatters", "customLevels"]

structure Line where
  level : Level
  fields : List (String × Value) := []
  message : Option String := none

structure Logger where
  level : Level
  bindings : List (String × Value) := []

namespace Logger

/-- The level where neither the caller nor the environment names one. -/
def defaultLevel : String := "info"

/-- A logger for the level with the given name; without one, for that of the environment. -/
def create (level : Option String) (environment : Option String) : Except Failure Logger :=
  let fromEnvironment := (environment.filter (· ≠ "")).getD defaultLevel
  (Level.read (level.getD fromEnvironment)).map fun l => { level := l }

def child (logger : Logger) (fields : List (String × Value)) : Logger :=
  { logger with
    bindings := logger.bindings ++ fields.filter fun f => !ownNames.contains f.1 }

def shownBindings (logger : Logger) : Keyed Value := .ofList (shownFields logger.bindings)

/-- A line as it is written, if the level of the logger lets it through. No line is written at the
level `silent`. -/
def write (logger : Logger) (line : Line) : Option (Keyed Value) :=
  if line.level = .silent ∨ line.level.rank < logger.level.rank then none
  else
    some (.ofList (("level", .text line.level.name) :: shownFields logger.bindings
      ++ shownFields line.fields ++ (line.message.map fun m => ("msg", .text m)).toList))

end Logger

end Log

namespace Thrown

/-- What a log line says about an error: its kind, and its code if it has one. A value that is no
error stands for itself. -/
def logged : Thrown → Value
  | .fault f => .record [("type", .text "FixtureError"), ("code", .text f.code.id)]
  | .failure e => .record [("type", .text e.kind)]
  | .value v => v

end Thrown

end Seedbed
