import Seedbed.Fault
import Seedbed.Log
/-! The settings of a seeder: the directory of its fixtures and the level of its log, from the
variables `FIXTURES_DIR` and `LOG_LEVEL`. -/

namespace Seedbed

structure Settings where
  fixturesDir : String := ""
  logLevel : Log.Level := .info
  deriving DecidableEq, Repr

namespace Settings

def fixturesDirName : String := "FIXTURES_DIR"

def logLevelName : String := "LOG_LEVEL"

def levels : List Log.Level := [.debug, .info, .warn, .error, .silent]

/-- The directory that a variable sets, nowhere in particular where it is not set. -/
def readDir : Value → Option String
  | .absent => some ""
  | .text s => some s
  | _ => none

def readLevel : Value → Option Log.Level
  | .absent => some .info
  | .text s => levels.find? fun l => l.name = s
  | _ => none

def invalid (names : List String) : Fault :=
  { code := .invalidSettings
    message := "Invalid environment variables: " ++ ", ".intercalate names
    cause := some (.failure .schemaMismatch) }

/-- The settings that the values of variables make. One that is not set has the absent value. -/
def read (value : String → Value) : Except Fault Settings :=
  match readDir (value fixturesDirName), readLevel (value logLevelName) with
  | some dir, some level => .ok ⟨dir, level⟩
  | none, some _ => .error (invalid [fixturesDirName])
  | some _, none => .error (invalid [logLevelName])
  | none, none => .error (invalid [fixturesDirName, logLevelName])

end Settings

end Seedbed
