import Seedbed.Load
import Seedbed.Log
import Seedbed.Settings
/-! A seeder inserts the records of fixture files, one file after the other, by a function of the
caller. The identifier that an insert answers with is registered under the label of its record, so
that tags in later files can name it. An insert that fails ends its file; what was registered
before stays. -/

namespace Seedbed

inductive Identifier
  | text (s : String)
  | number (x : Binary64)
  | integer (n : Int)
  deriving DecidableEq, Inhabited

namespace Identifier

def toValue : Identifier → Value
  | text s => .text s
  | number x => .number x
  | integer n => .integer n

def toText (id : Identifier) : String := id.toValue.toText

def ofValue? : Value → Option Identifier
  | .text s => some (.text s)
  | .number x => some (.number x)
  | .integer n => some (.integer n)
  | _ => none

end Identifier

/-- Inserts a record. It can look at the names that are registered so far. -/
abbrev Inserter (σ : Type) := Registry → Value → Action σ Identifier

structure Seeder where
  /-- The files whose records were loaded. -/
  filenames : List String := []
  baseDir : String := ""
  names : Registry := ∅
  log : List Log.Line := []

namespace Seeder

/-- The name that the log lines of a seeder carry. -/
def component : List (String × Value) := [("component", .text "database-seeder")]

def setDir (dir : String) (s : Seeder) : Seeder := { s with baseDir := dir }

def lookup (s : Seeder) (label : String) : Option String := s.names.lookup label

def note (line : Log.Line) (s : Seeder) : Seeder := { s with log := s.log ++ [line] }

def line (level : Log.Level) (message : String) (fields : List (String × Value)) : Log.Line :=
  { level, fields, message := some message }

def populatingLine (filename baseDir : String) : Log.Line :=
  line .info "populating fixture file" [("filename", .text filename), ("baseDir", .text baseDir)]

def loadFailedLine (filename : String) (e : Thrown) : Log.Line :=
  line .error "failed to load fixture file" [("err", e.logged), ("filename", .text filename)]

def insertFailedLine (filename label : String) (e : Thrown) : Log.Line :=
  line .error "insert failed"
    [("err", e.logged), ("filename", .text filename), ("label", .text label)]

def overwritingLine (filename label : String) : Log.Line :=
  line .debug "overwriting previously registered label"
    [("filename", .text filename), ("label", .text label)]

def insertedLine (filename label : String) : Log.Line :=
  line .debug "record inserted" [("filename", .text filename), ("label", .text label)]

def register (filename label : String) (id : Identifier) (s : Seeder) : Seeder :=
  let s := if s.names.has label then s.note (overwritingLine filename label) else s
  { s with names := s.names.insert label id.toText }.note (insertedLine filename label)

def noteFailure (filename label : String) (e : Thrown) (s : Seeder) : Seeder :=
  s.note (insertFailedLine filename label e)

variable {σ : Type}

/-- The records of a file, which is one of the seeder's files once they are loaded. -/
def load (source : Source σ) (filename : String) (decoder : Decoder σ) :
    Action (Seeder × σ) Records := do
  let s ← Action.state
  Action.change (note (populatingLine filename s.baseDir))
  match ← (loadRecords source filename decoder (some s.baseDir) s.names).beside.outcome with
  | .ok records =>
    Action.change fun s => { s with filenames := s.filenames ++ [filename] }
    return records
  | .error e =>
    Action.change (note (loadFailedLine filename e))
    throw e

/-- Inserts records one after the other, up to the first that fails. -/
def insertAll (filename : String) (insert : Inserter σ) :
    List (String × Value) → Action (Seeder × σ) (List Identifier)
  | [] => return []
  | (label, record) :: rest => do
    let s ← Action.state
    match ← (insert s.names record).beside.outcome with
    | .error e =>
      Action.change (noteFailure filename label e)
      Action.fail (.insertFailed filename label e)
    | .ok id =>
      Action.change (register filename label id)
      return id :: (← insertAll filename insert rest)

/-- Inserts the records of a file. The answer holds their identifiers in order. -/
def populate (source : Source σ) (filename : String) (decoder : Decoder σ) (insert : Inserter σ) :
    Action (Seeder × σ) (List Identifier) := do
  let records ← load source filename decoder
  insertAll filename insert records.entries

def ofSettings (settings : Settings) : Seeder := { baseDir := settings.fixturesDir }

end Seeder

end Seedbed
