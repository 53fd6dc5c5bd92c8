import Seedbed.Load
import Seedbed.Log
/-! A shelf holds the records of one fixture file for look-up by label, without inserting them
anywhere. It is loaded once: a load that fails leaves it empty, and once it is loaded no other load
changes it. -/

namespace Seedbed

structure Shelf.Plan (σ : Type) where
  filename : String
  baseDir : Option String := none
  decoder : Decoder σ
  source : Source σ

structure Shelf where
  records : Option Records := none
  log : List Log.Line := []

namespace Shelf

variable {σ : Type}

def isLoaded (s : Shelf) : Bool := s.records.isSome

def note (line : Log.Line) (s : Shelf) : Shelf := { s with log := s.log ++ [line] }

def loadingLine (filename : String) : Log.Line :=
  { level := .info, fields := [("filename", .text filename)], message := s!"loading {filename}..." }

/-- Loads the file, with its tags resolved against the given names. -/
def load (plan : Plan σ) (names : Registry) : Action (Shelf × σ) Unit := do
  Action.change (note (loadingLine plan.filename))
  if (← Action.state).isLoaded then
    Action.fail (.alreadyLoaded plan.filename)
  else
    let records ← (loadRecords plan.source plan.filename plan.decoder plan.baseDir names).beside
    Action.change fun s => { s with records := some records }

/-- All records, once they are loaded. -/
def getAll (plan : Plan σ) (s : Shelf) : Except Fault Records :=
  match s.records with
  | some records => .ok records
  | none => .error (.notLoaded plan.filename)

def get (plan : Plan σ) (s : Shelf) (label : String) : Except Fault Value := do
  let records ← s.getAll plan
  match records.get? label with
  | none | some .absent => .error (.recordNotFound plan.filename label)
  | some record => .ok record

end Shelf

end Seedbed
