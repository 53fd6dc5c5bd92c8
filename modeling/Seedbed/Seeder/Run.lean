import Seedbed.Seeder
/-! Runs of a seeder that may overlap. A run begins by loading its file; then one insert at a time
is in flight, and when it settles the run goes on to the next record. Between two steps of a run
other runs may take theirs, on the same seeder. -/

namespace Seedbed

inductive Delivery
  | returned (id : Identifier)
  | threw (e : Thrown)
  /-- It returns a promise, which settles like this. -/
  | promised (outcome : Except Thrown Identifier)

def Delivery.settled : Delivery → Except Thrown Identifier
  | returned id => .ok id
  | threw e => .error e
  | promised outcome => outcome

structure Run where
  filename : String
  ids : List Identifier := []
  /-- The records not inserted yet; the insert of the first one is in flight. -/
  pending : List (String × Value)

namespace Run

variable {σ : Type}

/-- Begins a run. -/
def start (source : Source σ) (filename : String) (decoder : Decoder σ) :
    Action (Seeder × σ) Run := do
  let records ← Seeder.load source filename decoder
  return { filename, pending := records.entries }

def inFlight? (run : Run) : Option Value := run.pending.head?.map (·.2)

/-- The run after the insert in flight has settled, and what this does to the seeder. -/
def settle (run : Run) (outcome : Except Thrown Identifier) (s : Seeder) :
    Except Fault Run × Seeder :=
  match run.pending, outcome with
  | [], _ => (.ok run, s)
  | (label, _) :: rest, .ok id =>
    (.ok { run with ids := run.ids ++ [id], pending := rest }, s.register run.filename label id)
  | (label, _) :: _, .error e =>
    (.error (.insertFailed run.filename label e), s.noteFailure run.filename label e)

/-- Finishes a run with no other run between its steps. The number bounds its steps. -/
def finish (insert : Registry → Value → StateM σ Delivery) :
    Nat → Run → Action (Seeder × σ) (List Identifier)
  | 0, run => return run.ids
  | n + 1, run => do
    match run.inFlight? with
    | none => return run.ids
    | some record =>
      let (s, w) ← get
      let (delivery, w) := insert s.names record w
      let (next, s) := run.settle delivery.settled s
      set (s, w)
      match next with
      | .ok run => finish insert n run
      | .error f => Action.fail f

end Run

/-- Inserts the records of a file by a function that may answer with a promise. The answer holds
their identifiers in order. -/
def Seeder.populateAsync {σ : Type} (source : Source σ) (filename : String) (decoder : Decoder σ)
    (insert : Registry → Value → StateM σ Delivery) : Action (Seeder × σ) (List Identifier) := do
  let run ← Run.start source filename decoder
  run.finish insert run.pending.length

end Seedbed
