import Seedbed.Seeder.Run
import Seedbed.Sql.Insert
/-! Inserting records as rows of a table. The row is the record itself, or it is made of chosen
fields, or by any function; the identifier is the value of one column of the row that the database
answers with. -/

namespace Seedbed

abbrev Querier (σ : Type) := String → List Value → Action σ (List Value)

structure RowMapping (σ : Type) where
  table : String
  /-- The column of the row that is returned in which the identifier stands. -/
  idColumn : String := defaultIdColumn
  toRow : Value → Action σ Value

namespace RowMapping

variable {σ : Type}

/-- The identifier in the rows that a query answered with. -/
def identifier? (idColumn : String) (rows : List Value) : Option Identifier :=
  match rows with
  | [] => none
  | row :: _ => (row.field? idColumn).bind Identifier.ofValue?

def noIdentifier (mapping : RowMapping σ) : Failure :=
  .plain s!"INSERT INTO {mapping.table} returned no `{mapping.idColumn}`"

/-- Inserts a record as a row. -/
def insert (mapping : RowMapping σ) (run : Querier σ) (record : Value) : Action σ Identifier := do
  let row ← mapping.toRow record
  let q ← Action.ofExcept .failure (Query.insert mapping.table row mapping.idColumn)
  let rows ← run q.sql q.parameters
  match identifier? mapping.idColumn rows with
  | some id => return id
  | none => throw (.failure mapping.noIdentifier)

def inserter (mapping : RowMapping σ) (run : Querier σ) : Registry → Value → StateM σ Delivery :=
  fun _ record => do return .promised (← (mapping.insert run record).run)

end RowMapping

structure Table where
  name : String
  idColumn : String := defaultIdColumn
  /-- The columns that are written, each with the field it is made of; all fields of the record
  where there is no such choice. -/
  columns : Option (List (String × String)) := none

namespace Table

def chosenField (record : Value) (choice : String × String) : Except Failure (String × Value) :=
  match record.field? choice.2 with
  | some v => .ok (choice.1, v)
  | none => .error (.fieldOfNothing record.toText choice.2)

def chosenFields (record : Value) (columns : List (String × String)) : Except Failure Value := do
  return Value.ofFields (← columns.mapM (chosenField record))

def row (t : Table) (record : Value) : Except Failure Value :=
  match t.columns with
  | some columns => chosenFields record columns
  | none =>
    match record.fields? with
    | some fields => .ok (Value.ofFields fields)
    | none => .error .noFields

def mapping {σ : Type} (t : Table) : RowMapping σ where
  table := t.name
  idColumn := t.idColumn
  toRow record := Action.ofExcept .failure (t.row record)

def insert {σ : Type} (t : Table) (run : Querier σ) (record : Value) : Action σ Identifier :=
  t.mapping.insert run record

end Table

end Seedbed
