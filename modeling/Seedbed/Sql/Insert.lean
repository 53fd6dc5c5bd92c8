import Seedbed.Failure
import Seedbed.Value.Json
/-! `INSERT` statements for one row. Every name is a delimited identifier, every value is a
parameter, and fields that are not set are left to the defaults of their columns. -/

namespace Seedbed

structure Insert where
  table : String
  columns : List String
  returning : String
  deriving DecidableEq, Repr

namespace Insert

/-- The characters of a delimited identifier: a quote within the name is written twice. -/
def delimit (name : List Char) : List Char :=
  '"' :: name.flatMap (fun c => if c = '"' then ['"', '"'] else [c]) ++ ['"']

def identifier (name : String) : String := .ofList (delimit name.toList)

def commaSeparated (parts : List String) : String := ", ".intercalate parts

/-- The placeholder of the parameter with the given number, counted from one. -/
def placeholder (n : Nat) : String := "$" ++ toString n

/-- The statement, with one parameter for each column. -/
def sql (i : Insert) : String :=
  let into := "INSERT INTO " ++ identifier i.table
  let returning := "RETURNING " ++ identifier i.returning
  if i.columns.isEmpty then into ++ " DEFAULT VALUES " ++ returning
  else
    into ++ " (" ++ commaSeparated (i.columns.map identifier) ++ ") VALUES ("
      ++ commaSeparated ((List.range i.columns.length).map fun n => placeholder (n + 1)) ++ ") "
      ++ returning

end Insert

namespace Value

/-- A value as a query parameter: a collection is passed as its JSON text. -/
def parameter (v : Value) : Except Failure Value :=
  match v with
  | .list _ | .record _ | .set _ | .dictionary _ | .enclosing _ =>
    (Json.write [] v).map fun cs => .text (.ofList cs)
  | v => .ok v

end Value

structure Query where
  statement : Insert
  parameters : List Value

namespace Query

def parametersOf (fields : List (String × Value)) : Except Failure (List (String × Value)) :=
  (fields.filter fun f => !f.2.isAbsent).mapM fun f => f.2.parameter.map (f.1, ·)

def insert (table : String) (row : Value) (idColumn : String) : Except Failure Query :=
  match row.fields? with
  | none => .error .noFields
  | some fields => do
    let set ← parametersOf fields
    return ⟨⟨table, set.map (·.1), idColumn⟩, set.map (·.2)⟩

def sql (q : Query) : String := q.statement.sql

end Query

def defaultIdColumn : String := "id"

end Seedbed
