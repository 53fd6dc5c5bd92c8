import Seedbed.Action
import Seedbed.Log
/-! A database client on a pool of connections, and transactions on one connection of it. A
transaction within a transaction joins it. The connection goes back to the pool once, after the
last statement. -/

namespace Seedbed

namespace Database

structure Outcome where
  rows : List Value
  rowCount : Int

def Outcome.ofRows (rows : List Value) (rowCount : Option Int) : Outcome :=
  { rows, rowCount := rowCount.getD 0 }

/-- Where a statement is sent: to any connection, or to the one that is taken. -/
inductive Target
  | pool
  | connection
  deriving DecidableEq, Repr

structure Pool where
  connectionString : Value
  maxConnections : Value := .ofNat 1
  idleTimeoutMillis : Nat := 10000
  connectionTimeoutMillis : Nat := 5000

structure Link (σ : Type) where
  connect : Action σ Unit
  send : Target → String → Option (List Value) → Action σ Outcome
  release : Action σ Unit
  close : Action σ Unit

abbrev Sender (σ : Type) := String → Option (List Value) → Action σ Outcome

def rowsOf {σ : Type} (send : Sender σ) (sql : String) (parameters : List Value) :
    Action σ (List Value) := do
  return (← send sql (some parameters)).rows

/-- A client of the database: one for the whole pool, or the one within a transaction. -/
inductive Client
  | whole
  | inTransaction
  deriving DecidableEq, Repr

namespace Client

variable {σ α : Type}

def query (link : Link σ) (client : Client) (sql : String) (parameters : Option (List Value)) :
    Action σ Outcome :=
  match client with
  | whole => link.send .pool sql parameters
  | inTransaction => link.send .connection sql parameters

def control (link : Link σ) (sql : String) : Action σ Unit :=
  discard (link.send .connection sql none)

/-- The statements of a transaction on a connection that is taken. -/
def inBrackets (link : Link σ) (body : Client → Action σ α) : Action σ α :=
  tryCatch
    (do
      control link "BEGIN"
      let a ← body inTransaction
      control link "COMMIT"
      return a)
    fun e => do
      control link "ROLLBACK"
      throw e

def transaction (link : Link σ) (client : Client) (body : Client → Action σ α) : Action σ α :=
  match client with
  | inTransaction => body inTransaction
  | whole => do
    link.connect
    let r ← (inBrackets link body).outcome
    link.release
    Action.ofExcept id r

def close (link : Link σ) (client : Client) : Action σ Unit :=
  match client with
  | whole => link.close
  | inTransaction => throw (.failure (.plain "Cannot end the pool inside a transaction"))

end Client

end Database

end Seedbed
