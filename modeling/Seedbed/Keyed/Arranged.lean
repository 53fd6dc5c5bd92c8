import Seedbed.Keyed
/-! The order in which the fields of a record are listed: keys that are positions of a list
come first, ascending, and the others follow in the order of first writing. -/

namespace Seedbed

/-- The number that ASCII digits write, and `none` where another character stands. -/
def digitsValue? (cs : List Char) : Option Nat :=
  cs.foldlM (fun n c => if c.isDigit then some (n * 10 + (c.toNat - '0'.toNat)) else none) 0

/-- The position that a key writes: a decimal number without leading zeros below 2³² − 1. -/
def position? (key : String) : Option Nat :=
  match key.toList with
  | [] => none
  | ['0'] => some 0
  | '0' :: _ => none
  | cs => (digitsValue? cs).filter (· < 4294967295)

/-- The entries whose keys are positions, each with its position, ascending. -/
def positioned {α : Type u} (entries : List (String × α)) : List (Nat × String × α) :=
  (entries.filterMap fun e => (position? e.1).map (·, e)).mergeSort (fun a b => a.1 ≤ b.1)

/-- Positions first, ascending; then the other entries as they stand. -/
def arrange {α : Type u} (entries : List (String × α)) : List (String × α) :=
  (positioned entries).map (·.2) ++ entries.filter fun e => (position? e.1).isNone

/-- The fields that remain after writing the entries one after the other, as they are listed. -/
def fieldsOf {α : Type u} (entries : List (String × α)) : List (String × α) :=
  arrange (entries.foldl (fun fields e => putEntry e.1 e.2 fields) [])

example : fieldsOf [("b", 1), ("10", 2), ("2", 3), ("01", 4), ("b", 5)] =
    [("2", 3), ("10", 2), ("b", 5), ("01", 4)] := by cbv

end Seedbed
