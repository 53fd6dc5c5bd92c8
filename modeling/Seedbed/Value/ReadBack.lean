import Seedbed.Value.Json
/-! A value as log lines show it: without absent fields, with instants as texts and integers as
numbers, with no number that JSON can not write, and with a mark where a collection stands within
itself. -/

namespace Seedbed

namespace Value

mutual

def readBack : Value → Value
  | .absent | .null | .symbol _ => .null
  | .bool b => .bool b
  | .number x =>
    if !x.isFinite then .null else if x.rank? = some 0 then .number .zero else .number x
  | .integer n => .number (.ofInt n)
  | .text s => .text s
  | .instant t => .text t.iso
  | .bytes bs =>
    .record [("type", .text "Buffer"), ("data", .list (bs.map fun b => ofNat b.toNat))]
  | .list items => .list (itemsReadBack items)
  | .record fields => .record (fieldsReadBack fields)
  | .set _ | .dictionary _ => .record []
  | .enclosing _ => .text "[Circular]"

def itemsReadBack : List Value → List Value
  | [] => []
  | item :: rest => item.readBack :: itemsReadBack rest

def fieldsReadBack : List (String × Value) → List (String × Value)
  | [] => []
  | (_, .absent) :: rest | (_, .symbol _) :: rest => fieldsReadBack rest
  | (name, value) :: rest => (name, value.readBack) :: fieldsReadBack rest

end

end Value

end Seedbed
