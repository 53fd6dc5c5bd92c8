import Seedbed.Value
import Seedbed.Binary64.Text
import Seedbed.Failure
/-! The JSON text of a value, without spaces and with the fields in their order. Absent fields and
marks are left out, in lists they are written `null` like numbers that are not finite, an instant is
its ISO form, bytes are a record of their kind and their numbers, and sets and dictionaries are
empty records. Integers of any size and collections within themselves have no such text. -/

namespace Seedbed

namespace Json

def hexDigit (n : Nat) : Char := Nat.digitChar n

def escape (c : Char) : List Char :=
  match c with
  | '"' => ['\\', '"']
  | '\\' => ['\\', '\\']
  | '\x08' => ['\\', 'b']
  | '\x0c' => ['\\', 'f']
  | '\n' => ['\\', 'n']
  | '\r' => ['\\', 'r']
  | '\t' => ['\\', 't']
  | c =>
    if c.toNat < 0x20 then ['\\', 'u', '0', '0', hexDigit (c.toNat / 16), hexDigit (c.toNat % 16)]
    else [c]

def quote (s : String) : List Char := '"' :: s.toList.flatMap escape ++ ['"']

def number (x : Binary64) : List Char :=
  if x.isFinite then x.text.toList else "null".toList

def commas : List (List Char) → List Char
  | [] => []
  | [p] => p
  | p :: rest => p ++ ',' :: commas rest

def bytes (bs : List UInt8) : List Char :=
  "\x7b\"type\":\"Buffer\",\"data\":[".toList
    ++ commas (bs.map fun b => decimalDigits b.toNat) ++ [']', '}']

mutual

/-- The JSON text of a value that stands in the collections `around` it, the innermost first. -/
def write (around : List Link) : Value → Except Failure (List Char)
  | .absent | .null | .symbol _ => .ok "null".toList
  | .bool true => .ok "true".toList
  | .bool false => .ok "false".toList
  | .number x => .ok (number x)
  | .integer _ => .error .integerInJson
  | .text s => .ok (quote s)
  | .instant t => .ok (quote t.iso)
  | .bytes bs => .ok (bytes bs)
  | .list items => do return '[' :: commas (← writeItems around 0 items) ++ [']']
  | .record fields => do return '{' :: commas (← writeFields around fields) ++ ['}']
  | .set _ | .dictionary _ => .ok ['{', '}']
  | .enclosing up => .error (.circularJson (around.take (up + 1)).reverse)

def writeItems (around : List Link) (i : Nat) : List Value → Except Failure (List (List Char))
  | [] => return []
  | item :: rest => do
    let part ← write (⟨true, .item i⟩ :: around) item
    return part :: (← writeItems around (i + 1) rest)

def writeFields (around : List Link) : List (String × Value) → Except Failure (List (List Char))
  | [] => return []
  | (_, .absent) :: rest | (_, .symbol _) :: rest => writeFields around rest
  | (name, value) :: rest => do
    let part ← write (⟨false, .field name⟩ :: around) value
    return (quote name ++ ':' :: part) :: (← writeFields around rest)

end

end Json

end Seedbed
