import Seedbed.Text.Units
import Seedbed.Yaml.Scalar
/-! Values of scalars with a tag: those of the schema, bytes, and in version 1.2 timestamps and the
mark of merges, which are no part of its schema. A tag that is not known, or that the text does not
fit, leaves a text. -/

namespace Seedbed

namespace Yaml

namespace Scalar

def binaryTag : String := "tag:yaml.org,2002:binary"

/-- The number that a digit of base 64 stands for, in either of its alphabets. -/
def base64Digit? (c : Char) : Option Nat :=
  if c.isUpper then some (c.toNat - 'A'.toNat)
  else if c.isLower then some (c.toNat - 'a'.toNat + 26)
  else if c.isDigit then some (c.toNat - '0'.toNat + 52)
  else if c = '+' || c = '-' then some 62
  else if c = '/' || c = '_' then some 63
  else none

def base64Bytes : List Nat → List UInt8
  | a :: b :: c :: d :: rest =>
    (a * 4 + b / 16).toUInt8 :: (b % 16 * 16 + c / 4).toUInt8 :: (c % 4 * 64 + d).toUInt8
      :: base64Bytes rest
  | [a, b, c] => [(a * 4 + b / 16).toUInt8, (b % 16 * 16 + c / 4).toUInt8]
  | [a, b] => [(a * 4 + b / 16).toUInt8]
  | _ => []

/-- The bytes that a text in base 64 writes, up to the first `=`. Of each UTF-16 unit the low byte
counts, and what is no digit is passed over. -/
def bytesOf (cs : List Char) : List UInt8 :=
  let lows := (cs.flatMap codeUnits).map fun u => Char.ofNat (u % 256)
  base64Bytes ((lows.takeWhile (· ≠ '=')).filterMap base64Digit?)

/-- The value of a scalar with a tag. In version 1.2 there is none where a timestamp is malformed.
-/
def taggedValue? (version : Version) (tag : String) (cs : List Char) : Option Value :=
  if tag = binaryTag then some (.bytes (bytesOf cs))
  else if version = .v1_2 ∧ tag = timestampTag then (timestamp? cs).map .instant
  else if version = .v1_2 ∧ tag = mergeTag then some mergeMark
  else some ((schemaValue? version tag cs).getD (.text (.ofList cs)))

end Scalar

end Yaml

end Seedbed
