/-! Text from UTF-8 bytes. What is not a character is read as U+FFFD, once for each longest run of
bytes that could have begun a character. -/

namespace Seedbed

namespace Utf8

/-- A character of several bytes, some of them still to come. -/
structure Partial where
  bits : Nat
  /-- The bytes to come, less one. -/
  more : Nat
  low : Nat
  high : Nat

inductive Start
  | whole (c : Char)
  | opening (p : Partial)
  | invalid

def start (b : Nat) : Start :=
  if b < 0x80 then .whole (Char.ofNat b)
  else if b < 0xC2 then .invalid
  else if b < 0xE0 then .opening ⟨b - 0xC0, 0, 0x80, 0xBF⟩
  else if b < 0xF0 then
    .opening ⟨b - 0xE0, 1, if b = 0xE0 then 0xA0 else 0x80, if b = 0xED then 0x9F else 0xBF⟩
  else if b < 0xF5 then
    .opening ⟨b - 0xF0, 2, if b = 0xF0 then 0x90 else 0x80, if b = 0xF4 then 0x8F else 0xBF⟩
  else .invalid

def replacement : Char := '\uFFFD'

/-- The characters of the bytes, after the bytes of an unfinished character. -/
def decodeFrom : Option Partial → List UInt8 → List Char
  | none, [] => []
  | some _, [] => [replacement]
  | none, b :: rest =>
    match start b.toNat with
    | .whole c => c :: decodeFrom none rest
    | .opening p => decodeFrom (some p) rest
    | .invalid => replacement :: decodeFrom none rest
  | some p, b :: rest =>
    if p.low ≤ b.toNat ∧ b.toNat ≤ p.high then
      let bits := p.bits * 64 + (b.toNat - 0x80)
      match p.more with
      | 0 => Char.ofNat bits :: decodeFrom none rest
      | more + 1 => decodeFrom (some ⟨bits, more, 0x80, 0xBF⟩) rest
    else
      match start b.toNat with
      | .whole c => replacement :: c :: decodeFrom none rest
      | .opening q => replacement :: decodeFrom (some q) rest
      | .invalid => replacement :: replacement :: decodeFrom none rest

def decode (bytes : List UInt8) : String := String.ofList (decodeFrom none bytes)

example : decode [0xE2, 0x82, 0xAC, 0xF0, 0x90, 0x41, 0xC0] = "€\uFFFDA\uFFFD" := by decide +kernel

end Utf8

end Seedbed
