import Seedbed.Binary64
/-! Decimal numerals: a sign, digits, a point with digits after it, and an exponent. At least one
digit stands beside the point; all parts but the digits may be missing. -/

namespace Seedbed

/-- The number that ASCII digits write in a base up to sixteen. -/
def valueOfDigits (base : Nat) (cs : List Char) : Nat :=
  cs.foldl (fun n c => n * base + digit c) 0
where
  digit (c : Char) : Nat :=
    if c.isDigit then c.toNat - '0'.toNat
    else if c.isLower then c.toNat - 'a'.toNat + 10
    else c.toNat - 'A'.toNat + 10

def isHexDigit (c : Char) : Bool :=
  c.isDigit || ('a' ≤ c && c ≤ 'f') || ('A' ≤ c && c ≤ 'F')

structure Numeral where
  negative : Bool := false
  whole : List Char
  part : Option (List Char) := none
  exponent : Option Int := none

namespace Numeral

def sign (cs : List Char) : Bool × List Char :=
  match cs with
  | '-' :: rest => (true, rest)
  | '+' :: rest => (false, rest)
  | _ => (false, cs)

def exponent? (cs : List Char) : Option (Option Int) :=
  match cs with
  | [] => some none
  | c :: rest =>
    let (negative, digits) := sign rest
    if (c = 'e' ∨ c = 'E') ∧ digits ≠ [] ∧ digits.all Char.isDigit then
      let n : Int := valueOfDigits 10 digits
      some (some (if negative then -n else n))
    else none

def read? (cs : List Char) : Option Numeral :=
  let (negative, cs) := sign cs
  let whole := cs.takeWhile Char.isDigit
  let (part, cs) :=
    match cs.dropWhile Char.isDigit with
    | '.' :: rest => (some (rest.takeWhile Char.isDigit), rest.dropWhile Char.isDigit)
    | rest => (none, rest)
  if whole = [] ∧ part.getD [] = [] then none
  else (exponent? cs).map fun exponent => { negative, whole, part, exponent }

def isWhole (n : Numeral) : Bool := n.part.isNone && n.exponent.isNone

def value (n : Numeral) : Binary64 :=
  let part := n.part.getD []
  .ofDecimal n.negative (valueOfDigits 10 (n.whole ++ part)) (n.exponent.getD 0 - part.length)

end Numeral

end Seedbed
