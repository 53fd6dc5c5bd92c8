import Seedbed.Binary64
/-! The text of a number: the fewest decimal digits that read back as the number, of several
such digit strings the nearest to it. Magnitudes from 10⁻⁶ to below 10²¹ are written
positionally, all others with an exponent. -/

namespace Seedbed

attribute [local instance (high)] instPowNat

def decimalDigits (n : Nat) : List Char := Nat.toDigits 10 n

namespace Binary64

structure Decimal where
  digits : Nat
  exponent : Int
  deriving DecidableEq, Repr

/-- The exponent of the power of ten at or below the positive fraction `n / d`. -/
def tenExponent (n d : Nat) : Int :=
  if d ≤ n then (decimalDigits (n / d)).length - 1
  else
    let places := (decimalDigits (d / n)).length
    if d = n * 10 ^ (places - 1) then 1 - (places : Int) else -(places : Int)

/-- The two neighbours of `n / d` among the multiples of `10 ^ e`, the nearer one first and of
two equally near ones the even one. -/
def neighbours (n d : Nat) (e : Int) : List Decimal :=
  let n' := n * 10 ^ (-e).toNat
  let d' := d * 10 ^ e.toNat
  let low := n' / d'
  let near := roundHalfEven n' d'
  [⟨near, e⟩, ⟨if near = low then low + 1 else low, e⟩]

/-- Drops final zeros of the digits. -/
def Decimal.trim (x : Decimal) : Decimal :=
  let zeros := ((decimalDigits x.digits).reverse.takeWhile (· = '0')).length
  if x.digits = 0 then x else ⟨x.digits / 10 ^ zeros, x.exponent + zeros⟩

/-- The decimal with the fewest digits that reads back as the number at the place, of those the
nearest. Seventeen digits always read back. -/
def shortest (place : Nat) : Decimal :=
  let (n, d) := fraction place
  let top := tenExponent n d
  let onGrid (k : Nat) : Option Decimal :=
    (neighbours n d (top - k)).find? fun x =>
      ofDecimal false x.digits x.exponent = ofPlace false place
  (((List.range 17).findSome? onGrid).getD ⟨n * 5 ^ d.log2, -d.log2⟩).trim

def layout (x : Decimal) : List Char :=
  let ds := decimalDigits x.digits
  let k := ds.length
  let point : Int := k + x.exponent
  if k ≤ point ∧ point ≤ 21 then ds ++ List.replicate (point - k).toNat '0'
  else if 0 < point ∧ point ≤ 21 then ds.take point.toNat ++ '.' :: ds.drop point.toNat
  else if -6 < point ∧ point ≤ 0 then '0' :: '.' :: List.replicate (-point).toNat '0' ++ ds
  else
    let e := point - 1
    let mantissa := if k = 1 then ds else ds.take 1 ++ '.' :: ds.drop 1
    mantissa ++ 'e' :: (if e < 0 then '-' else '+') :: decimalDigits e.natAbs

/-- The text of a number. A zero has no sign. -/
def text : Binary64 → String
  | .nan => "NaN"
  | .infinite false => "Infinity"
  | .infinite true => "-Infinity"
  | .finite negative p =>
    if p.val = 0 then "0"
    else String.ofList ((if negative then ['-'] else []) ++ layout (shortest p))

end Binary64

end Seedbed
