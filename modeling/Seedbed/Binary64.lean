/-! Double-precision numbers. The finite magnitudes are numbered in ascending order from zero,
so an order on numbers is an order on their places, and rounding a quotient is finding the place
nearest to it. A tie goes to the even place. -/

namespace Seedbed

-- Powers are those of the core library, also where others are imported.
attribute [local instance (high)] instPowNat

/-- A finite number is a sign and the place of its magnitude among all finite magnitudes. -/
inductive Binary64
  | finite (negative : Bool) (place : Fin (2047 * 2 ^ (52 : Nat)))
  | infinite (negative : Bool)
  | nan
  deriving DecidableEq, Inhabited

namespace Binary64

def zero : Binary64 := .finite false 0

/-- The magnitude at a place is `m * 2 ^ e` for the pair `(m, e)`. -/
def scaled (place : Nat) : Nat × Int :=
  if place < 2 ^ (52 : Nat) then (place, -1074)
  else (2 ^ (52 : Nat) + place % 2 ^ (52 : Nat), (place / 2 ^ (52 : Nat) : Nat) - 1075)

def fraction (place : Nat) : Nat × Nat :=
  let (m, e) := scaled place
  (m * 2 ^ e.toNat, 2 ^ (-e).toNat)

/-- The whole number nearest to `n / d`, of two the even one. -/
def roundHalfEven (n d : Nat) : Nat :=
  let q := n / d
  let r := n % d
  if 2 * r < d then q
  else if d < 2 * r then q + 1
  else if q % 2 = 0 then q else q + 1

/-- The place nearest to `n / d`. From `2047 * 2 ^ 52` on it is beyond the finite ones. -/
def nearestPlace (n d : Nat) : Nat :=
  let b : Int := (n.log2 : Int) - d.log2
  let scaled (e : Int) : Nat × Nat := (n * 2 ^ (-e).toNat, d * 2 ^ e.toNat)
  let wide := scaled (b - 52)
  let e := max (-1074) (if wide.1 < 2 ^ (52 : Nat) * wide.2 then b - 53 else b - 52)
  let (n', d') := scaled e
  if n = 0 then 0 else (e + 1074).toNat * 2 ^ (52 : Nat) + roundHalfEven n' d'

def ofPlace (negative : Bool) (place : Nat) : Binary64 :=
  if h : place < 2047 * 2 ^ (52 : Nat) then .finite negative ⟨place, h⟩ else .infinite negative

/-- The number nearest to `± n / d`. -/
def ofRatio (negative : Bool) (n d : Nat) : Binary64 := ofPlace negative (nearestPlace n d)

/-- The number nearest to `± digits * 10 ^ e`. What is certainly beyond the largest number or
nearer to zero than to the smallest one is told from the exponent alone. -/
def ofDecimal (negative : Bool) (digits : Nat) (e : Int) : Binary64 :=
  if digits = 0 then .finite negative 0
  else if 310 ≤ e then .infinite negative
  else if (digits.log2 / 3 + 1 : Nat) + e < -324 then .finite negative 0
  else ofRatio negative (digits * 10 ^ e.toNat) (10 ^ (-e).toNat)

def ofInt (n : Int) : Binary64 := ofRatio (n < 0) n.natAbs 1

def ofNat (n : Nat) : Binary64 := ofInt n

/-- The place of a number among all numbers in ascending order, both zeros at the same one. -/
def rank? : Binary64 → Option Int
  | .finite false p => some (p.val : Int)
  | .finite true p => some (-(p.val : Int))
  | .infinite false => some (2047 * 2 ^ (52 : Nat))
  | .infinite true => some (-(2047 * 2 ^ (52 : Nat)))
  | .nan => none

/-- Equality as numbers: the zeros are equal, and NaN equals nothing. -/
def same (a b : Binary64) : Bool :=
  match a.rank?, b.rank? with
  | some x, some y => x == y
  | _, _ => false

/-- At most, as numbers. NaN is not comparable. -/
def atMost (a b : Binary64) : Bool :=
  match a.rank?, b.rank? with
  | some x, some y => decide (x ≤ y)
  | _, _ => false

def toInt? : Binary64 → Option Int
  | .finite negative p =>
    let (n, d) := fraction p
    if n % d = 0 then some (if negative then -((n / d : Nat) : Int) else (n / d : Nat)) else none
  | _ => none

def withSign (negative : Bool) : Binary64 → Binary64
  | .finite _ p => .finite negative p
  | .infinite _ => .infinite negative
  | .nan => .nan

def times (x : Binary64) (k : Nat) : Binary64 :=
  match x with
  | .finite negative p => ofRatio negative ((fraction p).1 * k) (fraction p).2
  | x => x

def plus : Binary64 → Binary64 → Binary64
  | .finite negative p, .finite _ q =>
    let (n, d) := fraction p
    let (m, e) := fraction q
    ofRatio negative (n * e + m * d) (d * e)
  | .finite .., y => y
  | x, _ => x

def isFinite : Binary64 → Bool
  | .finite .. => true
  | _ => false

end Binary64

end Seedbed
