/-! UTF-16 code units and lengths in them: a character beyond the basic plane counts twice. -/

namespace Seedbed

-- Sums begin with the zero of the core library, also where others are imported.
attribute [local instance (high)] Zero.ofOfNat0

/-- The UTF-16 code units that a character takes. -/
def unitsOf (c : Char) : Nat := if c.toNat < 0x10000 then 1 else 2

/-- The UTF-16 code units that a text takes. -/
def units16 (cs : List Char) : Nat := (cs.map unitsOf).sum

@[simp] theorem units16_nil : units16 [] = 0 := rfl

@[simp] theorem units16_cons (c : Char) (cs : List Char) :
    units16 (c :: cs) = unitsOf c + units16 cs := by simp [units16]

@[simp] theorem units16_append (a b : List Char) : units16 (a ++ b) = units16 a + units16 b := by
  simp [units16]

def codeUnits (c : Char) : List Nat :=
  let n := c.toNat
  if n < 0x10000 then [n]
  else [0xD800 + (n - 0x10000) / 1024, 0xDC00 + (n - 0x10000) % 1024]

theorem length_codeUnits (c : Char) : (codeUnits c).length = unitsOf c := by
  simp only [codeUnits, unitsOf]
  split <;> rfl

theorem length_le_units16 (cs : List Char) : cs.length ≤ units16 cs := by
  induction cs with
  | nil => simp
  | cons c r ih => simp only [List.length_cons, units16_cons, unitsOf]; split <;> omega

end Seedbed
