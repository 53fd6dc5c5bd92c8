import Seedbed.Binary64.Numeral
/-! Numbers among the plain scalars of both versions of YAML. Version 1.2 has integers in three
bases. In version 1.1 there are four, `_` may stand between digits, and colons part a number in base
sixty. -/

namespace Seedbed

namespace Yaml

/-- The versions of YAML, which differ in the values of scalars. -/
inductive Version
  | v1_1
  | v1_2
  deriving DecidableEq, Repr

namespace Scalar

def isOctalDigit (c : Char) : Bool := '0' ≤ c && c ≤ '7'

def isBinaryDigit (c : Char) : Bool := c = '0' || c = '1'

def special? (cs : List Char) : Option Binary64 :=
  let (negative, rest) := Numeral.sign cs
  if [".inf", ".Inf", ".INF"].any (·.toList = rest) then some (.infinite negative)
  else if [".nan", ".NaN", ".NAN"].any (·.toList = cs) then some .nan
  else none

/-! ### Version 1.2 -/

def coreInt? (cs : List Char) : Option Binary64 :=
  match cs with
  | '0' :: 'o' :: ds@(_ :: _) =>
    if ds.all isOctalDigit then some (.ofNat (valueOfDigits 8 ds)) else none
  | '0' :: 'x' :: ds@(_ :: _) =>
    if ds.all isHexDigit then some (.ofNat (valueOfDigits 16 ds)) else none
  | cs => ((Numeral.read? cs).filter Numeral.isWhole).map Numeral.value

def coreFloat? (cs : List Char) : Option Binary64 :=
  ((Numeral.read? cs).filter (!·.isWhole)).map Numeral.value

/-! ### Version 1.1 -/

def isGrouped (isDigit : Char → Bool) (cs : List Char) : Bool :=
  cs.all fun c => isDigit c || c = '_'

def ungrouped (cs : List Char) : List Char := cs.filter (· ≠ '_')

/-- The number that digits write in a base, which is NaN where there are none. -/
def wholeOf (negative : Bool) (base : Nat) (cs : List Char) : Binary64 :=
  let ds := ungrouped cs
  if ds = [] then .nan else .ofRatio negative (valueOfDigits base ds) 1

def isDecimal : List Char → Bool
  | [] => false
  | c :: rest => c.isDigit && isGrouped Char.isDigit rest

def groupedInt? (cs : List Char) : Option Binary64 :=
  let (negative, rest) := Numeral.sign cs
  match rest with
  | '0' :: 'b' :: ds@(_ :: _) =>
    if isGrouped isBinaryDigit ds then some (wholeOf negative 2 ds) else none
  | '0' :: 'x' :: ds@(_ :: _) =>
    if isGrouped isHexDigit ds then some (wholeOf negative 16 ds) else none
  | ds =>
    if ds.head? = some '0' && ds.length ≠ 1 && isGrouped isOctalDigit ds then
      some (wholeOf negative 8 ds.tail)
    else if isDecimal ds then some (wholeOf negative 10 ds)
    else none

def numberOf (cs : List Char) : Binary64 := ((Numeral.read? cs).map Numeral.value).getD .nan

/-- A number with a point or an exponent. Beside these there need be no digits. -/
def groupedFloat? (cs : List Char) : Option Binary64 :=
  let isPart (c : Char) : Bool := c.isDigit || c = '_'
  let (_, rest) := Numeral.sign cs
  let after := rest.dropWhile isPart
  if rest.head? = some '_' then none
  else
    match Numeral.exponent? (if after.head? = some '.' then after.tail.dropWhile isPart else after) with
    | some exponent =>
      if exponent.isSome || after.head? = some '.' then some (numberOf (ungrouped cs)) else none
    | none => none

/-- The parts of a text between colons. -/
def betweenColons (cs : List Char) : List (List Char) :=
  cs.foldr (fun c parts =>
    if c = ':' then [] :: parts else (c :: parts.headD []) :: parts.tail) [[]]

/-- A digit of base sixty, in one or two decimal digits. -/
def isSixtieth : List Char → Bool
  | [c] => c.isDigit
  | [a, b] => '0' ≤ a && a ≤ '5' && b.isDigit
  | _ => false

def sexagesimal? (hasPoint : Bool) (cs : List Char) : Option Binary64 :=
  let (negative, rest) := Numeral.sign cs
  let part := rest.dropWhile (· ≠ '.')
  match betweenColons (rest.takeWhile (· ≠ '.')) with
  | first :: more@(_ :: _) =>
    if isDecimal first && more.all isSixtieth && part.isEmpty != hasPoint
        && isGrouped Char.isDigit part.tail then
      let digits := (betweenColons (ungrouped rest)).map numberOf
      let magnitude := digits.foldl (fun x y => (Binary64.times x 60).plus y) .zero
      some (magnitude.withSign negative)
    else none
  | _ => none

/-! ### Both versions -/

def int? (version : Version) (cs : List Char) : Option Binary64 :=
  match version with
  | .v1_1 => groupedInt? cs <|> sexagesimal? false cs
  | .v1_2 => coreInt? cs

def float? (version : Version) (cs : List Char) : Option Binary64 :=
  special? cs <|>
    match version with
    | .v1_1 => groupedFloat? cs <|> sexagesimal? true cs
    | .v1_2 => coreFloat? cs

end Scalar

end Yaml

end Seedbed
