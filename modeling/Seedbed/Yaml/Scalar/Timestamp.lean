import Seedbed.Binary64.Numeral
import Seedbed.Instant
/-! Timestamps: a date, or a date with a time of day and a time zone. -/

namespace Seedbed

namespace Yaml

namespace Scalar

/-- A number of at least `low` and at most `high` digits at the beginning. -/
def digits? (low high : Nat) (cs : List Char) : Option (Nat × List Char) :=
  let ds := (cs.take high).takeWhile Char.isDigit
  if low ≤ ds.length then some (valueOfDigits 10 ds, cs.drop ds.length) else none

def char? (c : Char) : List Char → Option (List Char)
  | x :: rest => if x = c then some rest else none
  | [] => none

def thousandths? (cs : List Char) : Option (Nat × List Char) :=
  match cs with
  | '.' :: rest =>
    let ds := rest.takeWhile Char.isDigit
    if ds = [] then none
    else some (valueOfDigits 10 ((ds ++ ['0', '0']).take 3), rest.drop ds.length)
  | cs => some (0, cs)

/-- The minutes of a time zone. A number below thirty counts hours. -/
def zone? (cs : List Char) : Option Int :=
  match cs.dropWhile isBlankOrTab with
  | [] => if cs = [] then some 0 else none
  | ['Z'] => some 0
  | c :: rest =>
    if c = '+' || c = '-' then do
      let (hours, after) ← hours? rest
      let n ← match after with
        | [] => some hours
        | ':' :: ds => do
          let (minutes, after) ← digits? 2 2 ds
          if after = [] then some (hours * 60 + minutes) else none
        | _ => none
      let n : Int := if n < 30 then n * 60 else n
      return if c = '-' then -n else n
    else none
where
  isBlankOrTab (c : Char) : Bool := c = ' ' || c = '\t'
  /-- One digit, or two of which the first is at most two. -/
  hours? (cs : List Char) : Option (Nat × List Char) :=
    match cs with
    | a :: b :: _ =>
      if ('0' ≤ a && a ≤ '2') && b.isDigit then digits? 2 2 cs else digits? 1 1 cs
    | _ => digits? 1 1 cs

def timeOfDay? (cs : List Char) : Option Int := do
  let cs ←
    match cs with
    | 't' :: rest | 'T' :: rest => some rest
    | ' ' :: _ | '\t' :: _ => some (cs.dropWhile fun c => c = ' ' || c = '\t')
    | _ => none
  let (hour, cs) ← digits? 1 2 cs
  let (minute, cs) ← digits? 1 2 (← char? ':' cs)
  let (second, cs) ← digits? 1 2 (← char? ':' cs)
  let (millis, cs) ← thousandths? cs
  let zone ← zone? cs
  return ((hour * 60 + minute) * 60 + second) * 1000 + millis - zone * 60000

/-- The instant that a timestamp names. Years below one hundred are of the twentieth century. -/
def timestamp? (cs : List Char) : Option Instant := do
  let (year, cs) ← digits? 4 4 cs
  let (month, cs) ← digits? 1 2 (← char? '-' cs)
  let (day, cs) ← digits? 1 2 (← char? '-' cs)
  let millis ← if cs = [] then some 0 else timeOfDay? cs
  return .ofParts (if year < 100 then 1900 + year else year) month day 0 0 0 millis

end Scalar

end Yaml

end Seedbed
