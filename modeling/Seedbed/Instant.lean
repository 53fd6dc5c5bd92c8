import Seedbed.Text.Padded
/-! Points in time: milliseconds since the start of 1970, in the proleptic Gregorian calendar and
universal time. Two written forms: the one of ISO 8601 and a long one for messages. -/

namespace Seedbed

structure Instant where
  millis : Int
  deriving DecidableEq, Repr, Inhabited

namespace Instant

def millisPerDay : Int := 86400000

/-- The days from the start of 1970 to a day of the calendar. Months and days beyond their
ranges count on into the neighbouring ones. -/
def dayNumber (year month day : Int) : Int :=
  let y := year + (month - 1) / 12 - (if (month - 1) % 12 < 2 then 1 else 0)
  let fromMarch := ((month - 1) % 12 + 10) % 12
  y * 365 + y / 4 - y / 100 + y / 400 + (153 * fromMarch + 2) / 5 + day - 1 - 719468

def civil (days : Int) : Int × Int × Int :=
  let z := days + 719468
  let era := z / 146097
  let doe := z % 146097
  let yoe := (doe - doe / 1460 + doe / 36524 - doe / 146096) / 365
  let doy := doe - (365 * yoe + yoe / 4 - yoe / 100)
  let mp := (5 * doy + 2) / 153
  let month := if mp < 10 then mp + 3 else mp - 9
  (yoe + era * 400 + (if month ≤ 2 then 1 else 0), month, doy - (153 * mp + 2) / 5 + 1)

/-- The instant of a date and a time of day. Every part may be beyond its range. -/
def ofParts (year month day hour minute second millis : Int) : Instant :=
  ⟨dayNumber year month day * millisPerDay + hour * 3600000 + minute * 60000 + second * 1000
    + millis⟩

structure Parts where
  year : Int
  month : Nat
  day : Nat
  hour : Nat
  minute : Nat
  second : Nat
  millis : Nat
  /-- The day of the week, from Sunday. -/
  weekday : Nat
  deriving DecidableEq, Repr

def parts (t : Instant) : Parts :=
  let days := t.millis / millisPerDay
  let ms := (t.millis % millisPerDay).toNat
  let (y, m, d) := civil days
  { year := y, month := m.toNat, day := d.toNat, hour := ms / 3600000, minute := ms / 60000 % 60,
    second := ms / 1000 % 60, millis := ms % 1000, weekday := ((days + 4) % 7).toNat }

/-- A year of four digits, others with a sign and six. -/
def isoYear (year : Int) : List Char :=
  if 0 ≤ year ∧ year ≤ 9999 then padded 4 year.toNat
  else (if year < 0 then '-' else '+') :: padded 6 year.natAbs

def iso (t : Instant) : String :=
  let p := t.parts
  String.ofList (isoYear p.year ++ '-' :: padded 2 p.month ++ '-' :: padded 2 p.day
    ++ 'T' :: padded 2 p.hour ++ ':' :: padded 2 p.minute ++ ':' :: padded 2 p.second
    ++ '.' :: padded 3 p.millis ++ ['Z'])

def weekdayNames : List String := ["Sun", "Mon", "Tue", "Wed", "Thu", "Fri", "Sat"]

def monthNames : List String :=
  ["Jan", "Feb", "Mar", "Apr", "May", "Jun", "Jul", "Aug", "Sep", "Oct", "Nov", "Dec"]

/-- The long form, as in `Tue Jan 02 2024 03:04:05 GMT+0000 (Coordinated Universal Time)`. -/
def long (t : Instant) : String :=
  let p := t.parts
  let year := (if p.year < 0 then ['-'] else []) ++ padded (if p.year < 0 then 6 else 4) p.year.natAbs
  weekdayNames.getD p.weekday "" ++ " " ++ monthNames.getD (p.month - 1) "" ++ " "
    ++ String.ofList (padded 2 p.day ++ ' ' :: year ++ ' ' :: padded 2 p.hour
      ++ ':' :: padded 2 p.minute ++ ':' :: padded 2 p.second)
    ++ " GMT+0000 (Coordinated Universal Time)"

example : iso ⟨1704164645678⟩ = "2024-01-02T03:04:05.678Z" := by decide +kernel

example : iso ⟨-1⟩ = "1969-12-31T23:59:59.999Z" := by decide +kernel

example : ofParts 2024 2 29 0 0 0 0 = ofParts 2024 1 60 0 0 0 0 := by decide +kernel

end Instant

end Seedbed
