/-!
# Civil dates

Days are counted from 1 January 1970 in the proleptic Gregorian calendar.  A
cycle of 400 years has 146097 days; within it, years are taken to begin in March,
so that the leap day is the last of its year.
-/

namespace QueryReplay

/-- A date by its year, its month from 1 and its day from 1. -/
structure CivilDate where
  year : Int
  month : Nat
  day : Nat
deriving DecidableEq, Repr

namespace CivilDate

/-- The days of a 400-year cycle. -/
def cycleDays : Nat := 146097

/-- The days from 1 March 0000 to 1 January 1970. -/
def epochOffset : Int := 719468

/-- The year of a cycle, counted from March, in which a day of the cycle falls. -/
def yearOfCycle (day : Nat) : Nat := (day - day / 1460 + day / 36524 - day / 146096) / 365

/-- The day of the cycle on which a year of it begins. -/
def startOfYear (year : Nat) : Nat := 365 * year + year / 4 - year / 100

/-- The month, counted from March, in which a day of such a year falls. -/
def monthOfYear (day : Nat) : Nat := (5 * day + 2) / 153

/-- The day on which a month, counted from March, begins. -/
def startOfMonth (month : Nat) : Nat := (153 * month + 2) / 5

/-- The date that a number of days falls on. -/
def ofDays (days : Int) : CivilDate :=
  let z := days + epochOffset
  let cycle := z.fdiv cycleDays
  let day := (z.fmod cycleDays).toNat
  let year := yearOfCycle day
  let dayOfYear := day - startOfYear year
  let month := monthOfYear dayOfYear
  { year := cycle * 400 + year + (if month < 10 then 0 else 1)
    month := if month < 10 then month + 3 else month - 9
    day := dayOfYear - startOfMonth month + 1 }

/-- The number of days of a date. -/
def toDays (d : CivilDate) : Int :=
  let year := if d.month ≤ 2 then d.year - 1 else d.year
  let cycle := year.fdiv 400
  let yearOfCycle := (year.fmod 400).toNat
  let month := if d.month ≤ 2 then d.month + 9 else d.month - 3
  cycle * cycleDays + (startOfYear yearOfCycle + startOfMonth month + (d.day - 1) : Nat)
    - epochOffset

end CivilDate

/-- A number in at least `width` digits. -/
def padded (width n : Nat) : String :=
  let digits := Nat.toDigits 10 n
  String.ofList (List.replicate (width - digits.length) '0' ++ digits)

namespace CivilDate

/-- The year in at least four digits, with a sign if it is negative or beyond 9999. -/
def renderYear (year : Int) : String :=
  if year < 0 then "-" ++ padded 4 year.natAbs
  else if 9999 < year then "+" ++ padded 4 year.natAbs
  else padded 4 year.natAbs

/-- Year, month and day. -/
def render (d : CivilDate) : String :=
  renderYear d.year ++ "-" ++ padded 2 d.month ++ "-" ++ padded 2 d.day

/-- The years that dates are shown for. -/
def inRange (d : CivilDate) : Bool := -262143 ≤ d.year && d.year ≤ 262142

end CivilDate

/-- The date and time of day of a number of seconds from the beginning of 1970. -/
def renderInstant (seconds : Int) : String :=
  let time := (seconds.fmod 86400).toNat
  (CivilDate.ofDays (seconds.fdiv 86400)).render ++ " " ++ padded 2 (time / 3600) ++ ":"
    ++ padded 2 (time / 60 % 60) ++ ":" ++ padded 2 (time % 60)

end QueryReplay
