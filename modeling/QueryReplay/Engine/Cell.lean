import QueryReplay.Calendar.Civil
import QueryReplay.Json.Value
import QueryReplay.Text.Utf8

/-!
# Cells of a query result

What an engine can answer in a cell, and the document value that shows it.
Whole numbers stay whole as long as 64 bits hold them; dates and instants are
shown as text, unless their year is out of range.
-/

namespace QueryReplay

-- powers are the core library's, also beside the instances that Mathlib declares
attribute [local instance (high)] instPowNat

/-- The unit in which an instant is counted. -/
inductive TimeUnit where
  | second | millisecond | microsecond | nanosecond
deriving DecidableEq, Repr

/-- A cell of an engine's answer. -/
inductive Cell where
  | null
  | boolean (b : Bool)
  /-- A whole number of at most 64 bits. -/
  | integer (n : Int)
  /-- A whole number of 128 bits. -/
  | huge (n : Int)
  | double (x : Double)
  /-- `unscaled / 10^scale`. -/
  | decimal (unscaled : Int) (scale : Nat)
  | text (utf8 : List Nat)
  | blob (size : Nat)
  /-- Days from the beginning of 1970. -/
  | date (days : Int)
  /-- An instant in some unit from the beginning of 1970. -/
  | timestamp (unit : TimeUnit) (count : Int)
  /-- A cell of a type that is not shown. -/
  | other
deriving DecidableEq, Repr

/-- An instant in microseconds, when 64 bits hold it.  Nanoseconds below one
microsecond are dropped. -/
def TimeUnit.microseconds? (unit : TimeUnit) (count : Int) : Option Int :=
  let fits (n : Int) : Option Int := if Json.inInt64 n then some n else none
  match unit with
  | second => fits (count * 1000000)
  | millisecond => fits (count * 1000)
  | microsecond => some count
  | nanosecond => some (count.tdiv 1000)

namespace Cell

/-- A date as text; one out of range as its number of days. -/
def showDate (days : Int) : Json :=
  let d := CivilDate.ofDays days
  if d.inRange then .string d.render else .int days

/-- An instant as text to the second; one out of range as its number. -/
def showInstant (unit : TimeUnit) (count : Int) : Json :=
  match unit.microseconds? count with
  | none => .int count
  | some micros =>
    let seconds := micros.fdiv 1000000
    if (CivilDate.ofDays (seconds.fdiv 86400)).inRange then .string (renderInstant seconds)
    else .int count

/-- The value that shows a cell. -/
def toJson : Cell → Json
  | null => .null
  | boolean b => .bool b
  | integer n => .int n
  | huge n => if Json.inInt64 n then .int n else .string (toString n)
  | double x => .float x
  | decimal unscaled scale => .float (.ofRatio (unscaled < 0) unscaled.natAbs (10 ^ scale))
  | text utf8 => .string (Text.ofUtf8 utf8)
  | blob size => .string ("<blob " ++ toString size ++ " bytes>")
  | date days => showDate days
  | timestamp unit count => showInstant unit count
  | other => .string "<unsupported>"

end Cell

end QueryReplay
