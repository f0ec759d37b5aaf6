import QueryReplay.Database.Type
import QueryReplay.Engine.Cell
import QueryReplay.Number.Numeral
import QueryReplay.Text.Blank

/-!
# Putting values into columns

A value that is written into a column becomes one of the column's type.  Numbers
are rounded to the places that the column has, a half away from zero, and must
then fit; texts are read as what the column holds.
-/

namespace QueryReplay

-- powers are the core library's, also beside the instances that Mathlib declares
attribute [local instance (high)] instPowNat

namespace Text

/-- The bytes of a text. -/
def utf8 (s : String) : List Nat := s.toUTF8.toList.map UInt8.toNat

end Text

/-- The quotient rounded to the nearest integer, a half away from zero. -/
def divHalfAway (num : Int) (den : Nat) : Int :=
  let q : Int := ((2 * num.natAbs + den) / (2 * den) : Nat)
  if num < 0 then -q else q

namespace CivilDate

/-- Whether the calendar has the date. -/
def isReal (d : CivilDate) : Bool := ofDays d.toDays == d

/-- Year, month and day, joined by hyphens. -/
def read? (cs : List Char) : Option CivilDate := do
  let (negative, cs) := match cs with
    | '-' :: rest => (true, rest)
    | _ => (false, cs)
  let (year, rest) := cs.span Char.isDigit
  let '-' :: rest := rest | none
  let (month, rest) := rest.span Char.isDigit
  let '-' :: day := rest | none
  if year.isEmpty || month.isEmpty || day.isEmpty || !day.all Char.isDigit then none
  else
    let y : Int := Numeral.valueOf year
    let d : CivilDate := ⟨if negative then -y else y, Numeral.valueOf month, Numeral.valueOf day⟩
    if d.isReal then some d else none

end CivilDate

/-- The microseconds of a day. -/
def dayMicros : Int := 86400000000

/-- A time of day to the microsecond, in microseconds; seconds may be left out. -/
def readTime? (cs : List Char) : Option Int := do
  let (hour, rest) := cs.span Char.isDigit
  let ':' :: rest := rest | none
  let (minute, rest) := rest.span Char.isDigit
  let (second, rest) := match rest with
    | ':' :: rest => rest.span Char.isDigit
    | _ => (['0'], rest)
  let places ← match rest with
    | [] => some []
    | '.' :: places => if places.all Char.isDigit then some places else none
    | _ => none
  if hour.isEmpty || minute.isEmpty || second.isEmpty then none
  else
    let h := Numeral.valueOf hour
    let m := Numeral.valueOf minute
    let s := Numeral.valueOf second
    let micros := Numeral.valueOf ((places ++ List.replicate 6 '0').take 6)
    if h < 24 ∧ m < 60 ∧ s < 60 then some (((h * 60 + m) * 60 + s) * 1000000 + micros : Nat)
    else none

/-- An instant in microseconds: a date, and behind a blank or a `T` a time of day. -/
def readInstant? (cs : List Char) : Option Int := do
  let (day, rest) := cs.span fun c => c != ' ' && c != 'T'
  let date ← CivilDate.read? day
  match rest with
  | [] => some (date.toDays * dayMicros)
  | _ :: time => (readTime? time).map fun t => date.toDays * dayMicros + t

/-- A number with places behind the point. -/
structure FixedPoint where
  unscaled : Int
  scale : Nat
deriving DecidableEq, Repr

namespace FixedPoint

/-- The number with another number of places, rounded if there are fewer. -/
def rescale (x : FixedPoint) (scale : Nat) : Int :=
  if x.scale ≤ scale then x.unscaled * 10 ^ (scale - x.scale)
  else divHalfAway x.unscaled (10 ^ (x.scale - scale))

/-- The number as digits with a point. -/
def render (x : FixedPoint) : String :=
  let digits := padded (x.scale + 1) x.unscaled.natAbs
  let whole := digits.toList.take (digits.length - x.scale)
  let places := digits.toList.drop (digits.length - x.scale)
  (if x.unscaled < 0 then "-" else "") ++ String.ofList whole
    ++ (if x.scale = 0 then "" else "." ++ String.ofList places)

end FixedPoint

namespace Cell

/-- The number that a cell stands for, when it is one with decimal places. -/
def fixedPoint? : Cell → Option FixedPoint
  | .boolean b => some ⟨if b then 1 else 0, 0⟩
  | .integer n => some ⟨n, 0⟩
  | .huge n => some ⟨n, 0⟩
  | .decimal unscaled scale => some ⟨unscaled, scale⟩
  | .text utf8 =>
    match Numeral.ofString? (Text.trim (Text.ofUtf8 utf8)) with
    | some (.decimal negative digits exponent) =>
      let n : Int := if negative then -(digits : Int) else digits
      match exponent with
      | .ofNat k => some ⟨n * 10 ^ k, 0⟩
      | .negSucc k => some ⟨n, k + 1⟩
    | _ => none
  | _ => none

/-- A whole number below a bound, and not below its opposite. -/
def boundedInteger? (bound : Int) (n : Int) : Option Cell :=
  if -bound ≤ n && n < bound then some (.integer n) else none

def toDouble? : Cell → Option Cell
  | .double x => some (.double x)
  | .text utf8 => (Numeral.ofString? (Text.trim (Text.ofUtf8 utf8))).map
      fun n => .double n.toDouble
  | c => c.fixedPoint?.map fun x =>
      .double (.ofRatio (x.unscaled < 0) x.unscaled.natAbs (10 ^ x.scale))

def toBoolean? : Cell → Option Cell
  | .boolean b => some (.boolean b)
  | .integer n => some (.boolean (n != 0))
  | .text utf8 =>
    match Text.lower (Text.trim (Text.ofUtf8 utf8)) with
    | "true" => some (.boolean true)
    | "t" => some (.boolean true)
    | "1" => some (.boolean true)
    | "false" => some (.boolean false)
    | "f" => some (.boolean false)
    | "0" => some (.boolean false)
    | _ => none
  | _ => none

/-- An instant as text, with its microseconds if it has some. -/
def instantText (micros : Int) : String :=
  let places := (micros.fmod 1000000).toNat
  renderInstant (micros.fdiv 1000000) ++
    (if places = 0 then ""
     else "." ++ String.ofList (Text.dropTrailing (· == '0') (padded 6 places).toList))

def toText? : Cell → Option Cell
  | .text utf8 => some (.text utf8)
  | .boolean b => some (.text (Text.utf8 (if b then "true" else "false")))
  | .date days => some (.text (Text.utf8 (CivilDate.ofDays days).render))
  | .timestamp .microsecond micros => some (.text (Text.utf8 (instantText micros)))
  | c => c.fixedPoint?.map fun x => .text (Text.utf8 x.render)

def toDate? : Cell → Option Cell
  | .date days => some (.date days)
  | .timestamp .microsecond micros => some (.date (micros.fdiv dayMicros))
  | .text utf8 => (CivilDate.read? (Text.trim (Text.ofUtf8 utf8)).toList).map
      fun d => .date d.toDays
  | _ => none

def toTimestamp? : Cell → Option Cell
  | .timestamp .microsecond micros => some (.timestamp .microsecond micros)
  | .date days => some (.timestamp .microsecond (days * dayMicros))
  | .text utf8 => (readInstant? (Text.trim (Text.ofUtf8 utf8)).toList).map
      fun micros => .timestamp .microsecond micros
  | _ => none

/-- The value that a column of a type holds when a cell is written into it. -/
def convert? (c : Cell) (type : ColumnType) : Option Cell :=
  match c with
  | .null => some .null
  | c =>
    match type with
    | .integer => c.fixedPoint?.bind fun x => boundedInteger? (2 ^ (31 : Nat)) (x.rescale 0)
    | .bigint => c.fixedPoint?.bind fun x => boundedInteger? (2 ^ (63 : Nat)) (x.rescale 0)
    | .decimal width scale => c.fixedPoint?.bind fun x =>
        let n := x.rescale scale
        if n.natAbs < 10 ^ width then some (.decimal n scale) else none
    | .double => c.toDouble?
    | .boolean => c.toBoolean?
    | .varchar => c.toText?
    | .date => c.toDate?
    | .timestamp => c.toTimestamp?

end Cell

end QueryReplay
