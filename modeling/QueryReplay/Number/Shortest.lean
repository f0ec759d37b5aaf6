import QueryReplay.Number.Double

/-!
# The shortest decimal that reads back

The reals that round to a double form an interval around it.  `Double.shortest`
tries 1, 2, …, 17 significant digits and takes the first grid of decimals with
a point in the interval, of two such points the nearer one.  `DecimalLayout` then says
how digits and exponent are written.
-/

namespace QueryReplay

-- powers are the core library's, also beside the instances that Mathlib declares
attribute [local instance (high)] instPowNat

/-- A decimal `digits · 10^exponent`. -/
structure Decimal where
  digits : Nat
  exponent : Int
deriving DecidableEq, Repr

/-- A positive real and the interval around it, over one common denominator. -/
structure Target where
  value : Nat
  low : Nat
  high : Nat
  den : Nat
  /-- Whether the ends belong to the interval. -/
  closed : Bool
deriving Repr

namespace Target

/-- Whether `p / q` lies in the interval. -/
def contains (t : Target) (p q : Nat) : Bool :=
  if t.closed then t.low * q ≤ p * t.den && p * t.den ≤ t.high * q
  else t.low * q < p * t.den && p * t.den < t.high * q

/-- The decimal exponent of the leading digit. -/
def leadingExponent (t : Target) : Int :=
  if t.den ≤ t.value then ((Nat.toDigits 10 (t.value / t.den)).length : Int) - 1
  else
    let places := (Nat.toDigits 10 (t.den / t.value)).length
    if t.den ≤ t.value * 10 ^ (places - 1) then 1 - (places : Int) else -(places : Int)

/-- The point of the interval on the grid of `10^e` that is nearest to the
value, the even one of two equally near. -/
def nearestOnGrid? (t : Target) (e : Int) : Option Decimal :=
  let (num, den) := match e with
    | .ofNat k => (t.value, t.den * 10 ^ k)
    | .negSucc k => (t.value * 10 ^ (k + 1), t.den)
  let below := num / den
  let inside (d : Nat) : Bool := match e with
    | .ofNat k => t.contains (d * 10 ^ k) 1
    | .negSucc k => t.contains d (10 ^ (k + 1))
  let nearest := divNearestEven num den
  let other := if nearest = below then below + 1 else below
  if inside nearest then some ⟨nearest, e⟩
  else if inside other then some ⟨other, e⟩
  else none

/-- The first hit among grids of `count`, `count + 1`, … significant digits. -/
def search (t : Target) (leading : Int) (count : Nat) : Nat → Decimal
  | 0 => ⟨t.value / t.den, 0⟩
  | fuel + 1 =>
    match t.nearestOnGrid? (leading + 1 - (count : Int)) with
    | some d => d
    | none => t.search leading (count + 1) fuel

end Target

/-- Removes trailing zeros from the digits of a decimal. -/
def Decimal.normalize (d : Decimal) : Nat → Decimal
  | 0 => d
  | fuel + 1 =>
    if d.digits != 0 && d.digits % 10 == 0 then
      Decimal.normalize ⟨d.digits / 10, d.exponent + 1⟩ fuel
    else d

/-- The interval of reals that round to a positive finite double. -/
def Double.target (x : Double) : Target :=
  let d := x.magnitude
  -- in units of a quarter of the last place
  let lowGap := if d.mantissa = 2 ^ (52 : Nat) && d.exponent != -1074 then 1 else 2
  let scaled (n : Nat) : Nat × Nat := scaleRatio n 4 (-d.exponent)
  let (value, den) := scaled (4 * d.mantissa)
  ⟨value, (scaled (4 * d.mantissa - lowGap)).1, (scaled (4 * d.mantissa + 2)).1, den,
    d.mantissa % 2 == 0⟩

/-- The decimal with the fewest digits that rounds to the absolute value of a
finite double, and of those the nearest. -/
def Double.shortest (x : Double) : Decimal :=
  if x.isZero then ⟨0, 0⟩
  else
    let t := x.target
    (t.search t.leadingExponent 1 17).normalize 17

/-- How a decimal is written. -/
structure DecimalLayout where
  /-- The least exponent of the leading digit that is written positionally. -/
  least : Int
  /-- The least exponent that is not. -/
  bound : Int
  /-- The text between digits and exponent. -/
  mark : String
  /-- The sign of a positive exponent. -/
  plus : String

/-- Numbers from `1e-5` up to `1e16` are positional and keep a point; others
have one digit before the point and a signed exponent. -/
def DecimalLayout.document : DecimalLayout := ⟨-5, 16, "e", "+"⟩

/-- Splits the digits after the first `n`. -/
def pointAfter (n : Nat) (digits : List Char) : String :=
  String.ofList (digits.take n ++ '.' :: digits.drop n)

/-- The text of a decimal without its sign. -/
def DecimalLayout.render (l : DecimalLayout) (d : Decimal) : String :=
  let digits := Nat.toDigits 10 d.digits
  let leading := d.exponent + (digits.length : Int) - 1
  if d.digits = 0 then "0.0"
  else if l.least ≤ leading && leading < l.bound then
    if 0 ≤ d.exponent then
      String.ofList (digits ++ List.replicate d.exponent.toNat '0' ++ ['.', '0'])
    else if 0 ≤ leading then pointAfter (leading.toNat + 1) digits
    else pointAfter 1 ('0' :: List.replicate (-leading).toNat.pred '0' ++ digits)
  else
    let body := if digits.length = 1 then String.ofList digits else pointAfter 1 digits
    body ++ l.mark ++ (if 0 ≤ leading then l.plus ++ toString leading.toNat
      else "-" ++ toString (-leading).toNat)

/-- The text of a finite double. -/
def DecimalLayout.text (l : DecimalLayout) (x : Double) : String :=
  (if x.isNegative then "-" else "") ++ l.render x.shortest

end QueryReplay
