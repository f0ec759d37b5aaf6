/-!
# Rounding a ratio to a binary format

A binary floating-point format holds the numbers `m · 2^e` with `m` below
`2^precision` and `e` at least `minExponent`.  `FloatFormat.round` picks the number
nearest to a ratio of naturals, the one with an even `m` when two are equally
near; the exponent grows without bound here and is cut off where a format is
encoded.
-/

namespace QueryReplay

-- powers are the core library's, also beside the instances that Mathlib declares
attribute [local instance (high)] instPowNat

/-- The precision in bits and the least exponent of a unit in the last place. -/
structure FloatFormat where
  precision : Nat
  minExponent : Int
deriving DecidableEq, Repr

/-- The numbers with 53 bits and units of at least `2^-1074`. -/
def FloatFormat.double : FloatFormat := ⟨53, -1074⟩

/-- The numbers with 24 bits and units of at least `2^-149`. -/
def FloatFormat.single : FloatFormat := ⟨24, -149⟩

/-- A non-negative number `mantissa · 2^exponent`. -/
structure Dyadic where
  mantissa : Nat
  exponent : Int
deriving DecidableEq, Repr

/-- The quotient rounded to the nearest natural, a half to the even one. -/
def divNearestEven (num den : Nat) : Nat :=
  let q := num / den
  let r := num % den
  if 2 * r < den then q
  else if den < 2 * r then q + 1
  else if q % 2 = 0 then q else q + 1

/-- `num / den` over `2^e`, as a ratio of naturals. -/
def scaleRatio (num den : Nat) (e : Int) : Nat × Nat :=
  match e with
  | .ofNat k => (num, den * 2 ^ k)
  | .negSucc k => (num * 2 ^ (k + 1), den)

/-- The exponent of the unit in the last place for `num / den`: the quotient
by it has exactly `precision` bits, unless the format's least unit is larger. -/
def FloatFormat.unitExponent (f : FloatFormat) (num den : Nat) : Int :=
  let guess : Int := (Nat.log2 num : Int) - (Nat.log2 den : Int) - (f.precision : Int)
  let (n, d) := scaleRatio num den (guess + 1)
  -- the guess is exact or one too small
  let e := if n / d < 2 ^ (f.precision - 1) then guess else guess + 1
  max e f.minExponent

/-- The number of the format nearest to `num / den`, a half to the even mantissa. -/
def FloatFormat.round (f : FloatFormat) (num den : Nat) : Dyadic :=
  let e := f.unitExponent num den
  let (n, d) := scaleRatio num den e
  ⟨divNearestEven n d, e⟩

end QueryReplay
