import QueryReplay.Number.Rounding

/-!
# Double-precision numbers

A double is kept as its 64 bits: a sign, an 11-bit exponent and a 52-bit
fraction.  Everything else is exact integer arithmetic on the decoded value
`± m · 2^e`, so that no operation depends on the machine's floating point.
-/

namespace QueryReplay

-- powers are the core library's, also beside the instances that Mathlib declares
attribute [local instance (high)] instPowNat

/-- A 64-bit binary floating-point number. -/
structure Double where
  bits : UInt64
deriving DecidableEq, Repr

namespace Double

/-- Whether the sign bit is set. -/
def isNegative (x : Double) : Bool := x.bits.toNat / 2 ^ (63 : Nat) == 1

/-- The biased exponent. -/
def exponentField (x : Double) : Nat := x.bits.toNat / 2 ^ (52 : Nat) % 2 ^ (11 : Nat)

/-- The fraction below the leading bit. -/
def fraction (x : Double) : Nat := x.bits.toNat % 2 ^ (52 : Nat)

/-- Neither an infinity nor a NaN. -/
def isFinite (x : Double) : Bool := x.exponentField != 2047

def isNaN (x : Double) : Bool := x.exponentField == 2047 && x.fraction != 0

/-- The absolute value of a finite double. -/
def magnitude (x : Double) : Dyadic :=
  if x.exponentField = 0 then ⟨x.fraction, -1074⟩
  else ⟨2 ^ (52 : Nat) + x.fraction, (x.exponentField : Int) - 1075⟩

def isZero (x : Double) : Bool := x.bits.toNat % 2 ^ (63 : Nat) == 0

/-- The bits of a sign and of an absolute value below the sign bit. -/
def ofParts (negative : Bool) (absolute : Nat) : Double :=
  ⟨UInt64.ofNat ((if negative then 2 ^ (63 : Nat) else 0) + absolute)⟩

def zero (negative : Bool) : Double := ofParts negative 0

def infinity (negative : Bool) : Double := ofParts negative (2047 * 2 ^ (52 : Nat))

def nan : Double := ofParts false (2047 * 2 ^ (52 : Nat) + 2 ^ (51 : Nat))

/-- The bits below the sign of a number that the format holds; one that is too
large is an infinity.  A mantissa of `2^53` carries into the exponent. -/
def encodeMagnitude (d : Dyadic) : Nat :=
  let field := if d.mantissa < 2 ^ (52 : Nat) then d.mantissa
    else (d.exponent + 1075).toNat * 2 ^ (52 : Nat) + (d.mantissa - 2 ^ (52 : Nat))
  min field (2047 * 2 ^ (52 : Nat))

/-- The double nearest to `± num / den`, a half to the even mantissa. -/
def ofRatio (negative : Bool) (num den : Nat) : Double :=
  ofParts negative (encodeMagnitude (FloatFormat.double.round num den))

/-- The double nearest to an integer. -/
def ofInt (n : Int) : Double := ofRatio (n < 0) n.natAbs 1

/-- The absolute value as a ratio of naturals. -/
def absRatio (x : Double) : Nat × Nat :=
  scaleRatio x.magnitude.mantissa 1 (-x.magnitude.exponent)

/-- The double nearest to `± digits · 10^exponent`. -/
def ofDecimal (negative : Bool) (digits : Nat) (exponent : Int) : Double :=
  match exponent with
  | .ofNat k => ofRatio negative (digits * 10 ^ k) 1
  | .negSucc k => ofRatio negative digits (10 ^ (k + 1))

/-- The product, rounded once. -/
def mul (x y : Double) : Double :=
  let (a, b) := x.absRatio
  let (c, d) := y.absRatio
  ofRatio (x.isNegative != y.isNegative) (a * c) (b * d)

/-- The quotient by a number other than zero, rounded once. -/
def div (x y : Double) : Double :=
  let (a, b) := x.absRatio
  let (c, d) := y.absRatio
  ofRatio (x.isNegative != y.isNegative) (a * d) (b * c)

/-- Numerical equality: the two zeros are equal, and a NaN equals nothing. -/
def equals (x y : Double) : Bool :=
  !x.isNaN && !y.isNaN && (x.bits == y.bits || (x.isZero && y.isZero))

end Double

end QueryReplay
