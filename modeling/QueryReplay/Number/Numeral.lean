import QueryReplay.Number.Double

/-!
# Numbers in decimal notation

Digits with an optional sign, point and exponent, and the words for what is not
finite.
-/

namespace QueryReplay

-- powers are the core library's, also beside the instances that Mathlib declares
attribute [local instance (high)] instPowNat

/-- A number as written. -/
inductive Numeral where
  /-- `± digits · 10^exponent`. -/
  | decimal (negative : Bool) (digits : Nat) (exponent : Int)
  | infinity (negative : Bool)
  | nan
deriving DecidableEq, Repr

namespace Numeral

/-- The value of decimal digits. -/
def valueOf (digits : List Char) : Nat := digits.foldl (fun n c => n * 10 + (c.toNat - 48)) 0

/-- A whole number with an optional sign. -/
def int? (cs : List Char) : Option Int :=
  let (negative, digits) := match cs with
    | '-' :: rest => (true, rest)
    | '+' :: rest => (false, rest)
    | _ => (false, cs)
  if digits.isEmpty || !digits.all Char.isDigit then none
  else some (if negative then -(valueOf digits : Int) else valueOf digits)

/-- Digits with a point or without, and an exponent behind them. -/
def unsigned? (negative : Bool) (cs : List Char) : Option Numeral :=
  let (whole, rest) := cs.span Char.isDigit
  let (places, rest) := match rest with
    | '.' :: more => more.span Char.isDigit
    | _ => ([], rest)
  let exponent? : Option Int := match rest with
    | [] => some 0
    | 'e' :: more => int? more
    | 'E' :: more => int? more
    | _ => none
  if whole.isEmpty && places.isEmpty then none
  else exponent?.map fun e =>
    .decimal negative (valueOf (whole ++ places)) (e - (places.length : Int))

/-- Reads a number with an optional sign. -/
def ofString? (s : String) : Option Numeral :=
  let (negative, cs) := match s.toList with
    | '-' :: rest => (true, rest)
    | '+' :: rest => (false, rest)
    | cs => (false, cs)
  match String.ofList (cs.map Char.toLower) with
  | "nan" => some .nan
  | "inf" => some (.infinity negative)
  | "infinity" => some (.infinity negative)
  | _ => unsigned? negative cs

/-- The nearest double. -/
def toDouble : Numeral → Double
  | .decimal negative digits exponent => .ofDecimal negative digits exponent
  | .infinity negative => .infinity negative
  | .nan => .nan

/-- The nearest single-precision number, as a double. -/
def toSingle : Numeral → Double
  | .decimal negative digits exponent =>
    let (num, den) := match exponent with
      | .ofNat k => (digits * 10 ^ k, 1)
      | .negSucc k => (digits, 10 ^ (k + 1))
    let nearest := FloatFormat.single.round num den
    let (num, den) := scaleRatio nearest.mantissa 1 (-nearest.exponent)
    -- the single format ends below 2^128
    if 2 ^ (128 : Nat) * den ≤ num then .infinity negative else .ofRatio negative num den
  | .infinity negative => .infinity negative
  | .nan => .nan

end Numeral

end QueryReplay
