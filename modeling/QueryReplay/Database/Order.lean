import QueryReplay.Database.Conversion

/-!
# The order of stored values

Numbers of all types are compared by value, texts byte by byte, dates and
instants by time.  NULL compares with nothing and is sorted last.
-/

namespace QueryReplay

-- powers are the core library's, also beside the instances that Mathlib declares
attribute [local instance (high)] instPowNat

/-- What a value is compared by. -/
inductive OrderKey where
  /-- `num / den`. -/
  | number (num : Int) (den : Nat)
  | text (utf8 : List Nat)
  /-- Microseconds from the beginning of 1970. -/
  | instant (micros : Int)
deriving DecidableEq, Repr

/-- The kinds of keys; only keys of one kind compare. -/
inductive OrderKind where
  | number | text | instant
deriving DecidableEq, Repr

def OrderKey.kind : OrderKey → OrderKind
  | number _ _ => .number
  | text _ => .text
  | instant _ => .instant

/-- The kind of the values of a column. -/
def ColumnType.orderKind : ColumnType → OrderKind
  | .varchar => .text
  | .date => .instant
  | .timestamp => .instant
  | _ => .number

/-- Byte by byte; a text comes before those that it begins. -/
def compareBytes : List Nat → List Nat → Ordering
  | [], [] => .eq
  | [], _ => .lt
  | _, [] => .gt
  | a :: as, b :: bs => (compare a b).then (compareBytes as bs)

/-- The order of two keys of one kind. -/
def OrderKey.compare? : OrderKey → OrderKey → Option Ordering
  | .number a b, .number c d => some (compare (a * d) (c * b))
  | .text a, .text b => some (compareBytes a b)
  | .instant a, .instant b => some (compare a b)
  | _, _ => none

namespace Cell

def orderKey? : Cell → Option OrderKey
  | .boolean b => some (.number (if b then 1 else 0) 1)
  | .integer n => some (.number n 1)
  | .huge n => some (.number n 1)
  | .decimal unscaled scale => some (.number unscaled (10 ^ scale))
  | .double x =>
    let (num, den) := x.absRatio
    some (.number (if x.isNegative then -(num : Int) else num) den)
  | .text utf8 => some (.text utf8)
  | .date days => some (.instant (days * dayMicros))
  | .timestamp unit count => (unit.microseconds? count).map .instant
  | _ => none

/-- The order of two values that compare. -/
def compare? (a b : Cell) : Option Ordering := do
  let a ← a.orderKey?
  let b ← b.orderKey?
  a.compare? b

/-- The place of a value in a sorted column, ascending or descending; what has
no key comes last either way. -/
def sortOrder (descending : Bool) (a b : Cell) : Ordering :=
  match a.orderKey?, b.orderKey? with
  | some x, some y =>
    let o := (x.compare? y).getD .eq
    if descending then o.swap else o
  | some _, none => .lt
  | none, some _ => .gt
  | none, none => .eq

end Cell

end QueryReplay
