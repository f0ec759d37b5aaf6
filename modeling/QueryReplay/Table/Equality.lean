import QueryReplay.Json.Value

/-!
# When two cells hold the same value

Numbers are compared by magnitude, whatever way they are written; all other
values are compared by structure.
-/

namespace QueryReplay

/-- Two numbers as doubles, any other two values as they are. -/
def valuesEqual : Json → Json → Bool
  | .number a, .number b => a.toDouble.equals b.toDouble
  | a, b => a.same b

/-- Cell by cell, in position. -/
def cellsEqual : List Json → List Json → Bool
  | [], [] => true
  | a :: as, b :: bs => valuesEqual a b && cellsEqual as bs
  | _, _ => false

end QueryReplay
