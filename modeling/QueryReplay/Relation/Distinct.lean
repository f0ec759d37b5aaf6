import QueryReplay.Table.Equality
import QueryReplay.Table.Snapshot

/-!
# Rows told apart by their cells
-/

namespace QueryReplay

/-- The indices of the rows that equal no row kept before them; `kept` are the
cells of those, and `i` is the index of the first row. -/
def firstOccurrences (kept : List (List Json)) (i : Nat) : List (List Json) → List Nat
  | [] => []
  | cells :: rest =>
    if kept.any (cellsEqual · cells) then firstOccurrences kept (i + 1) rest
    else i :: firstOccurrences (kept ++ [cells]) (i + 1) rest

/-- The table without rows that equal an earlier one. -/
def Snapshot.distinct (s : Snapshot) : Snapshot :=
  s.selectRows s.name (firstOccurrences [] 0 s.cellRows)

end QueryReplay
