import QueryReplay.Json.Printer
import QueryReplay.Replay.Step

/-!
# Rows in groups

Rows belong together when their key tuples are written alike.
-/

namespace QueryReplay

/-- What stands between the values of a key. -/
def groupSeparator : String := "|"

/-- A key tuple as one text. -/
def groupKey (values : List Json) : String := groupSeparator.intercalate (values.map Json.render)

/-- Puts a row into the group of its key, a new one at the end if there is none. -/
def addToGroup (values : List Json) (row : Nat) : List Group → List Group
  | [] => [⟨groupKey values, values, [row]⟩]
  | g :: rest =>
    if g.key = groupKey values then { g with rows := g.rows ++ [row] } :: rest
    else g :: addToGroup values row rest

/-- The groups of rows with the given key tuples, in the order of their first rows. -/
def groupRows (tuples : List (List Json)) : List Group :=
  tuples.zipIdx.foldl (fun groups (values, row) => addToGroup values row groups) []

end QueryReplay
