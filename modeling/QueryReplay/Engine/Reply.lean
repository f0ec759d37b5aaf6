import QueryReplay.Table.Snapshot

/-!
# What an engine answers

An engine runs one statement and answers columns and rows, or says why not.
Nothing else is known of it: its answers may change from call to call.
-/

namespace QueryReplay

/-- Columns and rows by position. -/
structure Reply where
  columns : List String := []
  rows : List (List Json) := []
deriving Repr, Inhabited

namespace Reply

/-- The number of rows. -/
def size (r : Reply) : Nat := r.rows.length

/-- The position of the first column of that very name. -/
def columnIndex? (r : Reply) (name : String) : Option Nat := r.columns.findIdx? (· == name)

/-- The answer as a table. -/
def toSnapshot (r : Reply) (name : String) : Snapshot := .ofCells name r.columns r.rows

end Reply

/-- An engine with a state of its own.  A failure is the text of its message. -/
structure Engine (σ : Type) where
  execute : String → σ → Except String Reply × σ
  /-- The names of the tables, for hints. -/
  tableNames : σ → Option (List String)

/-- What is left of a scripted engine: its replies in order. -/
abbrev Script := List (Except String Reply)

/-- An engine that gives prepared replies whatever it is asked. -/
def Engine.scripted (tables : Option (List String)) : Engine Script where
  execute _ := fun
    | [] => (.error "script exhausted", [])
    | reply :: rest => (reply, rest)
  tableNames _ := tables

end QueryReplay
