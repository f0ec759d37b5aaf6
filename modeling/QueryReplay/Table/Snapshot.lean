import QueryReplay.Table.IndexSet
import QueryReplay.Table.Names
import QueryReplay.Json.Value

/-!
# Snapshots of a table

A snapshot is a table at one moment of a replay: its columns, its rows keyed by
column, the identity of each row where it is known, and the rows a reader is
shown as kept or as faded.
-/

namespace QueryReplay

/-- One row: its cells by column name. -/
abbrev Row := Json.Members

/-- The identities that a row has in each table it was made from, in the order
of the tables; `none` is the side that an outer join filled with nulls. -/
abbrev RowId := List (Option Int)

/-- The rows of a table at one moment. -/
structure Snapshot where
  name : String
  columns : List String
  rows : List Row
  highlighted : IndexSet := .empty
  dimmed : IndexSet := .empty
  /-- One identity per row, or none at all when they are not known. -/
  rowIds : List RowId := []
deriving Repr, Inhabited

namespace Snapshot

/-- A table without columns and rows. -/
def empty (name : String) : Snapshot := { name, columns := [], rows := [] }

/-- A table from cells by position.  Repeated column names are told apart; a
short row lacks its last cells, and a long one loses its surplus. -/
def ofCells (name : String) (columns : List String) (cells : List (List Json)) : Snapshot :=
  let columns := uniqueNames columns
  { name, columns, rows := cells.map columns.zip }

def withRowIds (s : Snapshot) (ids : List RowId) : Snapshot := { s with rowIds := ids }

/-- The number of rows. -/
def size (s : Snapshot) : Nat := s.rows.length

def isEmpty (s : Snapshot) : Bool := s.rows.isEmpty

/-- The cells of a row in the order of the columns; an absent one is null. -/
def cellsOf (s : Snapshot) (row : Row) : List Json := s.columns.map (Json.Members.getD row)

/-- The cells of all rows. -/
def cellRows (s : Snapshot) : List (List Json) := s.rows.map s.cellsOf

/-- The cells of the row at an index. -/
def cells? (s : Snapshot) (i : Nat) : Option (List Json) := s.rows[i]?.map s.cellsOf

/-- The identity of the row at an index. -/
def rowId? (s : Snapshot) (i : Nat) : Option RowId := s.rowIds[i]?

/-- Whether every row has its identity. -/
def isIdentified (s : Snapshot) : Bool := s.rowIds.length == s.rows.length

/-- The rows at the given indices, in that order, under a new name.  Identities
go along when every row has one. -/
def selectRows (s : Snapshot) (name : String) (indices : List Nat) : Snapshot :=
  { name
    columns := s.columns
    rows := indices.filterMap fun i => s.rows[i]?
    rowIds := if s.isIdentified then indices.filterMap fun i => s.rowIds[i]? else [] }

/-- The same cells under other column names; there must be one for each. -/
def relabel? (s : Snapshot) (labels : List String) : Option Snapshot :=
  if labels.length = s.columns.length then
    let columns := uniqueNames labels
    some { name := s.name, columns, rows := s.cellRows.map columns.zip, rowIds := s.rowIds }
  else none

/-- Marks rows as kept. -/
def highlight (s : Snapshot) (indices : List Nat) : Snapshot :=
  { s with highlighted := s.highlighted.insertAll indices }

/-- Marks rows as faded. -/
def dim (s : Snapshot) (indices : List Nat) : Snapshot :=
  { s with dimmed := s.dimmed.insertAll indices }

def renamed (s : Snapshot) (name : String) : Snapshot := { s with name }

end Snapshot

end QueryReplay
