import QueryReplay.Database.Table
import QueryReplay.Sql.Expr

/-!
# Commands of the database

A small part of the statement language: tables are made, filled, changed and
dropped, and one table at a time is read.
-/

namespace QueryReplay

/-- One side of a comparison. -/
inductive Operand where
  | literal (value : Cell)
  | column (ref : Sql.ColumnRef)
deriving DecidableEq, Repr

inductive Comparison where
  | eq | ne | lt | le | gt | ge
deriving DecidableEq, Repr

/-- Whether a comparison holds for two values in some order. -/
def Comparison.holds : Comparison → Ordering → Bool
  | eq, o => o == .eq
  | ne, o => o != .eq
  | lt, o => o == .lt
  | le, o => o != .gt
  | gt, o => o == .gt
  | ge, o => o != .lt

inductive Condition where
  | compare (op : Comparison) (left right : Operand)
  | isNull (subject : Operand) (negated : Bool)
deriving DecidableEq, Repr

/-- An item of a query. -/
inductive QueryItem where
  | wildcard
  | tableWildcard (table : String)
  | column (ref : Sql.ColumnRef) (alias? : Option String)
  /-- The number of rows. -/
  | count (alias? : Option String)
deriving DecidableEq, Repr

/-- A sort key: a column, or the position of an item. -/
inductive SortTarget where
  | column (ref : Sql.ColumnRef)
  | position (n : Nat)
deriving DecidableEq, Repr

/-- Reads one table. -/
structure Query where
  distinct : Bool
  items : List QueryItem
  table : String
  alias? : Option String
  filter? : Option Condition
  /-- Sort keys, each with whether it descends. -/
  sort : List (SortTarget × Bool)
  limit? : Option Nat
  offset : Nat
deriving DecidableEq, Repr

inductive Command where
  | createTable (name : String) (columns : List StoredColumn)
  | dropTable (name : String) (ifExists : Bool)
  | insert (table : String) (rows : List (List Cell))
  | update (table : String) (values : List (String × Cell)) (filter? : Option Condition)
  | delete (table : String) (filter? : Option Condition)
  | query (q : Query)
deriving DecidableEq, Repr

end QueryReplay
