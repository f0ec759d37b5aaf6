import QueryReplay.Sql.Descriptor
import QueryReplay.Table.Equality
import QueryReplay.Table.Scope

/-!
# Joining two tables

The join is carried out here, row by row, so that every pair of rows that met
and every row that met none can be shown.  The result is described by pairs of
row indices first, and the rows are built from the pairs.
-/

namespace QueryReplay

open Sql (JoinClause JoinKind ColumnRef)

/-- Which rows of two tables meet. -/
inductive JoinRule where
  /-- Any two rows. -/
  | everything
  /-- Rows with equal values, not null, in these columns. -/
  | equal (left right : String)
  /-- The columns of the condition were not found, so no rows meet. -/
  | keysNotFound
  /-- The condition is not one equality between columns, so no rows meet. -/
  | unsupported
deriving DecidableEq, Repr

namespace JoinRule

/-- Whether a reference can mean a column of the joined table: it is
unqualified or names that table, and the table has the column. -/
def readsRight (clause : JoinClause) (right : Snapshot) (ref : ColumnRef) : Bool :=
  let named := match ref.table with
    | some q => Text.sameLetters q clause.qualifier || Text.sameLetters q clause.table
    | none => true
  named && right.columns.contains ref.column

/-- The key columns when `r` reads the joined table and `l` the running one. -/
def keys? (clause : JoinClause) (scope : Scope) (left right : Snapshot) (l r : ColumnRef) :
    Option (String × String) :=
  if readsRight clause right r then
    (scope.resolve? left.columns l).map fun column => (column, r.column)
  else none

/-- The rule of a clause; the sides of its equality may stand in either order. -/
def ofClause (clause : JoinClause) (scope : Scope) (left right : Snapshot) : JoinRule :=
  match clause.kind, clause.equality with
  | .cross, _ => everything
  | _, none => unsupported
  | _, some (a, b) =>
    match (keys? clause scope left right a b).or (keys? clause scope left right b a) with
    | some (l, r) => equal l r
    | none => keysNotFound

/-- Whether two rows meet. -/
def meets (rule : JoinRule) (l r : Row) : Bool :=
  match rule with
  | everything => true
  | equal left right =>
    let a := Json.Members.getD l left
    let b := Json.Members.getD r right
    !a.isNull && !b.isNull && valuesEqual a b
  | keysNotFound => false
  | unsupported => false

end JoinRule

/-- The rows of a join by their indices in the two tables. -/
structure JoinPairs where
  /-- The pairs that met, in order. -/
  matched : List (Nat × Nat)
  /-- Left rows that met none, ascending. -/
  unmatchedLeft : List Nat
  /-- Right rows that met none, ascending. -/
  unmatchedRight : List Nat
  /-- The sources of each row of the result; an absent side is filled with nulls. -/
  sources : List (Option Nat × Option Nat)
deriving DecidableEq, Repr

/-- The right rows that a left row meets. -/
def partners (rule : JoinRule) (right : List Row) (l : Row) : List Nat :=
  right.zipIdx.filterMap fun (r, j) => if rule.meets l r then some j else none

/-- The rows of a join: each left row with its partners, or alone if the kind
keeps it, and at the end the right rows that met none if the kind keeps those. -/
def joinPairs (kind : JoinKind) (rule : JoinRule) (left right : List Row) : JoinPairs :=
  let met : List (Nat × List Nat) := left.zipIdx.map fun (l, i) => (i, partners rule right l)
  let unmatchedRight := right.zipIdx.filterMap fun (r, j) =>
    if left.any (rule.meets · r) then none else some j
  { matched := met.flatMap fun (i, js) => js.map fun j => (i, j)
    unmatchedLeft := met.filterMap fun (i, js) => if js.isEmpty then some i else none
    unmatchedRight
    sources :=
      (met.flatMap fun (i, js) =>
        if js.isEmpty then if kind.keepsLeft then [(some i, none)] else []
        else js.map fun j => (some i, some j))
      ++ if kind.keepsRight then unmatchedRight.map fun j => (none, some j) else [] }

/-- A joined table and how its rows came about. -/
structure JoinOutcome where
  rule : JoinRule
  pairs : JoinPairs
  result : Snapshot

/-- The row at an index; `none` is the row of nulls. -/
def Snapshot.rowOrNulls (s : Snapshot) (i : Option Nat) : Row :=
  (i.bind fun i => s.rows[i]?).getD []

/-- The identity at an index; `none` has an unknown identity of the given width. -/
def Snapshot.idOrNulls (s : Snapshot) (width : Nat) (i : Option Nat) : RowId :=
  (i.bind fun i => s.rowIds[i]?).getD (List.replicate width none)

/-- Joins the running table with a freshly read one, whose columns get the
prefix `pre`.  The identities of a row are those of its two sources; they are
kept when both tables have them for all rows. -/
def joinTables (left : Snapshot) (scope : Scope) (right : Snapshot) (clause : JoinClause)
    (pre name : String) : JoinOutcome :=
  let rule := JoinRule.ofClause clause scope left right
  let pairs := joinPairs clause.kind rule left.rows right.rows
  let cellsOf (i j : Option Nat) : List (String × Json) :=
    left.columns.map (fun c => (c, Json.Members.getD (left.rowOrNulls i) c))
      ++ right.columns.map fun c =>
        (qualifiedName pre c, Json.Members.getD (right.rowOrNulls j) c)
  let leftWidth := (left.rowIds.head?.map List.length).getD scope.width
  let rightWidth := (right.rowIds.head?.map List.length).getD 1
  let rowIds :=
    if left.isIdentified && right.isIdentified then
      pairs.sources.map fun (i, j) => left.idOrNulls leftWidth i ++ right.idOrNulls rightWidth j
    else []
  { rule
    pairs
    result :=
      { name
        columns := left.columns ++ right.columns.map (qualifiedName pre)
        rows := pairs.sources.map fun (i, j) => Json.Members.ofList (cellsOf i j)
        rowIds } }

end QueryReplay
