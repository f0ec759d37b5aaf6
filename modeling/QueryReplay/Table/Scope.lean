import QueryReplay.Sql.Expr
import QueryReplay.Table.Names
import QueryReplay.Table.Snapshot

/-!
# Which column a reference reads

Once tables are joined, every column of the running table bears the prefix of
the table it came from.  A scope remembers which prefix belongs to which
qualifier of the query.  While one table alone has been read its columns bear no
prefix and the scope is empty.
-/

namespace QueryReplay

/-- A column's name behind the prefix of its table. -/
def qualifiedName (pre column : String) : String := pre ++ "_" ++ column

/-- The qualifiers of the query with their column prefixes, in the order of the tables. -/
structure Scope where
  prefixes : List (String × String) := []
deriving DecidableEq, Repr

namespace Scope

/-- The scope of a single table, whose columns bear no prefix. -/
def unprefixed : Scope := {}

def isPrefixed (s : Scope) : Bool := !s.prefixes.isEmpty

/-- The number of tables that make up the running table. -/
def width (s : Scope) : Nat := max s.prefixes.length 1

def add (s : Scope) (qualifier pre : String) : Scope := ⟨s.prefixes ++ [(qualifier, pre)]⟩

/-- The prefix of the first table that the query calls so, in any letter case. -/
def prefixFor? (s : Scope) (qualifier : String) : Option String :=
  (s.prefixes.find? fun (q, _) => Text.sameLetters q qualifier).map (·.2)

/-- Prefixes that are in use. -/
def taken (s : Scope) : List String := s.prefixes.map (·.2)

/-- A prefix for a newly joined table: its name, else its alias, else its name
with the first number from 2 on that makes it new. -/
def choosePrefix (s : Scope) (table : String) (alias? : Option String) : String :=
  if !s.taken.contains table then table
  else
    match alias?.filter fun a => !s.taken.contains a with
    | some a => a
    | none => firstFree (fun n => table ++ toString n) s.taken 2

/-- The column under the first of the given prefixes that has one of that name. -/
def underPrefix? (columns : List String) (column : String) (prefixes : List String) :
    Option String :=
  (prefixes.map fun p => qualifiedName p column).find? columns.contains

/-- The column of that very name, else the first one that differs only in case. -/
def bare? (columns : List String) (column : String) : Option String :=
  if columns.contains column then some column
  else columns.find? fun c => Text.sameLetters c column

/-- The column that a reference reads: under the prefix of its qualifier, or
without one under the first prefix that fits, and failing that by its bare name. -/
def resolve? (s : Scope) (columns : List String) (ref : Sql.ColumnRef) : Option String :=
  let prefixes := match ref.table with
    | some q => (s.prefixFor? q).toList
    | none => s.taken
  (underPrefix? columns ref.column prefixes).or (bare? columns ref.column)

/-- What stands behind a prefix and its underscore in a column's name. -/
def withoutPrefix? (pre column : String) : Option String :=
  let head := (pre ++ "_").toList
  let cs := column.toList
  if head.isPrefixOf cs then some (String.ofList (cs.drop head.length)) else none

/-- The columns of one table with their own names.  Without prefixes all
columns belong to the only table. -/
def columnsOf (s : Scope) (columns : List String) (qualifier : String) : List (String × String) :=
  match s.prefixFor? qualifier with
  | some p => columns.filterMap fun c => (withoutPrefix? p c).map fun own => (c, own)
  | none => if s.isPrefixed then [] else columns.map fun c => (c, c)

end Scope

/-- The table with its prefix in front of every column. -/
def Snapshot.qualify (s : Snapshot) (pre : String) : Snapshot :=
  { name := s.name
    columns := s.columns.map (qualifiedName pre)
    rows := s.rows.map fun row =>
      Json.Members.ofList (s.columns.map fun c => (qualifiedName pre c, Json.Members.getD row c))
    rowIds := s.rowIds }

end QueryReplay
