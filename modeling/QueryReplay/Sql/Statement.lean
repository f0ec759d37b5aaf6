import QueryReplay.Sql.Expr

/-!
# SELECT statements

A statement keeps for each clause where it stands in the text, in bytes of its
UTF-8 form, so that it can be cut between clauses.
-/

namespace QueryReplay.Sql

/-- A range of bytes, the end excluded. -/
structure Span where
  start : Nat
  stop : Nat
deriving DecidableEq, Repr

/-- What a clause says, where the whole clause stands, and the text behind its
keywords. -/
structure Located (α : Type) where
  node : α
  span : Span
  text : String
deriving Repr

/-- A table and the alias it is given. -/
structure TableRef where
  name : String
  alias? : Option String
deriving DecidableEq, Repr

/-- What the rest of the statement calls the table. -/
def TableRef.qualifier (t : TableRef) : String := t.alias?.getD t.name

inductive JoinKind where
  | inner | left | right | full | cross
deriving DecidableEq, Repr

namespace JoinKind

/-- Whether left rows without a partner stay in the result. -/
def keepsLeft : JoinKind → Bool
  | left => true
  | full => true
  | _ => false

/-- Whether right rows without a partner stay in the result. -/
def keepsRight : JoinKind → Bool
  | right => true
  | full => true
  | _ => false

/-- The join as it is shown. -/
def display : JoinKind → String
  | inner => "INNER JOIN"
  | left => "LEFT JOIN"
  | right => "RIGHT JOIN"
  | full => "FULL OUTER JOIN"
  | cross => "CROSS JOIN"

/-- The keyword that tells the kinds apart. -/
def word : JoinKind → String
  | inner => "INNER"
  | left => "LEFT"
  | right => "RIGHT"
  | full => "FULL"
  | cross => "CROSS"

end JoinKind

/-- A joined table with its condition and the text of that. -/
structure Join where
  kind : JoinKind
  table : TableRef
  condition : Option Expr
  conditionText : Option String
  span : Span
deriving Repr

inductive SelectItem where
  | wildcard
  | tableWildcard (table : String)
  | expr (e : Expr) (alias? : Option String) (text : String)
deriving Repr

/-- A grouping key with its text. -/
structure GroupKey where
  expr : Expr
  text : String
deriving Repr

/-- A sort key with its text. -/
structure SortKey where
  expr : Expr
  descending : Bool
  text : String
deriving Repr

/-- The word for the direction of sorting. -/
def SortKey.direction (k : SortKey) : String := if k.descending then "DESC" else "ASC"

structure Select where
  distinct : Bool
  items : List SelectItem
  itemsSpan : Span
  /-- The first table of the FROM list. -/
  base : TableRef
  /-- The tables behind it, each an implicit cross join. -/
  moreTables : List TableRef
  fromSpan : Span
  joins : List Join
  filter : Option (Located Expr)
  groupBy : Option (Located (List GroupKey))
  having : Option (Located Expr)
  orderBy : Option (Located (List SortKey))
  limit : Option (Located Nat)
  offset : Option (Located Nat)
deriving Repr

/-- The tables of the FROM list. -/
def Select.tables (s : Select) : List TableRef := s.base :: s.moreTables

end QueryReplay.Sql
