import QueryReplay.Assoc
import QueryReplay.Digest.Sha256
import QueryReplay.Sql.Admission
import QueryReplay.Text.Bytes

/-!
# A statement by its clauses

A descriptor is a statement's text beside what the grammar made of it.  It
answers what a replay asks, clause by clause, and cuts the text between clauses.
A text that the grammar rejects still has a descriptor, which knows little more
than the table behind the first FROM.
-/

namespace QueryReplay.Sql

/-- The clauses behind FROM, in the order in which they stand. -/
inductive ClauseKind where
  | filter | groupBy | having | orderBy | limit | offset
deriving DecidableEq, Repr

namespace ClauseKind

def all : List ClauseKind := [filter, groupBy, having, orderBy, limit, offset]

/-- The clauses from this one on. -/
def andLater (k : ClauseKind) : List ClauseKind := all.dropWhile (· != k)

end ClauseKind

/-- What an item of the SELECT list selects. -/
inductive ColumnKind where
  | wildcard
  | tableWildcard (table : String)
  | column (c : ColumnRef)
  | expression
deriving DecidableEq, Repr

/-- An item of the SELECT list. -/
structure SelectColumn where
  /-- The text of the item without its alias. -/
  expression : String
  alias? : Option String := none
  kind : ColumnKind
  aggregate : Bool := false
  expr? : Option Expr := none
deriving Repr

/-- The header that the item has in a result. -/
def SelectColumn.outputName (c : SelectColumn) : String :=
  match c.alias?, c.kind with
  | some name, _ => name
  | none, .column ref => ref.column
  | none, _ => c.expression

/-- An item as the list shows it. -/
def SelectItem.toColumn : SelectItem → SelectColumn
  | .wildcard => { expression := "*", kind := .wildcard }
  | .tableWildcard table => { expression := table ++ ".*", kind := .tableWildcard table }
  | .expr e alias? text =>
    { expression := text
      alias?
      kind := match e.asColumn? with
        | some ref => .column ref
        | none => .expression
      aggregate := e.containsAggregate
      expr? := some e }

/-- A table that is joined to those before it. -/
structure JoinClause where
  kind : JoinKind
  table : String
  alias? : Option String := none
  /-- The text of the condition. -/
  condition : Option String := none
  /-- The two columns, when the condition is one equality between columns. -/
  equality : Option (ColumnRef × ColumnRef) := none
  /-- Whether it comes from the FROM list rather than from a JOIN. -/
  implicit : Bool
deriving Repr

/-- What the rest of the statement calls the table. -/
def JoinClause.qualifier (j : JoinClause) : String := j.alias?.getD j.table

namespace Select

/-- The items of the SELECT list. -/
def columns (s : Select) : List SelectColumn := s.items.map SelectItem.toColumn

/-- The tables behind the first, those of the FROM list before the joins. -/
def joinClauses (s : Select) : List JoinClause :=
  s.moreTables.map (fun t => { kind := .cross, table := t.name, alias? := t.alias?, implicit := true })
    ++ s.joins.map fun j =>
      { kind := j.kind
        table := j.table.name
        alias? := j.table.alias?
        condition := j.conditionText
        equality := j.condition.bind Expr.equality?
        implicit := false }

/-- Every table, in the order of FROM and the joins. -/
def allTables (s : Select) : List TableRef := s.tables ++ s.joins.map Join.table

/-- Names a table by itself and by its alias. -/
def register (names : List (String × String)) (t : TableRef) : List (String × String) :=
  let names := Assoc.insert names t.name t.name
  match t.alias? with
  | some a => Assoc.insert names a t.name
  | none => names

/-- What every name stands for; a later alias hides an earlier one. -/
def tableNames (s : Select) : List (String × String) := s.allTables.foldl register []

/-- The texts of the aggregate calls in the items and then in HAVING, each once. -/
def aggregates (s : Select) : List String :=
  let inItems := s.items.flatMap fun
    | .expr e _ _ => e.aggregates
    | _ => []
  let inHaving := s.having.elim [] fun h => h.node.aggregates
  (inItems ++ inHaving).foldl
    (fun texts call => if texts.contains call.text then texts else texts ++ [call.text]) []

/-- Where a clause begins. -/
def startOf? (s : Select) : ClauseKind → Option Nat
  | .filter => s.filter.map (·.span.start)
  | .groupBy => s.groupBy.map (·.span.start)
  | .having => s.having.map (·.span.start)
  | .orderBy => s.orderBy.map (·.span.start)
  | .limit => s.limit.map (·.span.start)
  | .offset => s.offset.map (·.span.start)

/-- Where FROM, the joins and WHERE end. -/
def relationEnd (s : Select) : Nat :=
  let ends := s.joins.map (·.span.stop) ++ (s.filter.map (·.span.stop)).toList
  ends.foldl max s.fromSpan.stop

def groupKeys (s : Select) : List GroupKey := s.groupBy.elim [] (·.node)

def sortKeys (s : Select) : List SortKey := s.orderBy.elim [] (·.node)

end Select

/-- A statement's text and what the grammar made of it. -/
structure Descriptor where
  sql : String
  reading : Except ParseError Select

namespace Descriptor

/-- Describes a text; this never fails. -/
def extract (sql : String) : Descriptor := ⟨sql, parse sql⟩

/-- The statement, when the grammar read one. -/
def select? (d : Descriptor) : Option Select := d.reading.toOption

/-- Whether the grammar read the whole text. -/
def isComplete (d : Descriptor) : Bool := d.select?.isSome

def parseError? (d : Descriptor) : Option ParseError :=
  match d.reading with
  | .ok _ => none
  | .error e => some e

def distinct (d : Descriptor) : Bool := d.select?.any Select.distinct

def columns (d : Descriptor) : List SelectColumn := d.select?.elim [] Select.columns

/-- The table the statement starts from. -/
def fromTable? (d : Descriptor) : Option String :=
  match d.reading with
  | .ok s => some s.base.name
  | .error _ => firstFromTable? d.sql

def fromAlias? (d : Descriptor) : Option String := d.select?.bind (·.base.alias?)

/-- What every name of a table stands for. -/
def tableNames (d : Descriptor) : List (String × String) :=
  match d.reading with
  | .ok s => s.tableNames
  | .error _ => d.fromTable?.toList.map fun t => (t, t)

def joins (d : Descriptor) : List JoinClause := d.select?.elim [] Select.joinClauses

/-- The table that a name stands for; an unknown name stands for itself. -/
def resolveTable (d : Descriptor) (name : String) : String := (d.tableNames.lookup name).getD name

/-- What the statement calls its first table. -/
def fromQualifier? (d : Descriptor) : Option String := d.fromAlias?.or d.fromTable?

/-- What the statement calls its tables, in order. -/
def qualifiers (d : Descriptor) : List String :=
  d.fromQualifier?.toList ++ d.joins.map JoinClause.qualifier

/-- Whether nothing but `*` is selected. -/
def selectsEverything (d : Descriptor) : Bool := d.columns.all fun c => c.kind == .wildcard

def groupKeys (d : Descriptor) : List GroupKey := d.select?.elim [] Select.groupKeys

/-- The text of the WHERE condition. -/
def filter? (d : Descriptor) : Option String := d.select?.bind fun s => s.filter.map (·.text)

/-- The text of the HAVING condition. -/
def having? (d : Descriptor) : Option String := d.select?.bind fun s => s.having.map (·.text)

def sortKeys (d : Descriptor) : List SortKey := d.select?.elim [] Select.sortKeys

def limit? (d : Descriptor) : Option Nat := d.select?.bind fun s => s.limit.map (·.node)

def offset? (d : Descriptor) : Option Nat := d.select?.bind fun s => s.offset.map (·.node)

/-- The texts of the aggregate calls. -/
def aggregates (d : Descriptor) : List String := d.select?.elim [] Select.aggregates

/-- Whether the result has a row per group rather than per row. -/
def isAggregateQuery (d : Descriptor) : Bool :=
  !d.groupKeys.isEmpty || d.columns.any SelectColumn.aggregate

/-! ## Cutting the text -/

/-- Where the first clause from `k` on begins, or the end of the text. -/
def cutBefore (d : Descriptor) (k : ClauseKind) : Nat :=
  let starts := d.select?.elim [] fun s => k.andLater.filterMap s.startOf?
  starts.min?.getD d.sql.utf8ByteSize

/-- The text before the first clause from `k` on. -/
def truncateBefore (d : Descriptor) (k : ClauseKind) : String :=
  Text.trimEnd (Text.slice d.sql 0 (d.cutBefore k))

/-- The text before the first clause from `k` on, with `extra` as further items
of its SELECT list. -/
def withSelectAppended? (d : Descriptor) (extra : String) (k : ClauseKind) : Option String := do
  let s ← d.select?
  let stop := s.itemsSpan.stop
  let cut := (d.truncateBefore k).utf8ByteSize
  if stop ≤ cut then
    return Text.slice d.sql 0 stop ++ ", " ++ extra ++ Text.slice d.sql stop cut
  else none

/-- The text of the SELECT list. -/
def selectListText? (d : Descriptor) : Option String :=
  d.select?.map fun s => Text.slice d.sql s.itemsSpan.start s.itemsSpan.stop

/-- FROM, the joins and WHERE as written. -/
def relationText? (d : Descriptor) : Option String :=
  d.select?.map fun s => Text.trim (Text.slice d.sql s.fromSpan.start s.relationEnd)

/-- FROM and the joins as written. -/
def sourceText? (d : Descriptor) : Option String :=
  d.select?.map fun s =>
    Text.trim (Text.slice d.sql s.fromSpan.start ((s.startOf? .filter).getD s.relationEnd))

/-- The digest of the text. -/
def fingerprint (d : Descriptor) : String := Sha256.hex d.sql

end Descriptor

end QueryReplay.Sql
