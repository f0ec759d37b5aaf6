import QueryReplay.Database.Command
import QueryReplay.Database.Order
import QueryReplay.Engine.Connection

/-!
# Reading a table

A query keeps the rows that its condition holds for, takes the items from each,
drops repetitions if it is DISTINCT, sorts, and cuts.  Besides its columns a row
has its identity, which is called `rowid`.
-/

namespace QueryReplay

/-- What is read of a row. -/
inductive Slot where
  | cell (position : Nat)
  | identity
deriving DecidableEq, Repr

/-- The name of the identity. -/
def identityName : String := "rowid"

namespace StoredRow

def read (r : StoredRow) : Slot → Cell
  | .cell k => r.cells.getD k .null
  | .identity => .integer r.id

end StoredRow

namespace StoredTable

/-- What a reference without qualifier means. -/
def slot? (t : StoredTable) (name : String) : Option Slot :=
  match t.position? name with
  | some k => some (.cell k)
  | none => if Text.sameLetters name identityName then some .identity else none

/-- What a reference means in a table that the command calls `qualifier`. -/
def resolve (t : StoredTable) (qualifier : String) (ref : Sql.ColumnRef) :
    Except DatabaseError Slot :=
  match ref.table with
  | none =>
    match t.slot? ref.column with
    | some s => .ok s
    | none => .error (.missingColumn ref.column)
  | some q =>
    if Text.sameLetters q qualifier then
      match t.slot? ref.column with
      | some s => .ok s
      | none => .error (.missingQualified q ref.column)
    else .error (.missingQualifier q)

/-- The type of what is read. -/
def slotType (t : StoredTable) : Slot → ColumnType
  | .cell k => (t.columns[k]?.map StoredColumn.type).getD .varchar
  | .identity => .bigint

/-- The name of what is read, as the table spells it. -/
def slotName (t : StoredTable) : Slot → String
  | .cell k => (t.columns[k]?.map StoredColumn.name).getD ""
  | .identity => identityName

/-! ## Conditions -/

/-- A side of a comparison whose column is found. -/
inductive Side where
  | value (c : Cell)
  | slot (s : Slot)

def Side.read (r : StoredRow) : Side → Cell
  | .value c => c
  | .slot s => r.read s

def side (t : StoredTable) (qualifier : String) : Operand → Except DatabaseError Side
  | .literal c => .ok (.value c)
  | .column ref => return .slot (← t.resolve qualifier ref)

/-- A text that is compared with a column is read as what the column holds. -/
def adapt (t : StoredTable) (s other : Side) : Except DatabaseError Side :=
  match s, other with
  | .value (.text utf8), .slot slot =>
    match (Cell.text utf8).convert? (t.slotType slot) with
    | some c => .ok (.value c)
    | none => .error (.conversion (t.slotType slot))
  | s, _ => .ok s

/-- The kind of values on a side; NULL is of none. -/
def sideKind? (t : StoredTable) : Side → Option OrderKind
  | .value c => c.orderKey?.map OrderKey.kind
  | .slot s => some (t.slotType s).orderKind

/-- Refuses to compare values of two kinds. -/
def checkKinds (t : StoredTable) (left right : Side) : Except DatabaseError Unit :=
  match t.sideKind? left, t.sideKind? right with
  | some a, some b => if a = b then .ok () else .error .incomparable
  | _, _ => .ok ()

/-- Whether a comparison holds; not if one of the values is NULL. -/
def compareCells (op : Comparison) (a b : Cell) : Bool := (a.compare? b).any op.holds

/-- The rows that a condition holds for, as a test. -/
def test (t : StoredTable) (qualifier : String) :
    Condition → Except DatabaseError (StoredRow → Bool)
  | .compare op left right => do
    let l ← t.side qualifier left
    let r ← t.side qualifier right
    let l' ← t.adapt l r
    let r' ← t.adapt r l
    t.checkKinds l' r'
    return fun row => compareCells op (l'.read row) (r'.read row)
  | .isNull subject negated => do
    let s ← t.side qualifier subject
    return fun row => (s.read row == .null) != negated

/-- The rows that a condition holds for; without one all rows. -/
def select (t : StoredTable) (qualifier : String) (filter? : Option Condition) :
    Except DatabaseError (List StoredRow) :=
  match filter? with
  | none => .ok t.rows
  | some c => do
    let holds ← t.test qualifier c
    return t.rows.filter holds

/-! ## Items -/

/-- An output column: its name, and what it is read from. -/
structure OutputSlot where
  name : String
  alias? : Option String
  slot : Slot

/-- An output column without alias. -/
def plainOutput (t : StoredTable) (s : Slot) : OutputSlot := ⟨t.slotName s, none, s⟩

/-- The output columns of an item that is no count. -/
def outputsOf (t : StoredTable) (qualifier : String) :
    QueryItem → Except DatabaseError (List OutputSlot)
  | .wildcard => .ok ((List.range t.columns.length).map fun k => t.plainOutput (.cell k))
  | .tableWildcard table =>
    if Text.sameLetters table qualifier then
      .ok ((List.range t.columns.length).map fun k => t.plainOutput (.cell k))
    else .error (.missingQualifier table)
  | .column ref alias? => do
    let s ← t.resolve qualifier ref
    return [⟨alias?.getD (t.slotName s), alias?, s⟩]
  | .count _ => .error .malformed

/-- The alias of a query that counts rows and does nothing else. -/
def countAlias? : List QueryItem → Option (Option String)
  | [.count alias?] => some alias?
  | _ => none

/-- What a sort key reads: an alias before a column of the table. -/
def sortSlot (t : StoredTable) (qualifier : String) (outputs : List OutputSlot) :
    SortTarget → Except DatabaseError Slot
  | .position n =>
    match if n = 0 then none else outputs[n - 1]? with
    | some o => .ok o.slot
    | none => .error .malformed
  | .column ref =>
    let aliased := outputs.find? fun o =>
      ref.table.isNone && o.alias?.any fun a => Text.sameLetters a ref.column
    match aliased with
    | some o => .ok o.slot
    | none => t.resolve qualifier ref

/-- The order of rows by sort keys, the first that tells them apart. -/
def rowOrder (keys : List (Slot × Bool)) (a b : StoredRow) : Ordering :=
  keys.foldl (fun o (s, descending) => o.then (Cell.sortOrder descending (a.read s) (b.read s))) .eq

/-- The rows without those that repeat what is read of an earlier one. -/
def dropRepeated (read : StoredRow → List Cell) (rows : List StoredRow) : List StoredRow :=
  (rows.foldl (fun (seen, kept) r =>
    if seen.contains (read r) then (seen, kept) else (read r :: seen, r :: kept))
    (([], []) : List (List Cell) × List StoredRow)).2.reverse

/-- The rows that LIMIT and OFFSET leave. -/
def window {α : Type} (q : Query) (rows : List α) : List α :=
  let rest := rows.drop q.offset
  match q.limit? with
  | some n => rest.take n
  | none => rest

/-- The answer to a query. -/
def answer (t : StoredTable) (q : Query) : Except DatabaseError Answer := do
  let qualifier := q.alias?.getD q.table
  let rows ← t.select qualifier q.filter?
  match countAlias? q.items with
  | some alias? =>
    return ⟨[alias?.getD "count_star()"], window q [[.integer rows.length]]⟩
  | none =>
    let outputs := (← q.items.mapM (t.outputsOf qualifier)).flatten
    let keys ← q.sort.mapM fun (target, descending) => do
      return (← t.sortSlot qualifier outputs target, descending)
    let read (r : StoredRow) : List Cell := outputs.map fun o => r.read o.slot
    let rows := if q.distinct then dropRepeated read rows else rows
    let rows := rows.mergeSort fun a b => rowOrder keys a b != .gt
    return ⟨outputs.map OutputSlot.name, (window q rows).map read⟩

end StoredTable

end QueryReplay
