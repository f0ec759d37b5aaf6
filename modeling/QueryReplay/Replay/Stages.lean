import QueryReplay.Relation.Distinct
import QueryReplay.Relation.Groups
import QueryReplay.Relation.Join
import QueryReplay.Relation.Reconcile
import QueryReplay.Replay.Dialogue
import QueryReplay.Replay.Queries

/-!
# The stages of a SELECT

Scan, joins, filter, groups, HAVING, projection, order, limit.  A stage takes
the running table, asks the engine what it cannot tell by itself, shows one step
and hands on the table after it.
-/

namespace QueryReplay

open Sql (Descriptor ClauseKind GroupKey JoinClause SelectColumn ColumnRef)

/-- The running table and the scope of its columns. -/
structure Running where
  table : Snapshot
  scope : Scope

/-- The table under other column names, when there is one for each column. -/
def Snapshot.labelled (s : Snapshot) (labels : List String) : Snapshot :=
  (s.relabel? labels).getD s

namespace Stage

/-! ## Reading tables -/

/-- The first cell of a row is its identity. -/
def scannedId (cells : List Json) : RowId := [cells.head?.bind Json.int64?]

/-- The answer to a scan as a table with identities. -/
def scannedTable (table : String) (r : Reply) : Snapshot :=
  (Snapshot.ofCells table (r.columns.drop 1) (r.rows.map (·.drop 1))).withRowIds
    (r.rows.map scannedId)

/-- Reads a whole table. -/
def scan (table : String) : Dialogue Snapshot := do
  return scannedTable table (← Dialogue.fetch (scanQuery table))

def scanStep (table : String) (scanned : Snapshot) : Step :=
  .scan
    { description := "Read all " ++ toString scanned.size ++ " rows from " ++ table
      table
      result := scanned }

/-! ## Joins -/

/-- The running table with prefixes on its columns. -/
def withPrefixes (d : Descriptor) (current : Running) : Running :=
  if current.scope.isPrefixed then current
  else
    let base := d.fromTable?.getD ""
    ⟨current.table.qualify base, current.scope.add (d.fromQualifier?.getD base) base⟩

def joinDescription (clause : JoinClause) (o : JoinOutcome) : String :=
  let rows := toString o.result.size ++ " rows"
  match clause.condition with
  | some condition =>
    clause.kind.display ++ " " ++ clause.table ++ " ON " ++ condition ++ ": "
      ++ toString o.pairs.matched.length ++ " matching pairs, " ++ rows
  | none =>
    if clause.implicit then
      "Combine every row with every row of " ++ clause.table ++ " (comma in FROM): " ++ rows
    else clause.kind.display ++ " " ++ clause.table ++ ": " ++ rows

/-- What is noted of a join that can match nothing. -/
def joinWarning? (clause : JoinClause) : JoinRule → Option Event
  | .keysNotFound => some (.joinKeysNotFound clause.condition)
  | .unsupported => some (.joinUnsupported clause.condition)
  | _ => none

/-- Joins one more table.  The step shows the left table as it was before its
columns got prefixes. -/
def join (d : Descriptor) (current : Running) (clause : JoinClause) : Dialogue Running := do
  let right ← scan clause.table
  let left := withPrefixes d current
  let pre := left.scope.choosePrefix clause.table clause.alias?
  let o := joinTables left.table left.scope right clause pre "joined"
  match joinWarning? clause o.rule with
  | some warning => Dialogue.noteEvent warning
  | none => pure ()
  Dialogue.showStep <| .join
    { description := joinDescription clause o
      joinType := clause.kind.display
      condition := clause.condition
      left := current.table.dim o.pairs.unmatchedLeft
      right := right.dim o.pairs.unmatchedRight
      matched := o.pairs.matched
      unmatchedLeft := o.pairs.unmatchedLeft
      unmatchedRight := o.pairs.unmatchedRight
      result := o.result }
  return ⟨o.result, left.scope.add clause.qualifier pre⟩

/-- Joins tables one after another. -/
def joinAll (d : Descriptor) (current : Running) : List JoinClause → Dialogue Running
  | [] => return current
  | clause :: rest => do
    let next ← join d current clause
    joinAll d next rest

/-! ## Conditions -/

/-- The step of a condition that kept some rows of a table, called `noun`. -/
def conditionStep (noun condition : String) (input : Snapshot) (r : Reconciliation) : FilterStep :=
  { description := "Keep " ++ noun ++ " where " ++ condition ++ " (" ++ toString r.kept.length
      ++ " of " ++ toString input.size ++ " " ++ noun ++ ")"
    condition
    input := (input.highlight r.kept).dim r.filteredOut
    kept := r.kept
    filteredOut := r.filteredOut
    result := r.result }

/-- Keeps the rows whose identities the engine answers. -/
def filter (d : Descriptor) (input : Snapshot) (condition : String) : Dialogue Snapshot := do
  let reply ← Dialogue.fetch (identityQuery d)
  let r := reconcileByIdentity input (reply.rows.map fun row => row.map Json.int64?) "filtered"
  Dialogue.showStep (.filter (conditionStep "rows" condition input r))
  return r.result

/-! ## Values row by row -/

/-- The rows of a per-row answer as identities with values; a row too short for
its identity is left out. -/
def valuesById (width : Nat) (r : Reply) : List (RowId × List Json) :=
  r.rows.filterMap fun row =>
    if row.length < width then none
    else some ((row.take width).map Json.int64?, row.drop width)

/-- The values of expressions for each row of a table, found by its identity;
a row that is not in the answer has nulls. -/
def evaluate (d : Descriptor) (table : Snapshot) (expressions : List String) :
    Dialogue (List (List Json)) := do
  let reply ← Dialogue.fetch (perRowQuery d expressions)
  let known := valuesById d.qualifiers.length reply
  let nulls := List.replicate expressions.length Json.null
  return (List.range table.size).map fun i =>
    ((table.rowId? i).bind fun id => known.lookup id).getD nulls

/-! ## Groups -/

/-- A table of groups, with the key tuple of each when it was asked for. -/
structure Keyed where
  table : Snapshot
  keys? : Option (List (List Json))

/-- The columns that group keys read, when all keys are plain columns. -/
def keyColumns? (current : Running) (keys : List GroupKey) : Option (List String) :=
  keys.mapM fun k => k.expr.asColumn?.bind fun ref =>
    current.scope.resolve? current.table.columns ref

/-- The key tuple of each row, read here when all keys are plain columns. -/
def keyTuples (d : Descriptor) (current : Running) (keys : List GroupKey) :
    Dialogue (List (List Json)) :=
  match keyColumns? current keys with
  | some columns => return current.table.rows.map fun row => columns.map (Json.Members.getD row)
  | none => evaluate d current.table (keys.map GroupKey.text)

/-- Splits the last columns off an answer as key tuples. -/
def splitKeys (count : Nat) (name : String) (labels : List String) (r : Reply) : Keyed :=
  let width := r.columns.length - count
  let shown : Reply := ⟨r.columns.take width, r.rows.map (·.take width)⟩
  ⟨(shown.toSnapshot name).labelled labels, some (r.rows.map (·.drop width))⟩

/-- The statement cut before a clause, its answer as a labelled table. -/
def fetchCut (d : Descriptor) (k : ClauseKind) (name : String) (labels : List String) :
    Dialogue Snapshot := do
  return ((← Dialogue.fetch (d.truncateBefore k)).toSnapshot name).labelled labels

/-- The statement cut before a clause with the keys of its groups; without them
where further items would change the rows. -/
def fetchKeyed (d : Descriptor) (keys : List GroupKey) (k : ClauseKind) (name : String)
    (labels : List String) : Dialogue Keyed :=
  match keyedQuery? d keys k with
  | some sql => return splitKeys keys.length name labels (← Dialogue.fetch sql)
  | none => return ⟨← fetchCut d k name labels, none⟩

/-- Puts the rows into groups; the table of groups is the engine's. -/
def group (d : Descriptor) (current : Running) (keys : List GroupKey) (labels : List String) :
    Dialogue Keyed := do
  let input := current.table
  let groups := groupRows (← keyTuples d current keys)
  let result ← fetchKeyed d keys .having "grouped" labels
  if result.table.size ≠ groups.length then
    Dialogue.noteEvent (.groupCountDiffers groups.length result.table.size)
  let columns := d.groupKeys.map GroupKey.text
  Dialogue.showStep <| .groupBy
    { description := "Group " ++ toString input.size ++ " rows by " ++ ", ".intercalate columns
        ++ " into " ++ toString groups.length ++ " groups"
      columns
      aggregates := d.aggregates
      input
      groups
      result := result.table }
  return result

/-- Key tuples as a table, so that they can be matched like rows. -/
def keyTable (tuples : List (List Json)) : Snapshot :=
  let width := (tuples.head?.map List.length).getD 0
  .ofCells "keys" ((List.range width).map fun k => keyHeader ++ toString k) tuples

/-- Matches groups by their keys when both sides have them, else by their values. -/
def reconcileGroups (before after : Keyed) : Reconciliation :=
  match before.keys?, after.keys? with
  | some old, some new =>
    { reconcileByValue (keyTable old) (keyTable new) "having" with
      result := after.table.renamed "having" }
  | _, _ => reconcileByValue before.table after.table "having"

/-- Keeps the groups that satisfy HAVING.  Without GROUP BY there is one group,
which is asked for here. -/
def having (d : Descriptor) (before : Keyed) (keys : List GroupKey) (labels : List String)
    (condition : String) : Dialogue Snapshot := do
  let before ←
    if d.groupKeys.isEmpty then pure ⟨← fetchCut d .having "aggregated" labels, none⟩
    else pure before
  let after ←
    if before.keys?.isSome then fetchKeyed d keys .orderBy "having" labels
    else pure ⟨← fetchCut d .orderBy "having" labels, none⟩
  let r := reconcileGroups before after
  Dialogue.showStep (.having (conditionStep "groups" condition before.table r))
  return r.result

/-! ## Projection -/

/-- Where the values of a result column come from. -/
inductive Source where
  /-- A column of the input. -/
  | column (name : String)
  /-- The expression at an index among those that are computed. -/
  | computed (index : Nat)
deriving DecidableEq, Repr

/-- A result column before its name is made distinct. -/
structure Output where
  expression : String
  alias? : Option String
  name : String
  source : Source
deriving Repr

/-- The result columns of one item, and the expression it adds to the `count`
that are computed before it. -/
def outputsOf (scope : Scope) (columns : List String) (count : Nat) (c : SelectColumn) :
    List Output × List String :=
  let computed : List Output × List String :=
    ([⟨c.expression, c.alias?, c.outputName, .computed count⟩], [c.expression])
  match c.kind with
  | .wildcard => (columns.map fun name => ⟨c.expression, none, name, .column name⟩, [])
  | .tableWildcard table =>
    ((scope.columnsOf columns table).map fun (name, own) =>
      ⟨c.expression, none, own, .column name⟩, [])
  | .column ref =>
    match scope.resolve? columns ref with
    | some column => ([⟨c.expression, c.alias?, c.outputName, .column column⟩], [])
    | none => computed
  | .expression => computed

/-- The result columns of all items, and the expressions that are computed. -/
def outputs (scope : Scope) (columns : List String) (items : List SelectColumn) :
    List Output × List String :=
  items.foldl (fun (outs, computed) c =>
    let (more, exprs) := outputsOf scope columns computed.length c
    (outs ++ more, computed ++ exprs)) ([], [])

/-- The cell of a result column in a row with the given computed values. -/
def Output.cell (o : Output) (row : Row) (values : List Json) : Json :=
  match o.source with
  | .column name => Json.Members.getD row name
  | .computed k => values.getD k .null

def Output.toColumn (o : Output) (name : String) : ProjectedColumn :=
  { expression := o.expression
    alias? := o.alias?
    outputName := name
    source := match o.source with
      | .column c => some c
      | .computed _ => none }

def projectDescription (d : Descriptor) : String :=
  "Select " ++ ", ".intercalate (d.columns.map fun c =>
    match c.alias? with
    | some a => c.expression ++ " AS " ++ a
    | none => c.expression)

/-- The result has a row per group: it is already there, or the engine answers
its only row. -/
def projectGroups (d : Descriptor) (input : Snapshot) (labels : List String) :
    Dialogue (Snapshot × List String) := do
  let shaped ←
    if !d.groupKeys.isEmpty || d.having?.isSome then pure (input.labelled labels)
    else fetchCut d .orderBy "projected" labels
  let result := shaped.renamed "projected"
  let columns := (d.columns.zip result.columns).zipIdx.map fun ((c, name), k) =>
    { expression := c.expression, alias? := c.alias?, outputName := name,
      source := input.columns[k]? : ProjectedColumn }
  Dialogue.showStep <| .project
    { description := projectDescription d, columns, input, result }
  return (result, result.columns)

/-- The result has a row per row of the input. -/
def projectRows (d : Descriptor) (current : Running) : Dialogue (Snapshot × List String) := do
  let input := current.table
  let (outs, computed) := outputs current.scope input.columns d.columns
  let values ← if computed.isEmpty then pure [] else evaluate d input computed
  let names := uniqueNames (outs.map Output.name)
  let rows := input.rows.zipIdx.map fun (row, i) =>
    names.zip (outs.map fun o => o.cell row (values.getD i []))
  let projected : Snapshot := { name := "projected", columns := names, rows, rowIds := input.rowIds }
  let result := if d.distinct then projected.distinct else projected
  let columns := (outs.zip names).map fun (o, name) => o.toColumn name
  Dialogue.showStep <| .project
    { description := projectDescription d, columns, input, result }
  return (result, names)

/-- Chooses and computes the columns of the result; answers their names as well. -/
def project (d : Descriptor) (current : Running) (labels : List String) :
    Dialogue (Snapshot × List String) :=
  if d.isAggregateQuery then projectGroups d current.table labels else projectRows d current

/-! ## Order and limit -/

/-- Takes the order of the engine's answer. -/
def order (d : Descriptor) (input : Snapshot) (labels : List String) : Dialogue Snapshot := do
  let result ← fetchCut d .limit "ordered" labels
  let terms := d.sortKeys.map fun k => (⟨k.text, k.direction⟩ : SortTerm)
  Dialogue.showStep <| .orderBy
    { description := "Sort by " ++ ", ".intercalate (terms.map fun t => t.column ++ " " ++ t.direction)
      terms, input, result }
  return result

def limitDescription : Option Nat → Option Nat → String
  | some limit, some offset =>
    "Skip " ++ toString offset ++ " rows, then keep at most " ++ toString limit
  | some limit, none => "Keep the first " ++ toString limit ++ " rows"
  | none, some offset => "Skip the first " ++ toString offset ++ " rows"
  | none, none => "Keep all rows"

/-- Takes the rows of the engine's answer to the whole statement. -/
def limit (d : Descriptor) (input : Snapshot) (labels : List String) : Dialogue Snapshot := do
  let result := ((← Dialogue.fetch d.sql).toSnapshot "limited").labelled labels
  Dialogue.showStep <| .limit
    { description := limitDescription d.limit? d.offset?
      limit := d.limit?
      offset := d.offset?
      input, result }
  return result

end Stage

end QueryReplay
