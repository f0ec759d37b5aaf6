import QueryReplay.Table.Snapshot

/-!
# The steps of a replay

One step per relational operator, each with the table it leaves and with the
row indices that show how it came about.
-/

namespace QueryReplay

/-- Reading a table. -/
structure ScanStep where
  description : String
  table : String
  result : Snapshot
deriving Repr

/-- Joining a further table. -/
structure JoinStep where
  description : String
  joinType : String
  condition : Option String
  left : Snapshot
  right : Snapshot
  /-- Left and right index of every pair that met. -/
  matched : List (Nat × Nat)
  unmatchedLeft : List Nat
  unmatchedRight : List Nat
  result : Snapshot
deriving Repr

/-- Keeping the rows, or the groups, that satisfy a condition. -/
structure FilterStep where
  description : String
  condition : String
  input : Snapshot
  kept : List Nat
  filteredOut : List Nat
  result : Snapshot
deriving Repr

/-- Rows with the same key. -/
structure Group where
  /-- The key values as one text. -/
  key : String
  keyValues : List Json
  rows : List Nat
deriving Repr

/-- Putting rows into groups. -/
structure GroupStep where
  description : String
  columns : List String
  aggregates : List String
  input : Snapshot
  groups : List Group
  result : Snapshot
deriving Repr

/-- A column of the result. -/
structure ProjectedColumn where
  expression : String
  alias? : Option String
  outputName : String
  /-- The input column that the values were read from, if there is one. -/
  source : Option String
deriving DecidableEq, Repr

/-- Choosing and computing columns. -/
structure ProjectStep where
  description : String
  columns : List ProjectedColumn
  input : Snapshot
  result : Snapshot
deriving Repr

/-- A sort key and `ASC` or `DESC`. -/
structure SortTerm where
  column : String
  direction : String
deriving DecidableEq, Repr

/-- Sorting. -/
structure OrderStep where
  description : String
  terms : List SortTerm
  input : Snapshot
  result : Snapshot
deriving Repr

/-- Keeping a range of the rows. -/
structure LimitStep where
  description : String
  limit : Option Nat
  offset : Option Nat
  input : Snapshot
  result : Snapshot
deriving Repr

inductive Step where
  | scan (s : ScanStep)
  | join (s : JoinStep)
  | filter (s : FilterStep)
  | groupBy (s : GroupStep)
  | having (s : FilterStep)
  | project (s : ProjectStep)
  | orderBy (s : OrderStep)
  | limit (s : LimitStep)
deriving Repr

namespace Step

/-- The word that tells the kinds of step apart. -/
def kind : Step → String
  | scan _ => "Scan"
  | join _ => "Join"
  | filter _ => "Filter"
  | groupBy _ => "GroupBy"
  | having _ => "Having"
  | project _ => "Project"
  | orderBy _ => "OrderBy"
  | limit _ => "Limit"

def description : Step → String
  | scan s => s.description
  | join s => s.description
  | filter s => s.description
  | groupBy s => s.description
  | having s => s.description
  | project s => s.description
  | orderBy s => s.description
  | limit s => s.description

/-- The table after the step. -/
def result : Step → Snapshot
  | scan s => s.result
  | join s => s.result
  | filter s => s.result
  | groupBy s => s.result
  | having s => s.result
  | project s => s.result
  | orderBy s => s.result
  | limit s => s.result

end Step

/-- The name of the table that a run ends with. -/
def resultTable : String := "result"

/-- What comes of replaying a statement. -/
structure Outcome where
  steps : List Step
  finalResult : Snapshot
  error : Option String
  /-- Milliseconds by the clock of whoever ran it; a replay has none. -/
  executionTime : Double
deriving Repr

namespace Outcome

/-- All steps and the final table. -/
def success (steps : List Step) (finalResult : Snapshot) (executionTime : Double) : Outcome :=
  { steps, finalResult, error := none, executionTime }

/-- The steps up to an error; the final table is empty. -/
def failure (steps : List Step) (error : String) (executionTime : Double) : Outcome :=
  { steps, finalResult := .empty resultTable, error := some error, executionTime }

def isSuccess (o : Outcome) : Bool := o.error.isNone

end Outcome

end QueryReplay
