import QueryReplay.Replay.Step
import QueryReplay.Table.Codec

/-!
# Steps as documents

A step is an object of its fields with its kind as the member `type`; what is
absent is left out.  Reading a written step gives it back, its row identities
aside.
-/

namespace QueryReplay

open Json (optMember Fields)

/-! ## Writing -/

/-- A pair of indices. -/
def pairToJson (p : Nat × Nat) : Json := .nats [p.1, p.2]

def ScanStep.members (s : ScanStep) : List (String × Json) :=
  [("description", .string s.description), ("tableName", .string s.table),
    ("resultTable", s.result.toJson)]

def JoinStep.members (s : JoinStep) : List (String × Json) :=
  [("description", .string s.description), ("joinType", .string s.joinType)]
  ++ optMember "condition" (s.condition.map .string)
  ++ [("leftTable", s.left.toJson), ("rightTable", s.right.toJson),
    ("matchedPairs", .list pairToJson s.matched), ("unmatchedLeft", .nats s.unmatchedLeft),
    ("unmatchedRight", .nats s.unmatchedRight), ("resultTable", s.result.toJson)]

def FilterStep.members (s : FilterStep) : List (String × Json) :=
  [("description", .string s.description), ("condition", .string s.condition),
    ("inputTable", s.input.toJson), ("keptRows", .nats s.kept),
    ("filteredOutRows", .nats s.filteredOut), ("resultTable", s.result.toJson)]

def Group.toJson (g : Group) : Json :=
  .object [("key", .string g.key), ("keyValues", .array g.keyValues), ("rowIndices", .nats g.rows)]

def GroupStep.members (s : GroupStep) : List (String × Json) :=
  [("description", .string s.description), ("columns", .strings s.columns),
    ("aggregates", .strings s.aggregates), ("inputTable", s.input.toJson),
    ("groups", .list Group.toJson s.groups), ("resultTable", s.result.toJson)]

def ProjectedColumn.toJson (c : ProjectedColumn) : Json :=
  .object <| [("expression", .string c.expression)] ++ optMember "alias" (c.alias?.map .string)
    ++ [("outputName", .string c.outputName)] ++ optMember "source" (c.source.map .string)

def ProjectStep.members (s : ProjectStep) : List (String × Json) :=
  [("description", .string s.description), ("columns", .list ProjectedColumn.toJson s.columns),
    ("inputTable", s.input.toJson), ("resultTable", s.result.toJson)]

def SortTerm.toJson (t : SortTerm) : Json :=
  .object [("column", .string t.column), ("direction", .string t.direction)]

def OrderStep.members (s : OrderStep) : List (String × Json) :=
  [("description", .string s.description), ("terms", .list SortTerm.toJson s.terms),
    ("inputTable", s.input.toJson), ("resultTable", s.result.toJson)]

def LimitStep.members (s : LimitStep) : List (String × Json) :=
  [("description", .string s.description)] ++ optMember "limit" (s.limit.map .nat)
  ++ optMember "offset" (s.offset.map .nat)
  ++ [("inputTable", s.input.toJson), ("resultTable", s.result.toJson)]

namespace Step

/-- The fields of the step, its kind apart. -/
def members : Step → List (String × Json)
  | scan s => s.members
  | join s => s.members
  | filter s => s.members
  | groupBy s => s.members
  | having s => s.members
  | project s => s.members
  | orderBy s => s.members
  | limit s => s.members

def toJson (s : Step) : Json := .object (("type", .string s.kind) :: s.members)

end Step

def Outcome.toJson (o : Outcome) : Json :=
  .object <| [("steps", .list Step.toJson o.steps), ("finalResult", o.finalResult.toJson)]
    ++ optMember "error" (o.error.map .string) ++ [("executionTime", .float o.executionTime)]

/-! ## Reading -/

def ScanStep.ofJson? (j : Json) : Option ScanStep := do
  let fields ← Fields.ofJson? 3 j
  let description ← fields.required 0 "description" Json.string?
  let table ← fields.required 1 "tableName" Json.string?
  let result ← fields.required 2 "resultTable" Snapshot.ofJson?
  return { description, table, result }

def JoinStep.ofJson? (j : Json) : Option JoinStep := do
  let fields ← Fields.ofJson? 9 j
  let description ← fields.required 0 "description" Json.string?
  let joinType ← fields.required 1 "joinType" Json.string?
  let condition ← fields.nullable 2 "condition" Json.string?
  let left ← fields.required 3 "leftTable" Snapshot.ofJson?
  let right ← fields.required 4 "rightTable" Snapshot.ofJson?
  let matched ← fields.required 5 "matchedPairs" (Json.listOf? (Json.pairOf? Json.nat64? Json.nat64?))
  let unmatchedLeft ← fields.required 6 "unmatchedLeft" (Json.listOf? Json.nat64?)
  let unmatchedRight ← fields.required 7 "unmatchedRight" (Json.listOf? Json.nat64?)
  let result ← fields.required 8 "resultTable" Snapshot.ofJson?
  return ⟨description, joinType, condition, left, right, matched, unmatchedLeft,
    unmatchedRight, result⟩

def FilterStep.ofJson? (j : Json) : Option FilterStep := do
  let fields ← Fields.ofJson? 6 j
  let description ← fields.required 0 "description" Json.string?
  let condition ← fields.required 1 "condition" Json.string?
  let input ← fields.required 2 "inputTable" Snapshot.ofJson?
  let kept ← fields.required 3 "keptRows" (Json.listOf? Json.nat64?)
  let filteredOut ← fields.required 4 "filteredOutRows" (Json.listOf? Json.nat64?)
  let result ← fields.required 5 "resultTable" Snapshot.ofJson?
  return { description, condition, input, kept, filteredOut, result }

def Group.ofJson? (j : Json) : Option Group := do
  let fields ← Fields.ofJson? 3 j
  let key ← fields.required 0 "key" Json.string?
  let keyValues ← fields.required 1 "keyValues" Json.array?
  let rows ← fields.required 2 "rowIndices" (Json.listOf? Json.nat64?)
  return { key, keyValues, rows }

def GroupStep.ofJson? (j : Json) : Option GroupStep := do
  let fields ← Fields.ofJson? 6 j
  let description ← fields.required 0 "description" Json.string?
  let columns ← fields.required 1 "columns" (Json.listOf? Json.string?)
  let aggregates ← fields.required 2 "aggregates" (Json.listOf? Json.string?)
  let input ← fields.required 3 "inputTable" Snapshot.ofJson?
  let groups ← fields.required 4 "groups" (Json.listOf? Group.ofJson?)
  let result ← fields.required 5 "resultTable" Snapshot.ofJson?
  return { description, columns, aggregates, input, groups, result }

def ProjectedColumn.ofJson? (j : Json) : Option ProjectedColumn := do
  let fields ← Fields.ofJson? 4 j
  let expression ← fields.required 0 "expression" Json.string?
  let alias? ← fields.nullable 1 "alias" Json.string?
  let outputName ← fields.required 2 "outputName" Json.string?
  let source ← fields.nullable 3 "source" Json.string?
  return { expression, alias?, outputName, source }

def ProjectStep.ofJson? (j : Json) : Option ProjectStep := do
  let fields ← Fields.ofJson? 4 j
  let description ← fields.required 0 "description" Json.string?
  let columns ← fields.required 1 "columns" (Json.listOf? ProjectedColumn.ofJson?)
  let input ← fields.required 2 "inputTable" Snapshot.ofJson?
  let result ← fields.required 3 "resultTable" Snapshot.ofJson?
  return { description, columns, input, result }

def SortTerm.ofJson? (j : Json) : Option SortTerm := do
  let fields ← Fields.ofJson? 2 j
  let column ← fields.required 0 "column" Json.string?
  let direction ← fields.required 1 "direction" Json.string?
  return { column, direction }

def OrderStep.ofJson? (j : Json) : Option OrderStep := do
  let fields ← Fields.ofJson? 4 j
  let description ← fields.required 0 "description" Json.string?
  let terms ← fields.required 1 "terms" (Json.listOf? SortTerm.ofJson?)
  let input ← fields.required 2 "inputTable" Snapshot.ofJson?
  let result ← fields.required 3 "resultTable" Snapshot.ofJson?
  return { description, terms, input, result }

def LimitStep.ofJson? (j : Json) : Option LimitStep := do
  let fields ← Fields.ofJson? 5 j
  let description ← fields.required 0 "description" Json.string?
  let limit ← fields.nullable 1 "limit" Json.nat64?
  let offset ← fields.nullable 2 "offset" Json.nat64?
  let input ← fields.required 3 "inputTable" Snapshot.ofJson?
  let result ← fields.required 4 "resultTable" Snapshot.ofJson?
  return { description, limit, offset, input, result }

namespace Step

/-- Reads a step of the given kind from its fields. -/
def ofKind? (kind : String) (j : Json) : Option Step :=
  match kind with
  | "Scan" => (ScanStep.ofJson? j).map scan
  | "Join" => (JoinStep.ofJson? j).map join
  | "Filter" => (FilterStep.ofJson? j).map filter
  | "GroupBy" => (GroupStep.ofJson? j).map groupBy
  | "Having" => (FilterStep.ofJson? j).map having
  | "Project" => (ProjectStep.ofJson? j).map project
  | "OrderBy" => (OrderStep.ofJson? j).map orderBy
  | "Limit" => (LimitStep.ofJson? j).map limit
  | _ => none

/-- Reads a step; in an array the kind comes first. -/
def ofJson? : Json → Option Step
  | .object ms => ((Json.Members.get? ms "type").bind Json.string?).bind
      fun kind => ofKind? kind (.object ms)
  | .array (kind :: fields) => kind.string?.bind fun kind => ofKind? kind (.array fields)
  | _ => none

/-- The step without what is not written. -/
def withoutIds : Step → Step
  | scan s => scan { s with result := s.result.withoutIds }
  | join s => join { s with
      left := s.left.withoutIds, right := s.right.withoutIds, result := s.result.withoutIds }
  | filter s => filter { s with input := s.input.withoutIds, result := s.result.withoutIds }
  | groupBy s => groupBy { s with input := s.input.withoutIds, result := s.result.withoutIds }
  | having s => having { s with input := s.input.withoutIds, result := s.result.withoutIds }
  | project s => project { s with input := s.input.withoutIds, result := s.result.withoutIds }
  | orderBy s => orderBy { s with input := s.input.withoutIds, result := s.result.withoutIds }
  | limit s => limit { s with input := s.input.withoutIds, result := s.result.withoutIds }

end Step

def Outcome.ofJson? (j : Json) : Option Outcome := do
  let fields ← Fields.ofJson? 4 j
  let steps ← fields.required 0 "steps" (Json.listOf? Step.ofJson?)
  let finalResult ← fields.required 1 "finalResult" Snapshot.ofJson?
  let error ← fields.nullable 2 "error" Json.string?
  let executionTime ← fields.required 3 "executionTime" Json.double?
  return { steps, finalResult, error, executionTime }

end QueryReplay
