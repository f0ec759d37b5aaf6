import QueryReplay.Replay.Stages

/-!
# Replaying a statement

A statement is checked, and a SELECT is led through its stages; any other one
is run at once and the table it wrote to is shown.  A SELECT that the grammar
does not read is left to the engine, behind a look at the table it begins with.
-/

namespace QueryReplay

open Sql (Descriptor)

namespace Replay

/-- The groups, HAVING and the projection of the table that the filter left. -/
def shape (d : Descriptor) (current : Running) : Dialogue (Snapshot × List String) := do
  let labels := uniqueNames (d.columns.map (·.outputName))
  let keys := resolvedKeys d current.scope current.table.columns
  let grouped ←
    if d.groupKeys.isEmpty then pure ⟨current.table, none⟩
    else Stage.group d current keys labels
  let kept ← match d.having? with
    | some condition => Stage.having d grouped keys labels condition
    | none => pure grouped.table
  Stage.project d ⟨kept, current.scope⟩ labels

/-- Order and limit of the projected table, and the final table. -/
def conclude (d : Descriptor) (projected : Snapshot) (names : List String) : Dialogue Snapshot := do
  let ordered ←
    if d.sortKeys.isEmpty then pure projected else Stage.order d projected names
  if d.limit?.isSome || d.offset?.isSome then
    return (← Stage.limit d ordered names).renamed resultTable
  else if !d.sortKeys.isEmpty then
    -- without a limit the ordered statement is the whole statement
    return ordered.renamed resultTable
  else
    return ((← Dialogue.fetch d.sql).toSnapshot resultTable).labelled names

/-- A SELECT that the grammar read. -/
def readSelect (d : Descriptor) (base : String) : Dialogue Snapshot := do
  let scanned ← Stage.scan base
  Dialogue.showStep (Stage.scanStep base scanned)
  let joined ← Stage.joinAll d ⟨scanned, .unprefixed⟩ d.joins
  let filtered ← match d.filter? with
    | some condition => Stage.filter d joined.table condition
    | none => pure joined.table
  let (projected, names) ← shape d ⟨filtered, joined.scope⟩
  conclude d projected names

/-- A SELECT that the grammar does not read. -/
def unreadSelect (d : Descriptor) : Dialogue Snapshot := do
  match d.fromTable? with
  | some base =>
    let scanned ← Stage.scan base
    Dialogue.showStep (Stage.scanStep base scanned)
  | none => pure ()
  return (← Dialogue.fetch d.sql).toSnapshot resultTable

/-- Any SELECT. -/
def select (sql : String) : Dialogue Snapshot := do
  Dialogue.require (Sql.validate sql)
  let d := Descriptor.extract sql
  Dialogue.noteEvent (.clausesRead d.fingerprint d.isComplete d.joins.length)
  match d.reading with
  | .ok s => readSelect d s.base.name
  | .error _ => unreadSelect d

/-- A statement that writes to a table. -/
def modification (sql : String) (kind : Sql.StatementKind) : Dialogue Snapshot := do
  let reply ← Dialogue.fetch sql
  match Sql.targetTable? sql kind with
  | some table => return (← Stage.scan table).renamed table
  | none => return reply.toSnapshot resultTable

/-- Any statement; `sql` is normalized. -/
def statement (sql : String) : Dialogue Snapshot := do
  if (Text.trim sql).isEmpty then
    .refuse .empty
  else
    match Sql.classify sql with
    | .error o => do
      Dialogue.require (Sql.checkFirstWord sql)
      .refuse o
    | .ok .select => select sql
    | .ok kind => modification sql kind

end Replay

/-- The replay of a statement: what came of it, what the engine was asked, and
what was noted. -/
structure ReplayRecord (σ : Type) where
  outcome : Outcome
  state : σ
  calls : List String
  events : List Event

/-- Replays a statement with an engine.  This never fails: errors are part of
the outcome. -/
def replay {σ : Type} (engine : Engine σ) (sql : String) (s : σ) : ReplayRecord σ :=
  let t := (Replay.statement (Sql.normalize sql)).run engine s
  let count := t.steps.length
  match t.result with
  | .ok table =>
    { outcome := .success t.steps table (.zero false)
      state := t.state
      calls := t.calls
      events := t.events ++ [.completed count table.size] }
  | .error failure =>
    { outcome := .failure t.steps failure.message (.zero false)
      state := t.state
      calls := t.calls
      events := t.events ++ [.aborted failure.kind failure.message count] }

end QueryReplay
