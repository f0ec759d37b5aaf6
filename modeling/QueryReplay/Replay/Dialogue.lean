import QueryReplay.Engine.Reply
import QueryReplay.Replay.Event
import QueryReplay.Replay.Hint
import QueryReplay.Replay.Step
import QueryReplay.Sql.Admission

/-!
# Dialogues with an engine

A replay is a dialogue: it asks the engine to run statements, shows steps and
notes events, and ends with a value or an objection.  What it does next depends
on the engine's answers and on nothing else, so a dialogue is a tree that
branches on answers.  `Dialogue.run` leads it with an engine; a statement that
the engine fails on ends it there, and what was shown before stays shown.
-/

namespace QueryReplay

/-- Why a replay ends without a result. -/
inductive Failure where
  /-- The statement was not admitted. -/
  | objection (o : Sql.Objection)
  /-- The engine failed on a statement; the message is worded as a hint. -/
  | engine (sql message : String)
deriving DecidableEq, Repr

namespace Failure

def message : Failure → String
  | objection o => o.message
  | engine _ m => m

/-- The word for the kind of failure. -/
def kind : Failure → String
  | objection (.unsupported _) => "unsupported_statement"
  | objection _ => "syntax_validation"
  | engine _ _ => "engine_execution"

end Failure

inductive Dialogue (α : Type) where
  | done (a : α)
  | refuse (o : Sql.Objection)
  | ask (sql : String) (next : Reply → Dialogue α)
  | display (s : Step) (next : Dialogue α)
  | note (e : Event) (next : Dialogue α)

namespace Dialogue

variable {α β σ : Type}

/-- One dialogue after another. -/
def bind : Dialogue α → (α → Dialogue β) → Dialogue β
  | done a, f => f a
  | refuse o, _ => refuse o
  | ask sql next, f => ask sql fun r => (next r).bind f
  | display s next, f => display s (next.bind f)
  | note e next, f => note e (next.bind f)

instance : Monad Dialogue where
  pure := done
  bind := bind

/-- Asks one statement. -/
def fetch (sql : String) : Dialogue Reply := ask sql done

/-- Shows one step. -/
def showStep (s : Step) : Dialogue Unit := display s (done ())

/-- Notes one event. -/
def noteEvent (e : Event) : Dialogue Unit := note e (done ())

/-- Goes on unless there is an objection. -/
def require {γ : Type} : Except Sql.Objection γ → Dialogue γ
  | .ok a => done a
  | .error o => refuse o

/-- The record of a dialogue that was led. -/
structure Transcript (σ α : Type) where
  result : Except Failure α
  /-- The engine's state at the end. -/
  state : σ
  /-- The statements that were asked, in order. -/
  calls : List String
  events : List Event
  steps : List Step

/-- Leads a dialogue with an engine. -/
def run (engine : Engine σ) : Dialogue α → σ → Transcript σ α
  | done a, s => ⟨.ok a, s, [], [], []⟩
  | refuse o, s => ⟨.error (.objection o), s, [], [], []⟩
  | ask sql next, s =>
    match engine.execute sql s with
    | (.ok reply, s) =>
      let t := run engine (next reply) s
      { t with calls := sql :: t.calls, events := .engineCall sql :: t.events }
    | (.error message, s) =>
      ⟨.error (.engine sql (hintFor message ((engine.tableNames s).getD []))), s, [sql],
        [.engineCall sql], []⟩
  | display step next, s =>
    let t := run engine next s
    { t with steps := step :: t.steps }
  | note e next, s =>
    let t := run engine next s
    { t with events := e :: t.events }

end Dialogue

end QueryReplay
