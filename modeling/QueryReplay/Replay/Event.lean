import QueryReplay.Json.Value
import QueryReplay.Text.Quoted

/-!
# Log events

What a replay and the request handlers note down while they run.
-/

namespace QueryReplay

inductive Level where
  | debug | info | warn
deriving DecidableEq, Repr

def Level.word : Level → String
  | debug => "DEBUG"
  | info => "INFO"
  | warn => "WARN"

/-- A noted event; some have only fields. -/
structure Event where
  level : Level
  message : Option String
  fields : List (String × Json)
deriving Repr

namespace Event

/-- A statement is passed to the engine. -/
def engineCall (sql : String) : Event := ⟨.debug, some "Engine call", [("sql", .string sql)]⟩

/-- A SELECT was read clause by clause, completely or not. -/
def clausesRead (fingerprint : String) (complete : Bool) (joins : Nat) : Event :=
  ⟨.debug, some "Extracted clauses",
    [("fingerprint", .string fingerprint), ("complete", .bool complete), ("joins", .nat joins)]⟩

/-- The columns of a join condition were not found. -/
def joinKeysNotFound (condition : Option String) : Event :=
  ⟨.warn, some "Join columns not found, no rows will match",
    [("condition", .string (Text.quotedOption condition))]⟩

/-- A join condition is not one equality between columns. -/
def joinUnsupported (condition : Option String) : Event :=
  ⟨.warn, some "Unsupported join condition, no rows will match",
    [("condition", .string (Text.quotedOption condition))]⟩

/-- There are more or fewer groups here than in the engine's answer. -/
def groupCountDiffers (here engine : Nat) : Event :=
  ⟨.warn, some "Group count differs from engine result",
    [("local", .nat here), ("engine", .nat engine)]⟩

def completed (steps rows : Nat) : Event :=
  ⟨.info, some "Pipeline completed", [("steps", .nat steps), ("rows", .nat rows)]⟩

def aborted (kind error : String) (steps : Nat) : Event :=
  ⟨.warn, some "Pipeline aborted",
    [("kind", .string kind), ("error", .string error), ("steps", .nat steps)]⟩

end Event

end QueryReplay
