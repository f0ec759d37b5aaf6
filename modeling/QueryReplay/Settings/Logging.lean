import QueryReplay.Settings.Environment

/-!
# Logging options

How a log is written and where to.  Any word that is not known means the
standard.
-/

namespace QueryReplay

inductive LogFormat where
  | pretty | json | compact
deriving DecidableEq, Repr

inductive LogOutput where
  | stdout | file | both
deriving DecidableEq, Repr

/-- The format of a word. -/
def LogFormat.ofWord : String → LogFormat
  | "json" => json
  | "compact" => compact
  | _ => pretty

/-- The output of a word. -/
def LogOutput.ofWord : String → LogOutput
  | "file" => file
  | "both" => both
  | _ => stdout

/-- The format that the environment asks for. -/
def LogFormat.ofEnvironment (env : Environment) : LogFormat :=
  .ofWord ((env.get? logFormatVariable).getD "")

/-- The output that the environment asks for. -/
def LogOutput.ofEnvironment (env : Environment) : LogOutput :=
  .ofWord ((env.get? logOutputVariable).getD "")

end QueryReplay
