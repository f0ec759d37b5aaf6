import QueryReplay.Number.Numeral
import QueryReplay.Settings.Basic

/-!
# Variables of the environment

A variable that is set wins over the settings file.  The other way round the
logging settings are handed on as variables.
-/

namespace QueryReplay

/-- The variables that are set. -/
abbrev Environment := List (String × String)

namespace Environment

def get? (env : Environment) (name : String) : Option String := env.lookup name

end Environment

def hostVariable : String := "SQLSTEP_SERVER_HOST"
def portVariable : String := "SQLSTEP_SERVER_PORT"
def datasetVariable : String := "SQLSTEP_DATASET"
def databaseVariable : String := "SQLSTEP_DATABASE"
def logLevelVariable : String := "RUST_LOG"
def logFormatVariable : String := "LOG_FORMAT"
def logOutputVariable : String := "LOG_OUTPUT"
def logDirectoryVariable : String := "LOG_DIR"

/-- A port number that 16 bits hold. -/
def portOfNat? (n : Nat) : Option UInt16 :=
  if h : n < UInt16.size then some (.ofNatLT n h) else none

/-- A port in decimal digits, with at most a plus sign before them. -/
def portOfText? (s : String) : Option UInt16 :=
  let digits := match s.toList with
    | '+' :: rest => rest
    | cs => cs
  if digits.isEmpty || !digits.all Char.isDigit then none
  else portOfNat? (Numeral.valueOf digits)

namespace Settings

/-- The port that the environment says, if it says one. -/
def overridingPort (port : UInt16) (env : Environment) : Except SettingsError UInt16 :=
  match env.get? portVariable with
  | none => .ok port
  | some text =>
    match portOfText? text with
    | some port => .ok port
    | none => .error (.invalidValue portVariable text)

/-- The settings with what the environment says in place of them. -/
def override (s : Settings) (env : Environment) : Except SettingsError Settings := do
  let port ← overridingPort s.server.port env
  return {
    server := { host := (env.get? hostVariable).getD s.server.host, port }
    dataset := {
      name := (env.get? datasetVariable).getD s.dataset.name
      database? := (env.get? databaseVariable).or s.dataset.database? }
    logging := {
      level := (env.get? logLevelVariable).getD s.logging.level
      format := (env.get? logFormatVariable).getD s.logging.format
      output := (env.get? logOutputVariable).getD s.logging.output
      directory := (env.get? logDirectoryVariable).getD s.logging.directory } }

/-- The variables that tell how to log. -/
def loggingVariables (s : Settings) : Environment :=
  [(logLevelVariable, s.logging.level), (logFormatVariable, s.logging.format),
    (logOutputVariable, s.logging.output), (logDirectoryVariable, s.logging.directory)]

end Settings

end QueryReplay
