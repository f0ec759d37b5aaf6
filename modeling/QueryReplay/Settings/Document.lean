import QueryReplay.Settings.Environment
import QueryReplay.Yaml.Reader

/-!
# The settings file

A section that is left out has its standard values.  A section that is there
names all its fields, but for the database file.
-/

namespace QueryReplay

namespace Yaml

/-- The natural number that digits in a base write, if they are some. -/
def digitsInBase? (base : Nat) (cs : List Char) : Option Nat :=
  if cs.isEmpty then none
  else do
    let ds ← cs.mapM Json.Read.hexValue?
    if ds.all (· < base) then some (ds.foldl (fun n d => n * base + d) 0) else none

/-- The natural number that a bare scalar writes: decimal without leading
zeros, or in base 16, 8 or 2 behind `0x`, `0o`, `0b`. -/
def natural? : Yaml → Option Nat
  | .bare s =>
    let digits := match s.toList with
      | '+' :: rest => rest
      | cs => cs
    match digits with
    | '0' :: 'x' :: rest => digitsInBase? 16 rest
    | '0' :: 'o' :: rest => digitsInBase? 8 rest
    | '0' :: 'b' :: rest => digitsInBase? 2 rest
    | '0' :: _ :: _ => none
    | _ => digitsInBase? 10 digits
  | _ => none

/-- A field that must be there. -/
def required? {α : Type} (fields : List (String × Yaml)) (name : String)
    (read : Yaml → Option α) : Option α :=
  (fields.lookup name).bind read

/-- A field with a value of its own when it is left out. -/
def defaulted? {α : Type} (fields : List (String × Yaml)) (name : String)
    (read : Yaml → Option α) (value : α) : Option α :=
  match fields.lookup name with
  | some y => read y
  | none => some value

/-- A text, or nothing. -/
def nullableText? (y : Yaml) : Option (Option String) :=
  if y.isNull then some none else y.text?.map some

end Yaml

def ServerSettings.ofYaml? (y : Yaml) : Option ServerSettings := do
  let fields ← y.fields? ["host", "port"]
  let host ← Yaml.required? fields "host" Yaml.text?
  let port ← Yaml.required? fields "port" fun v => v.natural?.bind portOfNat?
  return { host, port }

def DatasetSettings.ofYaml? (y : Yaml) : Option DatasetSettings := do
  let fields ← y.fields? ["name", "database"]
  let name ← Yaml.required? fields "name" Yaml.text?
  let database? ← Yaml.defaulted? fields "database" Yaml.nullableText? none
  return { name, database? }

def LoggingSettings.ofYaml? (y : Yaml) : Option LoggingSettings := do
  let fields ← y.fields? ["level", "format", "output", "directory"]
  let level ← Yaml.required? fields "level" Yaml.text?
  let format ← Yaml.required? fields "format" Yaml.text?
  let output ← Yaml.required? fields "output" Yaml.text?
  let directory ← Yaml.required? fields "directory" Yaml.text?
  return { level, format, output, directory }

namespace Settings

/-- The settings that a file says. -/
def ofYaml? (y : Yaml) : Option Settings := do
  let fields ← y.fields? ["server", "dataset", "logging"]
  let server ← Yaml.defaulted? fields "server" ServerSettings.ofYaml? {}
  let dataset ← Yaml.defaulted? fields "dataset" DatasetSettings.ofYaml? {}
  let logging ← Yaml.defaulted? fields "logging" LoggingSettings.ofYaml? {}
  return { server, dataset, logging }

/-- The settings that the text of a file says. -/
def ofText (text : String) : Except SettingsError Settings :=
  match (Yaml.read? text).bind ofYaml? with
  | some s => .ok s
  | none => .error .malformed

/-- The settings of a file, overridden by the environment.  A file that is not
there says the standard settings, unless it is required. -/
def load (file? : Option String) (required : Bool) (env : Environment) :
    Except SettingsError Settings :=
  match file? with
  | some text => do
    let s ← ofText text
    s.override env
  | none =>
    if required then .error .missingFile else override {} env

end Settings

end QueryReplay
