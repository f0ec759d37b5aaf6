/-!
# Settings of the server

Where the server listens, what it starts with and how it logs.
-/

namespace QueryReplay

/-- The address that is listened on. -/
structure ServerSettings where
  host : String := "127.0.0.1"
  port : UInt16 := 3001
deriving DecidableEq, Repr

/-- The dataset to begin with, and the file it is kept in; without a file it is
kept in memory. -/
structure DatasetSettings where
  name : String := "company"
  database? : Option String := none
deriving DecidableEq, Repr

structure LoggingSettings where
  level : String := "info"
  format : String := "pretty"
  output : String := "stdout"
  directory : String := "./logs"
deriving DecidableEq, Repr

structure Settings where
  server : ServerSettings := {}
  dataset : DatasetSettings := {}
  logging : LoggingSettings := {}
deriving DecidableEq, Repr

/-- Why there are no settings. -/
inductive SettingsError where
  /-- The file that must be there is not. -/
  | missingFile
  /-- The file does not say what settings are. -/
  | malformed
  /-- A variable has a value that does not do. -/
  | invalidValue (key value : String)
deriving DecidableEq, Repr

/-- The wording for a variable that does not do. -/
def invalidValueMessage (key value : String) : String :=
  "Invalid value '" ++ value ++ "' for " ++ key

/-- Host and port as they are written together. -/
def Settings.address (s : Settings) : String := s.server.host ++ ":" ++ toString s.server.port.toNat

end QueryReplay
