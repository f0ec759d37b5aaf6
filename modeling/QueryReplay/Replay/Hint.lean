import QueryReplay.Text.Blank
import QueryReplay.Text.Caseless
import QueryReplay.Text.Find

/-!
# Hints for failed statements

The message of an engine is read for a few known complaints, which are worded
anew for someone who is learning; any other message is passed on.
-/

namespace QueryReplay

/-- What an engine complains of. -/
inductive Complaint where
  | missingTable (name : String)
  | missingColumn (name : String)
  | malformed (line : String)
  | other (message : String)
deriving DecidableEq, Repr

namespace Complaint

/-- The text between the first `start` and the `stop` behind it, or the end,
without blanks and double quotes around it; none when nothing is left. -/
def between? (message start stop : String) : Option String :=
  match Text.after? start.toList message.toList with
  | none => none
  | some rest =>
    let found := (Text.trim (String.ofList (Text.before stop.toList rest))).toList
    let name := Text.dropTrailing (· == '"') (found.dropWhile (· == '"'))
    if name.isEmpty then none else some (String.ofList name)

def missingTable? (message : String) : Option String :=
  (between? message "no such table:" "\n").or
    (between? message "Table with name " " does not exist")

def missingColumn? (message : String) : Option String :=
  (between? message "no such column:" "\n").or <|
    (between? message "Referenced column \"" "\"").or
      (between? message "Column with name " " does not exist")

/-- The first line of a message. -/
def firstLine (message : String) : String :=
  Text.trim (String.ofList (message.toList.takeWhile (· != '\n')))

/-- What a message complains of: a table first, then a column, then the syntax. -/
def ofMessage (message : String) : Complaint :=
  match missingTable? message with
  | some name => .missingTable name
  | none =>
    match missingColumn? message with
    | some name => .missingColumn name
    | none =>
      if Text.contains "syntax error" (Text.lower message)
          || Text.contains "Parser Error" message then .malformed (firstLine message)
      else .other message

/-- The complaint in words that help. -/
def hint (known : List String) : Complaint → String
  | .missingTable name =>
    let available := if known.isEmpty then "No tables are loaded."
      else "Available tables: " ++ ", ".intercalate known ++ "."
    "Table '" ++ name ++ "' does not exist. " ++ available
  | .missingColumn name =>
    "Column '" ++ name ++ "' does not exist. Check the spelling, and when the query uses "
      ++ "table aliases make sure the prefix (for example e.name) points at the right table."
  | .malformed line =>
    "SQL syntax error: " ++ line ++ ". Check keyword spelling and the commas between columns; "
      ++ "text values need single quotes."
  | .other message => message

end Complaint

/-- The hint for an engine's message, given the tables that there are. -/
def hintFor (message : String) (known : List String) : String :=
  (Complaint.ofMessage message).hint known

end QueryReplay
