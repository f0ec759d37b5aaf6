import QueryReplay.Sql.Statement.Parser
import QueryReplay.Sql.Words

/-!
# Which statements are admitted

Before a statement runs, its first word must name one of four kinds, and a few
mistakes that beginners make are looked for.  Anything subtler is left to the
engine.
-/

namespace QueryReplay.Sql

/-- The kinds of statement that are run. -/
inductive StatementKind where
  | select | insert | update | delete
deriving DecidableEq, Repr

namespace StatementKind

/-- The word that such a statement begins with. -/
def word : StatementKind → String
  | select => "SELECT"
  | insert => "INSERT"
  | update => "UPDATE"
  | delete => "DELETE"

def all : List StatementKind := [select, insert, update, delete]

/-- The word in front of the table that is written to. -/
def targetWord? : StatementKind → Option String
  | select => none
  | insert => some "INTO"
  | update => some "UPDATE"
  | delete => some "FROM"

end StatementKind

/-- Why a statement is not admitted. -/
inductive Objection where
  | empty
  | missingFrom
  | missingTable
  | keywordAfterFrom (word : String)
  | unbalancedParentheses (opened closed : Nat)
  | unterminatedText
  | typo (found expected : String)
  | missingBy (word : String)
  | unsupported (word : String)
deriving DecidableEq, Repr

/-- The wording of the objection. -/
def Objection.message : Objection → String
  | empty => "Empty query"
  | missingFrom => "SELECT statement is missing a FROM clause"
  | missingTable => "FROM must be followed by a table name"
  | keywordAfterFrom word => "FROM is followed by " ++ word ++ " instead of a table name"
  | unbalancedParentheses opened closed =>
    "Unbalanced parentheses: " ++ toString opened ++ " opening, " ++ toString closed ++ " closing"
  | unterminatedText => "Unterminated string literal"
  | typo found expected => "Unknown keyword '" ++ found ++ "'. Did you mean " ++ expected ++ "?"
  | missingBy word => word ++ " must be followed by BY"
  | unsupported word => "Unsupported statement '" ++ word
      ++ "'. Only SELECT, INSERT, UPDATE and DELETE are supported"

/-- Misspelled keywords and what was meant. -/
def misspellings : List (String × String) :=
  [("SELCT", "SELECT"), ("SELET", "SELECT"), ("SLECT", "SELECT"), ("SELEC", "SELECT"),
    ("FORM", "FROM"), ("FRON", "FROM"), ("FRMO", "FROM"),
    ("WHER", "WHERE"), ("WERE", "WHERE"), ("WHRE", "WHERE"),
    ("GROPU", "GROUP BY"), ("ODER", "ORDER BY"), ("ORDR", "ORDER BY"),
    ("HAIVNG", "HAVING"), ("LIMT", "LIMIT")]

/-- Words that are no table name behind FROM. -/
def clauseWords : List String :=
  ["WHERE", "GROUP", "HAVING", "ORDER", "LIMIT", "OFFSET", "JOIN", "INNER", "LEFT", "RIGHT",
    "FULL", "CROSS", "ON", "SELECT"]

/-- Words that never open an item of a FROM list. -/
def neverTables : List String := ["WHERE", "GROUP", "HAVING", "ORDER", "LIMIT", "OFFSET"]

/-- Words that a name follows, however it is spelled. -/
def beforeNames : List String := ["FROM", "JOIN", "AS", "INTO", "UPDATE", "TABLE"]

/-- The statement without blanks around it and without semicolons at its end. -/
def normalize (sql : String) : String :=
  String.ofList (Text.dropTrailing (fun c => c == ';' || Text.isBlank c) (Text.trim sql).toList)

/-- The kind of statement that the first word names. -/
def classify (sql : String) : Except Objection StatementKind :=
  let first := (upperWords sql).headD ""
  match StatementKind.all.find? fun k => k.word == first with
  | some k => .ok k
  | none => .error (.unsupported first)

/-- The word behind the first word that satisfies `p`. -/
def wordAfter? (p : String → Bool) (words : List String) : Option String :=
  match words.dropWhile (!p ·) with
  | _ :: next :: _ => some next
  | _ => none

/-- The table that a data-modifying statement writes to. -/
def targetTable? (sql : String) (kind : StatementKind) : Option String := do
  let word ← kind.targetWord?
  let next ← wordAfter? (Text.sameLetters word) (writtenWords sql)
  return unquoted next

/-- The table behind the first FROM. -/
def firstFromTable? (sql : String) : Option String := do
  let next ← wordAfter? (Text.sameLetters "FROM") (writtenWords sql)
  if clauseWords.contains (Text.upper next) then none else return unquoted next

/-! ## The checks -/

/-- Counts parentheses outside texts; `opened` and `closed` are the counts so far. -/
def checkParentheses (inText : Bool) (opened closed : Nat) : List Char → Except Objection Unit
  | [] =>
    if inText then .error .unterminatedText
    else if opened = closed then .ok ()
    else .error (.unbalancedParentheses opened closed)
  | c :: rest =>
    if c == '\'' then checkParentheses (!inText) opened closed rest
    else if c == '(' && !inText then checkParentheses inText (opened + 1) closed rest
    else if c == ')' && !inText then
      if opened ≤ closed then .error (.unbalancedParentheses opened (closed + 1))
      else checkParentheses inText opened (closed + 1) rest
    else checkParentheses inText opened closed rest

/-- A misspelled word as an objection. -/
def checkSpelling (word : String) : Except Objection Unit :=
  match misspellings.find? fun (found, _) => found == word with
  | some (found, expected) => .error (.typo found expected)
  | none => .ok ()

/-- Looks for a misspelled keyword where no name is expected; `previous` is
the word before. -/
def checkWordSpellings (previous : Option String) : List String → Except Objection Unit
  | [] => .ok ()
  | word :: rest => do
    if !previous.any beforeNames.contains then checkSpelling word
    checkWordSpellings (some word) rest

/-- GROUP and ORDER must be followed by BY. -/
def checkBy : List String → Except Objection Unit
  | [] => .ok ()
  | word :: rest =>
    if (word == "GROUP" || word == "ORDER") && rest.head? != some "BY" then
      .error (.missingBy word)
    else checkBy rest

/-- A SELECT must name a table behind its first FROM. -/
def checkFrom (words : List String) : Except Objection Unit :=
  if words.head? == some "SELECT" then
    match words.dropWhile (· != "FROM") with
    | [] => .error .missingFrom
    | [_] => .error .missingTable
    | _ :: next :: _ =>
      if neverTables.contains next then .error (.keywordAfterFrom next) else .ok ()
  else .ok ()

/-- The checks before a statement runs.  Misspelled keywords are looked for
only when the grammar does not read the statement. -/
def validate (sql : String) : Except Objection Unit := do
  if (Text.trim sql).isEmpty then .error .empty
  checkParentheses false 0 0 sql.toList
  let words := upperWords sql
  match parse sql with
  | .ok _ => pure ()
  | .error _ => checkWordSpellings none words
  checkBy words
  checkFrom words

/-- Objects to a misspelled first word. -/
def checkFirstWord (sql : String) : Except Objection Unit :=
  match upperWords sql with
  | first :: _ => checkSpelling first
  | [] => .ok ()

end QueryReplay.Sql
