import QueryReplay.Text.Alphanumeric
import QueryReplay.Text.Caseless

/-!
# The words of a statement

A quick look at any statement, also at one that the grammar does not know: its
words and quoted names in order, texts in single quotes and line comments left
out.
-/

namespace QueryReplay.Sql

/-- What the characters of a statement belong to. -/
inductive Region where
  | bare | text | quoted | comment
deriving DecidableEq, Repr

namespace Words

/-- A character of a word; a point joins the parts of a qualified name. -/
def isWordChar (c : Char) : Bool := Text.isAlphanumeric c || c == '_' || c == '.'

/-- A finished word, unless it is empty; `word` holds it backwards. -/
def finish (word : List Char) : List String :=
  if word.isEmpty then [] else [String.ofList word.reverse]

/-- The words from here on; `word` holds the characters of the current one
backwards. -/
def scan : Region → List Char → List Char → List String
  | .bare, word, cs =>
    match cs with
    | [] => finish word
    | '\'' :: rest => finish word ++ scan .text [] rest
    | '"' :: rest => finish word ++ scan .quoted ['"'] rest
    | '-' :: '-' :: rest => finish word ++ scan .comment [] rest
    | c :: rest => if isWordChar c then scan .bare (c :: word) rest
        else finish word ++ scan .bare [] rest
  | .text, _, cs =>
    match cs with
    | [] => []
    | c :: rest => if c == '\'' then scan .bare [] rest else scan .text [] rest
  | .quoted, word, cs =>
    match cs with
    | [] => finish word
    | c :: rest => if c == '"' then finish (c :: word) ++ scan .bare [] rest
        else scan .quoted (c :: word) rest
  | .comment, _, cs =>
    match cs with
    | [] => []
    | c :: rest => if c == '\n' then scan .bare [] rest else scan .comment [] rest

end Words

/-- Words and quoted names as written, the quotes kept. -/
def writtenWords (sql : String) : List String := Words.scan .bare [] sql.toList

/-- The words that are not quoted, in upper case. -/
def upperWords (sql : String) : List String :=
  (writtenWords sql).filterMap fun w =>
    if w.toList.head? == some '"' then none else some (Text.upper w)

/-- A word without the double quotes around it. -/
def unquoted (word : String) : String :=
  let cs := word.toList.dropWhile (· == '"')
  String.ofList (cs.reverse.dropWhile (· == '"')).reverse

end QueryReplay.Sql
