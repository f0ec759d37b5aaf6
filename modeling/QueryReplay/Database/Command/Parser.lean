import QueryReplay.Database.Command
import QueryReplay.Sql.Token

/-!
# Reading commands

Commands are read from the tokens of the statement language.  A name may be
quoted, and a quote inside it is written twice.
-/

namespace QueryReplay

open Sql (Token Symbol Keyword)

/-- Takes a part of a command off the front of the tokens. -/
abbrev CommandReader (α : Type) := StateT (List Token) Option α

namespace CommandReader

variable {α : Type}

/-- The next token, if it is of use. -/
def token (f : Token → Option α) : CommandReader α := fun
  | [] => none
  | t :: rest => (f t).map fun a => (a, rest)

/-- What `r` reads, or nothing. -/
def optional (r : CommandReader α) : CommandReader (Option α) := fun ts =>
  match r ts with
  | some (a, rest) => some (some a, rest)
  | none => some (none, ts)

/-- Whether `r` reads something. -/
def given (r : CommandReader α) : CommandReader Bool := fun ts =>
  match r ts with
  | some (_, rest) => some (true, rest)
  | none => some (false, ts)

def symbol (s : Symbol) : CommandReader Unit := token fun t => if t.isSymbol s then some () else none

def keyword (k : Keyword) : CommandReader Unit :=
  token fun t => if t.isKeyword k then some () else none

/-- A word that is not reserved, in any letter case. -/
def word (w : String) : CommandReader Unit :=
  token fun t => if t.kind == .name && Text.sameLetters t.lexeme w then some () else none

/-- At most `n` items, separated by commas. -/
def listUpTo (item : CommandReader α) : Nat → CommandReader (List α)
  | 0 => fun _ => none
  | n + 1 => do
    let a ← item
    if ← given (symbol .comma) then
      let more ← listUpTo item n
      return a :: more
    else return [a]

/-- One or more items, separated by commas. -/
def list (item : CommandReader α) : CommandReader (List α) := fun ts =>
  listUpTo item (ts.length + 1) ts

def parenthesized (r : CommandReader α) : CommandReader α := do
  symbol .openParen
  let a ← r
  symbol .closeParen
  return a

/-! ## Names and literals -/

/-- The characters of a quoted name.  Where two quoted names touch, they are one
name with a quote between its parts. -/
def quotedChars : List Token → Option (List Char × List Token)
  | [] => none
  | t :: rest =>
    if t.kind == .quoted then
      let own := (t.lexeme.toList.drop 1).dropLast
      if t.gap.isEmpty then
        match quotedChars rest with
        | some (more, rest) => some (own ++ '"' :: more, rest)
        | none => some (own, rest)
      else some (own, rest)
    else none

/-- A quoted name, which is not empty. -/
def quotedName : CommandReader String := fun ts =>
  match quotedChars ts with
  | some (c :: cs, rest) => some (String.ofList (c :: cs), rest)
  | _ => none

def name : CommandReader String :=
  quotedName <|> token fun t => if t.kind == .name then some t.lexeme else none

/-- A column, qualified or not. -/
def columnRef : CommandReader Sql.ColumnRef := do
  let first ← name
  if ← given (symbol .dot) then
    let second ← name
    return ⟨some first, second⟩
  else return ⟨none, first⟩

/-- The value of a number: a whole one, or one with places behind the point. -/
def numberCell (negative : Bool) (lexeme : String) : Cell :=
  let (whole, rest) := lexeme.toList.span Char.isDigit
  let signed (cs : List Char) : Int :=
    if negative then -(Numeral.valueOf cs : Int) else Numeral.valueOf cs
  match rest with
  | [] => if Json.inInt64 (signed whole) then .integer (signed whole) else .huge (signed whole)
  | _ :: places => .decimal (signed (whole ++ places)) places.length

/-- The source of tokens of an exponent that touch each other: a word such as
`e5`, or a word `e`, a sign and digits. -/
def exponentSource? : List Token → Option (String × List Token)
  | [] => none
  | t :: rest =>
    match t.kind == .name, t.lexeme.toList with
    | true, e :: c :: digits =>
      if e.toLower == 'e' && (c :: digits).all Char.isDigit then some (t.lexeme, rest) else none
    | true, [e] =>
      match rest with
      | sign :: power :: rest =>
        if e.toLower == 'e' && t.gap.isEmpty && sign.gap.isEmpty
            && (sign.isSymbol .minus || sign.isSymbol .plus) && power.kind == .number then
          some (t.lexeme ++ sign.lexeme ++ power.lexeme, rest)
        else none
      | _ => none
    | _, _ => none

/-- A number without sign.  One with an exponent is a double. -/
def number (negative : Bool) : CommandReader Cell := fun
  | [] => none
  | t :: rest =>
    if t.kind == .number then
      match if t.gap.isEmpty then exponentSource? rest else none with
      | some (power, rest) =>
        (Numeral.ofString? ((if negative then "-" else "") ++ t.lexeme ++ power)).map
          fun n => (.double n.toDouble, rest)
      | none => some (numberCell negative t.lexeme, rest)
    else none

def text : CommandReader Cell := token fun t => t.content?.map (Cell.text <| Text.utf8 ·)

/-- A text that a word says to be of another type. -/
def typedText (w : String) (type : ColumnType) : CommandReader Cell := do
  word w
  let c ← text
  match c.convert? type with
  | some c => return c
  | none => failure

def literal : CommandReader Cell :=
  number false
    <|> (do symbol .minus; number true)
    <|> text
    <|> (do keyword .null; return .null)
    <|> (do keyword .true; return .boolean true)
    <|> (do keyword .false; return .boolean false)
    <|> typedText "date" .date
    <|> typedText "timestamp" .timestamp

/-- A natural number in digits. -/
def count : CommandReader Nat := token Token.count?

/-! ## Conditions -/

def operand : CommandReader Operand := Operand.literal <$> literal <|> Operand.column <$> columnRef

def comparison? (t : Token) : Option Comparison :=
  match t.kind with
  | .symbol .eq => some .eq
  | .symbol .ne => some .ne
  | .symbol .lt => some .lt
  | .symbol .le => some .le
  | .symbol .gt => some .gt
  | .symbol .ge => some .ge
  | _ => none

def condition : CommandReader Condition := do
  let left ← operand
  if ← given (keyword .is) then
    let negated ← given (keyword .not)
    keyword .null
    return .isNull left negated
  else
    let op ← token comparison?
    let right ← operand
    return .compare op left right

/-- A WHERE clause, if there is one. -/
def filter : CommandReader (Option Condition) := optional do
  keyword .where
  condition

/-! ## Queries -/

/-- A name given to an item or a table, with AS or without. -/
def optAlias : CommandReader (Option String) := optional do
  let _ ← given (keyword .as)
  name

def tableWildcard : CommandReader QueryItem := do
  let table ← name
  symbol .dot
  symbol .star
  return .tableWildcard table

def countItem : CommandReader QueryItem := do
  word "count"
  parenthesized (symbol .star)
  return .count (← optAlias)

def item : CommandReader QueryItem :=
  (do symbol .star; return .wildcard)
    <|> tableWildcard
    <|> countItem
    <|> do
      let ref ← columnRef
      return .column ref (← optAlias)

def sortTarget : CommandReader SortTarget :=
  SortTarget.position <$> count <|> SortTarget.column <$> columnRef

def sortKey : CommandReader (SortTarget × Bool) := do
  let target ← sortTarget
  let descending ← given (keyword .desc)
  if !descending then
    let _ ← given (keyword .asc)
  return (target, descending)

/-- The sort keys behind ORDER BY, if there are some. -/
def sortKeys : CommandReader (List (SortTarget × Bool)) := do
  let keys ← optional do
    keyword .order
    keyword .by
    list sortKey
  return keys.getD []

def query : CommandReader Query := do
  keyword .select
  let distinct ← given (keyword .distinct)
  let items ← list item
  keyword .from
  let table ← name
  let alias? ← optAlias
  let filter? ← filter
  let sort ← sortKeys
  let limit? ← optional do
    keyword .limit
    count
  let offset ← optional do
    keyword .offset
    count
  return { distinct, items, table, alias?, filter?, sort, limit?, offset := offset.getD 0 }

/-! ## The other commands -/

def columnType : CommandReader ColumnType :=
  (do
    word "decimal"
    match ← optional (parenthesized (list count)) with
    | none => return .standardDecimal
    | some [width] => (ColumnType.decimal? width 0).getM
    | some [width, scale] => (ColumnType.decimal? width scale).getM
    | some _ => failure)
    <|> token fun t => if t.kind == .name then ColumnType.ofWord? t.lexeme else none

/-- PRIMARY KEY or NOT NULL behind a column. -/
def constraint : CommandReader Bool :=
  (do word "primary"; word "key"; return true) <|> (do keyword .not; keyword .null; return false)

def columnDefinition : CommandReader StoredColumn := do
  let columnName ← name
  let type ← columnType
  let key? ← optional constraint
  return { name := columnName, type, nullable := key?.isNone, isKey := key?.getD false }

def createTable : CommandReader Command := do
  word "create"
  word "table"
  let table ← name
  let columns ← parenthesized (list columnDefinition)
  return .createTable table columns

def dropTable : CommandReader Command := do
  word "drop"
  word "table"
  let ifExists ← given do
    word "if"
    word "exists"
  let table ← name
  return .dropTable table ifExists

def insert : CommandReader Command := do
  word "insert"
  word "into"
  let table ← name
  word "values"
  let rows ← list (parenthesized (list literal))
  return .insert table rows

def assignment : CommandReader (String × Cell) := do
  let column ← name
  symbol .eq
  return (column, ← literal)

def update : CommandReader Command := do
  word "update"
  let table ← name
  word "set"
  let values ← list assignment
  return .update table values (← filter)

def delete : CommandReader Command := do
  word "delete"
  keyword .from
  let table ← name
  return .delete table (← filter)

def command : CommandReader Command :=
  createTable <|> dropTable <|> insert <|> update <|> delete <|> Command.query <$> query

/-- Commands with semicolons between them; `n` bounds their number. -/
def commandsUpTo : Nat → List Token → Option (List Command)
  | 0, _ => none
  | _ + 1, [] => some []
  | n + 1, t :: ts =>
    if t.isSymbol .semicolon then commandsUpTo n ts
    else
      match command (t :: ts) with
      | some (c, []) => some [c]
      | some (c, mark :: rest) =>
        if mark.isSymbol .semicolon then (commandsUpTo n rest).map (c :: ·) else none
      | none => none

end CommandReader

/-- The commands that a text holds. -/
def Command.parseAll? (sql : String) : Option (List Command) :=
  (Sql.TokenStream.ofString? sql).bind fun stream =>
    CommandReader.commandsUpTo (stream.tokens.length + 1) stream.tokens

end QueryReplay
