import QueryReplay.Engine.Cell
import QueryReplay.Engine.Dataset
import QueryReplay.Engine.Reply

/-!
# Connections

A database system is reached over a connection.  It is handed texts and may do
anything with them: nothing is known of it but what it can be asked, so whatever
is proved about it says what it takes the texts to mean.

Built on it here are the engine of replays, the loading of a dataset over
whatever tables there are, and the listing of the tables.  The texts that are
put together put the name of a table between double quotes as it stands.
-/

namespace QueryReplay

/-- Columns and rows as a database system answers them. -/
structure Answer where
  columns : List String := []
  rows : List (List Cell) := []
deriving DecidableEq, Repr

/-- The answer with the document that shows it in the place of each cell. -/
def Answer.toReply (a : Answer) : Reply := ⟨a.columns, a.rows.map fun row => row.map Cell.toJson⟩

/-- What is told of a column. -/
structure ColumnInfo where
  name : String
  dataType : String
  isNullable : Bool
deriving DecidableEq, Repr

/-- What is told of a table. -/
structure TableInfo where
  name : String
  columns : List ColumnInfo
  rowCount : Nat
deriving DecidableEq, Repr

/-- A database system: its states, and why it refuses something. -/
class Connection (σ : Type) (ε : outParam Type) where
  /-- Runs a text and answers columns and rows. -/
  query : String → σ → Except ε Answer × σ
  /-- Runs a text of any number of commands and answers nothing. -/
  batch : String → σ → Except ε Unit × σ
  /-- Runs a text and answers the whole number in the first cell of its first row. -/
  number : String → σ → Except ε Int × σ
  /-- The names of the user's tables, in order. -/
  tableNames : σ → Except ε (List String)
  /-- The columns of the table of a name, in order. -/
  columns : String → σ → Except ε (List ColumnInfo)

namespace Connection

variable {σ ε : Type} [Connection σ ε]

/-- Runs a text and answers documents. -/
def execute (sql : String) (s : σ) : Except ε Reply × σ :=
  let (answer, s) := query sql s
  (answer.map Answer.toReply, s)

/-- The database system as an engine for replays. -/
def engine [ToString ε] : Engine σ where
  execute sql s :=
    match execute sql s with
    | (.ok reply, s) => (.ok reply, s)
    | (.error e, s) => (.error (toString e), s)
  tableNames s := (tableNames s).toOption

/-! ## Loading a dataset -/

/-- A name in double quotes, as it stands. -/
def inQuotes (name : String) : String := "\"" ++ name ++ "\""

/-- The text that drops a table. -/
def dropText (name : String) : String := "DROP TABLE IF EXISTS " ++ inQuotes name

/-- Drops tables one after another, up to the first that is refused. -/
def dropAll : List String → σ → Except ε Unit × σ
  | [], s => (.ok (), s)
  | name :: rest, s =>
    match batch (dropText name) s with
    | (.ok _, s) => dropAll rest s
    | (.error e, s) => (.error e, s)

/-- Drops every table and makes those of a dataset. -/
def load (d : Dataset) (s : σ) : Except ε Unit × σ :=
  match tableNames s with
  | .error e => (.error e, s)
  | .ok names =>
    match dropAll names s with
    | (.ok _, s) => batch d.script s
    | (.error e, s) => (.error e, s)

/-! ## Listing the tables -/

/-- The text that counts the rows of a table. -/
def countText (name : String) : String := "SELECT COUNT(*) FROM " ++ inQuotes name

/-- What is told of the table of a name. -/
def tableInfo (name : String) (s : σ) : Except ε TableInfo × σ :=
  match columns name s with
  | .error e => (.error e, s)
  | .ok columns =>
    let (count, s) := number (countText name) s
    (count.map fun n => ⟨name, columns, n.toNat⟩, s)

/-- What is told of tables, one after another. -/
def tableInfos : List String → σ → Except ε (List TableInfo) × σ
  | [], s => (.ok [], s)
  | name :: rest, s =>
    match tableInfo name s with
    | (.error e, s) => (.error e, s)
    | (.ok first, s) =>
      let (others, s) := tableInfos rest s
      (others.map (first :: ·), s)

/-- What is told of all tables. -/
def info (s : σ) : Except ε (List TableInfo) × σ :=
  match tableNames s with
  | .error e => (.error e, s)
  | .ok names => tableInfos names s

end Connection

end QueryReplay
