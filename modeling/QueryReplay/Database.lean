import QueryReplay.Database.Command.Parser
import QueryReplay.Database.Query

/-!
# A small database

A database system of its own for the part of the language that the sample datasets
and simple statements about them need.  The database is its tables.  It runs texts of
commands: all commands of a text are read before the first one runs, each takes effect
by itself, and the first that is refused ends the text, while what ran before stays
done.  A refused command changes nothing.
-/

namespace QueryReplay

structure Database where
  /-- The tables in the order in which they were made. -/
  tables : List StoredTable := []
deriving DecidableEq, Repr

namespace Database

def empty : Database := {}

/-- The table of a name, in any letter case. -/
def table? (db : Database) (name : String) : Option StoredTable :=
  db.tables.find? fun t => Text.sameLetters t.name name

/-- The table of a name that must be there. -/
def table (db : Database) (name : String) : Except DatabaseError StoredTable :=
  match db.table? name with
  | some t => .ok t
  | none => .error (.missingTable name)

/-- The database with another table in the place of the one of that name. -/
def replace (db : Database) (t : StoredTable) : Database :=
  ⟨db.tables.map fun old => if Text.sameLetters old.name t.name then t else old⟩

/-! ## Commands -/

/-- The answer to a command that writes a number of rows. -/
def written (n : Nat) : Answer := ⟨["Count"], [[.integer n]]⟩

/-- Whether a row is one of some rows, by its identity. -/
def isAmong (rows : List StoredRow) (r : StoredRow) : Bool := rows.any fun s => s.id == r.id

/-- What a command answers, and the database after it. -/
def perform (db : Database) : Command → Except DatabaseError (Answer × Database)
  | .createTable name columns =>
    match db.table? name with
    | some _ => .error (.tableExists name)
    | none => do
      let t ← StoredTable.create name columns
      return (⟨["Count"], []⟩, ⟨db.tables ++ [t]⟩)
  | .dropTable name ifExists =>
    if (db.table? name).isNone && !ifExists then .error (.missingTable name)
    else .ok (⟨["Success"], []⟩, ⟨db.tables.filter fun t => !Text.sameLetters t.name name⟩)
  | .insert name rows => do
    let t ← db.table name
    let t ← t.insert rows
    return (written rows.length, db.replace t)
  | .update name values filter? => do
    let t ← db.table name
    let values ← t.assignments values
    let chosen ← t.select name filter?
    let t ← t.update values (isAmong chosen)
    return (written chosen.length, db.replace t)
  | .delete name filter? => do
    let t ← db.table name
    let chosen ← t.select name filter?
    return (written chosen.length, db.replace (t.delete (isAmong chosen)))
  | .query q => do
    let t ← db.table q.table
    let answer ← t.answer q
    return (answer, db)

/-- Runs commands one after another and answers what the last one answers. -/
def performAll (db : Database) (last : Answer) :
    List Command → Except DatabaseError Answer × Database
  | [] => (.ok last, db)
  | c :: rest =>
    match db.perform c with
    | .ok (answer, db) => db.performAll answer rest
    | .error e => (.error e, db)

/-- Runs a text of any number of commands. -/
def run (db : Database) (sql : String) : Except DatabaseError Answer × Database :=
  match Command.parseAll? sql with
  | some commands => db.performAll {} commands
  | none => (.error .malformed, db)

/-- Runs a text of at least one command. -/
def ask (db : Database) (sql : String) : Except DatabaseError Answer × Database :=
  match Command.parseAll? sql with
  | some (c :: rest) => db.performAll {} (c :: rest)
  | _ => (.error .malformed, db)

/-! ## As a database system -/

/-- The names of the tables, sorted byte by byte. -/
def tableNames (db : Database) : List String :=
  (db.tables.map StoredTable.name).mergeSort fun a b =>
    compareBytes (Text.utf8 a) (Text.utf8 b) != .gt

/-- What is told of a column. -/
def columnInfo (c : StoredColumn) : ColumnInfo := ⟨c.name, c.type.display, c.nullable⟩

/-- The columns of the table of that very name; none if it is not there. -/
def columnsOf (db : Database) (name : String) : List ColumnInfo :=
  ((db.tables.find? fun t => t.name == name).map fun t => t.columns.map columnInfo).getD []

/-- The whole number in the first cell of an answer. -/
def firstNumber (a : Answer) : Except DatabaseError Int :=
  match a.rows.head?.bind List.head? with
  | some (.integer n) => .ok n
  | _ => .error .noNumber

instance : Connection Database DatabaseError where
  query sql db := db.ask sql
  batch sql db := ((db.run sql).1.map fun _ => (), (db.run sql).2)
  number sql db := ((db.ask sql).1.bind firstNumber, (db.ask sql).2)
  tableNames db := .ok db.tableNames
  columns name db := .ok (db.columnsOf name)

/-- Runs a text of at least one command and answers documents. -/
def execute (db : Database) (sql : String) : Except DatabaseError Reply × Database :=
  Connection.execute sql db

/-- The database as an engine for replays. -/
def engine : Engine Database := Connection.engine

/-- What is told of all tables. -/
def info (db : Database) : Except DatabaseError (List TableInfo) := (Connection.info db).1

/-- Drops every table and makes those of a dataset. -/
def load (db : Database) (d : Dataset) : Except DatabaseError Unit × Database :=
  Connection.load d db

/-- A database that holds a dataset. -/
def ofDataset (d : Dataset) : Database := (empty.load d).2

end Database

end QueryReplay
