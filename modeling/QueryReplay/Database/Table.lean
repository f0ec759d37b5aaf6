import QueryReplay.Database.Conversion
import QueryReplay.Database.Error

/-!
# Stored tables

A table keeps its rows in the order in which they came.  A row has an identity
that no other row of the table ever gets, and its identity never changes while
it stays.
-/

namespace QueryReplay

structure StoredColumn where
  name : String
  type : ColumnType
  nullable : Bool := true
  /-- Whether the column is the primary key. -/
  isKey : Bool := false
deriving DecidableEq, Repr

structure StoredRow where
  id : Nat
  cells : List Cell
deriving DecidableEq, Repr

/-- The row with values written at positions. -/
def StoredRow.assign (r : StoredRow) (values : List (Nat × Cell)) : StoredRow :=
  { r with cells := values.foldl (fun cells (k, v) => cells.set k v) r.cells }

structure StoredTable where
  name : String
  columns : List StoredColumn
  rows : List StoredRow := []
  /-- The identity of the next row. -/
  nextId : Nat := 0
deriving DecidableEq, Repr

namespace StoredTable

/-- The position of a column, its name in any letter case. -/
def position? (t : StoredTable) (name : String) : Option Nat :=
  t.columns.findIdx? fun c => Text.sameLetters c.name name

/-- A table without rows.  Column names differ in more than the letter case, and
at most one column is the key. -/
def create (name : String) (columns : List StoredColumn) : Except DatabaseError StoredTable :=
  let names := columns.map fun c => Text.lower c.name
  if columns.isEmpty || names.eraseDups.length != names.length
      || 1 < (columns.filter StoredColumn.isKey).length then .error (.badColumns name)
  else .ok { name, columns }

/-! ## Constraints -/

/-- Refuses NULL where a column has none. -/
def checkNulls (t : StoredTable) (cells : List Cell) : Except DatabaseError Unit :=
  (t.columns.zip cells).forM fun (c, cell) =>
    if !c.nullable && cell == .null then .error (.nullValue t.name c.name) else .ok ()

/-- The first value that occurs again. -/
def firstRepeated? : List Cell → Option Cell
  | [] => none
  | c :: rest => if rest.contains c then some c else firstRepeated? rest

/-- Refuses two rows with one key. -/
def checkKeys (t : StoredTable) : Except DatabaseError Unit :=
  t.columns.zipIdx.forM fun (c, k) =>
    if c.isKey then
      match firstRepeated? (t.rows.map fun r => r.cells.getD k .null) with
      | some (.text utf8) => .error (.duplicateKey c.name (Text.ofUtf8 utf8))
      | some cell => .error (.duplicateKey c.name
          (match cell.toText? with
            | some (.text utf8) => Text.ofUtf8 utf8
            | _ => ""))
      | none => .ok ()
    else .ok ()

/-! ## Changes -/

/-- The cells of a new row in the types of the columns. -/
def fit (t : StoredTable) (cells : List Cell) : Except DatabaseError (List Cell) :=
  if cells.length ≠ t.columns.length then
    .error (.wrongWidth t.name t.columns.length cells.length)
  else
    (t.columns.zip cells).mapM fun (c, cell) =>
      match cell.convert? c.type with
      | some v => .ok v
      | none => .error (.conversion c.type)

/-- The table with rows at its end that have new identities. -/
def append (t : StoredTable) (rows : List (List Cell)) : StoredTable :=
  { t with
    rows := t.rows ++ rows.zipIdx.map fun (cells, k) => ⟨t.nextId + k, cells⟩
    nextId := t.nextId + rows.length }

/-- Inserts rows, all or none. -/
def insert (t : StoredTable) (rows : List (List Cell)) : Except DatabaseError StoredTable := do
  let fitted ← rows.mapM t.fit
  fitted.forM t.checkNulls
  let t := t.append fitted
  t.checkKeys
  return t

/-- Removes the chosen rows. -/
def delete (t : StoredTable) (chosen : StoredRow → Bool) : StoredTable :=
  { t with rows := t.rows.filter (!chosen ·) }

/-- The positions and values to write for assignments by name. -/
def assignments (t : StoredTable) (values : List (String × Cell)) :
    Except DatabaseError (List (Nat × Cell)) :=
  values.mapM fun (name, cell) =>
    match t.position? name with
    | none => .error (.missingTarget name)
    | some k =>
      match t.columns[k]? with
      | none => .error (.missingTarget name)
      | some c =>
        match cell.convert? c.type with
        | some v => .ok (k, v)
        | none => .error (.conversion c.type)

/-- Writes values into the chosen rows, into all or none.  A row whose key is
written leaves and comes back as a new row at the end. -/
def update (t : StoredTable) (values : List (Nat × Cell)) (chosen : StoredRow → Bool) :
    Except DatabaseError StoredTable := do
  let changed := (t.rows.filter chosen).map fun r => (r.assign values).cells
  changed.forM t.checkNulls
  let writesKey := values.any fun (k, _) => (t.columns[k]?.map StoredColumn.isKey).getD false
  let t' :=
    if writesKey then (t.delete chosen).append changed
    else { t with rows := t.rows.map fun r => if chosen r then r.assign values else r }
  t'.checkKeys
  return t'

end StoredTable

end QueryReplay
