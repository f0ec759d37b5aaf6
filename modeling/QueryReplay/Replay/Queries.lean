import QueryReplay.Sql.Descriptor
import QueryReplay.Table.Scope

/-!
# The statements that a replay asks

Besides the statement itself, a replay asks for whole tables with their row
identities, for the identities of the rows that a condition keeps, for the
values of expressions row by row, and for groups with their keys.
-/

namespace QueryReplay

open Sql (Descriptor ClauseKind GroupKey SelectColumn)

/-- The header of the row identity of a table read whole. -/
def rowIdColumn : String := "__sqlstep_rowid"

/-- The headers of row identities begin so. -/
def identityHeader : String := "__sqlstep_id_"

/-- The headers of values computed row by row begin so. -/
def expressionHeader : String := "__sqlstep_expr_"

/-- The headers of group keys begin so. -/
def keyHeader : String := "__sqlstep_key_"

/-- A name in double quotes, those inside written twice. -/
def quoteName (name : String) : String :=
  String.ofList ('"' :: name.toList.flatMap (fun c => if c == '"' then ['"', '"'] else [c]) ++ ['"'])

/-- Items with numbered headers. -/
def headed (header : String) (items : List String) : String :=
  ", ".intercalate (items.zipIdx.map fun (item, k) => item ++ " AS " ++ header ++ toString k)

/-- A whole table with the identities of its rows. -/
def scanQuery (table : String) : String :=
  "SELECT rowid AS " ++ rowIdColumn ++ ", * FROM " ++ quoteName table

/-- The identity of a row in each table of the statement. -/
def identityItems (d : Descriptor) : String :=
  headed identityHeader (d.qualifiers.map fun q => quoteName q ++ ".rowid")

/-- The identities of the rows that FROM, the joins and WHERE leave. -/
def identityQuery (d : Descriptor) : String :=
  "SELECT " ++ identityItems d ++ " " ++ d.relationText?.getD ""

/-- The values of expressions for each of those rows, behind its identity. -/
def perRowQuery (d : Descriptor) (expressions : List String) : String :=
  "SELECT " ++ identityItems d ++ ", " ++ headed expressionHeader expressions ++ " "
    ++ d.relationText?.getD ""

/-- The statement cut before a clause, with the group keys as last items. -/
def keyedQuery? (d : Descriptor) (keys : List GroupKey) (k : ClauseKind) : Option String :=
  if d.distinct || keys.isEmpty then none
  else d.withSelectAppended? (headed keyHeader (keys.map GroupKey.text)) k

/-- What a group key means.  A position means the item at it, and a bare name
that is no column of the table means the item with that alias. -/
def groupKeyTarget? (d : Descriptor) (scope : Scope) (columns : List String) (key : GroupKey) :
    Option SelectColumn :=
  match key.expr with
  | .literal (.int n) => if n = 0 then none else d.columns[n - 1]?
  | .column ref =>
    if ref.table.isNone && (scope.resolve? columns ref).isNone then
      d.columns.find? fun c => c.alias?.any fun a => Text.sameLetters a ref.column
    else none
  | _ => none

/-- The group keys with positions and aliases replaced by what they mean. -/
def resolvedKeys (d : Descriptor) (scope : Scope) (columns : List String) : List GroupKey :=
  d.groupKeys.map fun key =>
    match groupKeyTarget? d scope columns key with
    | some c =>
      match c.expr? with
      | some e => ⟨e, c.expression⟩
      | none => key
    | none => key

end QueryReplay
