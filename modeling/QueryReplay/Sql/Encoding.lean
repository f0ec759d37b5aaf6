import QueryReplay.Json.Encode
import QueryReplay.Sql.Descriptor

/-!
# Statements as documents

The form in which a parsed statement is handed on: a variant is an object with
one member named for it, or its bare name when it carries nothing.
-/

namespace QueryReplay.Sql

open Json (variant optMember)

def Literal.toJson : Literal → Json
  | .null => .string "Null"
  | .bool b => variant "Bool" (.bool b)
  | .int n => variant "Int" (.nat n)
  | .float x => variant "Float" (.float x)
  | .string s => variant "String" (.string s)

/-- The members of a reference; the table is left out when there is none. -/
def ColumnRef.members (c : ColumnRef) : List (String × Json) :=
  optMember "table" (c.table.map .string) ++ [("column", .string c.column)]

def ColumnRef.toJson (c : ColumnRef) : Json := .object c.members

def BinaryOp.variantName : BinaryOp → String
  | .add => "Add" | .sub => "Sub" | .mul => "Mul" | .div => "Div" | .mod => "Mod"
  | .concat => "Concat" | .like => "Like" | .eq => "Eq" | .ne => "Ne" | .lt => "Lt"
  | .le => "Le" | .gt => "Gt" | .ge => "Ge" | .and => "And" | .or => "Or"

def UnaryOp.variantName : UnaryOp → String
  | .neg => "Neg"
  | .not => "Not"

mutual

def Expr.toJson : Expr → Json
  | .literal v => variant "Literal" v.toJson
  | .column c => variant "Column" c.toJson
  | .binary op left right => variant "BinaryOp" <| .object
      [("op", .string op.variantName), ("left", left.toJson), ("right", right.toJson)]
  | .unary op operand => variant "UnaryOp" <| .object
      [("op", .string op.variantName), ("expr", operand.toJson)]
  | .call name args distinct star text => variant "FuncCall" <| .object
      [("name", .string name), ("args", .array (Expr.listToJson args)),
        ("distinct", .bool distinct), ("star", .bool star), ("text", .string text)]
  | .isNull subject negated => variant "IsNull" <| .object
      [("expr", subject.toJson), ("negated", .bool negated)]
  | .inList subject items negated => variant "InList" <| .object
      [("expr", subject.toJson), ("list", .array (Expr.listToJson items)),
        ("negated", .bool negated)]
  | .between subject low high negated => variant "Between" <| .object
      [("expr", subject.toJson), ("low", low.toJson), ("high", high.toJson),
        ("negated", .bool negated)]
  | .case operand branches otherwise => variant "Case" <| .object
      [("operand", Expr.optionToJson operand),
        ("branches", .array (Expr.branchesToJson branches)),
        ("otherwise", Expr.optionToJson otherwise)]

def Expr.listToJson : List Expr → List Json
  | [] => []
  | e :: rest => e.toJson :: Expr.listToJson rest

def Expr.optionToJson : Option Expr → Json
  | none => .null
  | some e => e.toJson

def Expr.branchesToJson : List (Expr × Expr) → List Json
  | [] => []
  | (condition, result) :: rest =>
    .array [condition.toJson, result.toJson] :: Expr.branchesToJson rest

end

def Span.toJson (s : Span) : Json := .object [("start", .nat s.start), ("end", .nat s.stop)]

def Located.toJson {α : Type} (f : α → Json) (l : Located α) : Json :=
  .object [("node", f l.node), ("span", l.span.toJson), ("text", .string l.text)]

def TableRef.toJson (t : TableRef) : Json :=
  .object [("name", .string t.name), ("alias", .optString t.alias?)]

def Join.toJson (j : Join) : Json :=
  .object [("join_type", .string j.kind.word), ("table", j.table.toJson),
    ("on", Json.orNull Expr.toJson j.condition), ("on_text", .optString j.conditionText),
    ("span", j.span.toJson)]

def SelectItem.toJson : SelectItem → Json
  | .wildcard => .string "Wildcard"
  | .tableWildcard table => variant "QualifiedWildcard" (.object [("table", .string table)])
  | .expr e alias? text => variant "Expr" <| .object
      [("expr", e.toJson), ("alias", .optString alias?), ("text", .string text)]

def GroupKey.toJson (k : GroupKey) : Json :=
  .object [("expr", k.expr.toJson), ("text", .string k.text)]

def SortKey.toJson (k : SortKey) : Json :=
  .object [("expr", k.expr.toJson), ("desc", .bool k.descending), ("text", .string k.text)]

def Select.toJson (s : Select) : Json :=
  .object [("distinct", .bool s.distinct), ("items", Json.list SelectItem.toJson s.items),
    ("select_list", s.itemsSpan.toJson), ("from", Json.list TableRef.toJson s.tables),
    ("from_span", s.fromSpan.toJson), ("joins", Json.list Join.toJson s.joins),
    ("where_clause", Json.orNull (Located.toJson Expr.toJson) s.filter),
    ("group_by", Json.orNull (Located.toJson (Json.list GroupKey.toJson)) s.groupBy),
    ("having", Json.orNull (Located.toJson Expr.toJson) s.having),
    ("order_by", Json.orNull (Located.toJson (Json.list SortKey.toJson)) s.orderBy),
    ("limit", Json.orNull (Located.toJson .nat) s.limit),
    ("offset", Json.orNull (Located.toJson .nat) s.offset)]

/-! ## Descriptors

Here the members of a variant stand beside its name, and what is absent is left out. -/

def ColumnKind.toJson : ColumnKind → Json
  | .wildcard => .object [("type", .string "wildcard")]
  | .tableWildcard table =>
    .object [("type", .string "qualifiedWildcard"), ("table", .string table)]
  | .column c => .object (("type", .string "column") :: c.members)
  | .expression => .object [("type", .string "expression")]

def SelectColumn.toJson (c : SelectColumn) : Json :=
  .object <| [("expression", .string c.expression)] ++ optMember "alias" (c.alias?.map .string)
    ++ [("kind", c.kind.toJson), ("aggregate", .bool c.aggregate)]

def JoinClause.toJson (j : JoinClause) : Json :=
  .object <| [("joinType", .string j.kind.word), ("table", .string j.table)]
    ++ optMember "alias" (j.alias?.map .string)
    ++ optMember "condition" (j.condition.map .string)
    ++ optMember "equality" (j.equality.map fun (l, r) => .array [l.toJson, r.toJson])
    ++ [("implicit", .bool j.implicit)]

def Descriptor.toJson (d : Descriptor) : Json :=
  .object <| [("sql", .string d.sql), ("distinct", .bool d.distinct),
      ("selectColumns", Json.list SelectColumn.toJson d.columns)]
    ++ optMember "fromTable" (d.fromTable?.map .string)
    ++ optMember "fromAlias" (d.fromAlias?.map .string)
    ++ [("tableAliases", .object (d.tableNames.map fun (name, table) => (name, .string table))),
      ("joins", Json.list JoinClause.toJson d.joins)]
    ++ optMember "whereClause" (d.filter?.map .string)
    ++ [("groupBy", .strings (d.groupKeys.map GroupKey.text))]
    ++ optMember "having" (d.having?.map .string)
    ++ [("orderBy", Json.list (fun k : SortKey => .object
      [("column", .string k.text), ("direction", .string k.direction)]) d.sortKeys)]
    ++ optMember "limit" (d.limit?.map .nat)
    ++ optMember "offset" (d.offset?.map .nat)
    ++ [("aggregates", .strings d.aggregates)]
    ++ optMember "parseError" (d.parseError?.map fun e => .string e.message)

end QueryReplay.Sql
