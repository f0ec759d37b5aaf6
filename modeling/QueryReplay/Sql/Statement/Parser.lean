import QueryReplay.Sql.Statement
import QueryReplay.Sql.Expr.Parser

/-!
# Reading SELECT statements

The clauses stand in a fixed order, and all but the first two may be absent.
A statement may end in one semicolon.
-/

namespace QueryReplay.Sql

-- powers and the zero of a sum are the core library's, also beside the instances that Mathlib declares
attribute [local instance (high)] instPowNat Zero.ofOfNat0

/-- Why a text is no statement. -/
inductive ParseError where
  /-- The text does not follow the grammar. -/
  | grammar
  /-- A row count needs more than 64 bits. -/
  | rowCount (text : String)
deriving DecidableEq, Repr

/-- The wording of the error. -/
def ParseError.message : ParseError → String
  | .grammar => "Pest error"
  | .rowCount text =>
    "Syntax error: Invalid row count '" ++ text ++ "': number too large to fit in target type"

namespace StatementParser

open QueryReplay.Sql.Parser

/-- The bytes that tokens and their gaps take. -/
def byteSize (ts : List Token) : Nat := (ts.map fun t => t.source.utf8ByteSize).sum

/-- Where a construct stands that was taken off the front of `ts`; `size` is
the length of the whole text, of which `ts` is the end. -/
def spanOf {α : Type} (size : Nat) (ts : List Token) (t : Taken α) : Span :=
  let start := size - byteSize ts
  ⟨start, start + (t.text ts).utf8ByteSize⟩

/-! ## The SELECT list -/

/-- `t.*`, without gaps inside. -/
def tableWildcard : Parser SelectItem
  | t :: point :: star :: rest =>
    match t.identifier? with
    | some name =>
      if t.gap.isEmpty && point.isSymbol .dot && point.gap.isEmpty && star.isSymbol .star then
        some ⟨.tableWildcard name, rest, false⟩
      else none
    | none => none
  | _ => none

/-- An alias, with AS or without. -/
def optAlias (ts : List Token) : Option String × List Token :=
  match identifier (optKeyword .as ts).2 with
  | some name => (some name.value, name.rest)
  | none => (none, ts)

def wildcard : Parser SelectItem := fun ts =>
  (symbol .star ts).map fun rest => ⟨.wildcard, rest, false⟩

def item (expr : Parser Expr) : Parser SelectItem :=
  wildcard.orElse <| tableWildcard.orElse fun ts =>
    match expr ts with
    | some e =>
      let (alias?, rest) := optAlias e.rest
      some ⟨.expr e.value alias? (e.text ts), rest, alias?.isNone⟩
    | none => none

/-! ## FROM and joins -/

def table : Parser TableRef := fun ts =>
  match identifier ts with
  | some name =>
    let (alias?, rest) := optAlias name.rest
    some ⟨⟨name.value, alias?⟩, rest, alias?.isNone⟩
  | none => none

/-- The keywords of a join. -/
def joinKind (ts : List Token) : Option (JoinKind × List Token) :=
  let outer (k : Keyword) (kind : JoinKind) : Option (JoinKind × List Token) := do
    let rest ← keyword k ts
    let rest ← keyword .join (optKeyword .outer rest).2
    return (kind, rest)
  let cross : Option (JoinKind × List Token) := do
    let rest ← keyword .cross ts
    let rest ← keyword .join rest
    return (.cross, rest)
  let inner : Option (JoinKind × List Token) := do
    let rest ← keyword .join (optKeyword .inner ts).2
    return (.inner, rest)
  cross.or <| (outer .full .full).or <| (outer .left .left).or <| (outer .right .right).or inner

def join (expr : Parser Expr) (size : Nat) : Parser Join := fun ts => do
  let (kind, rest) ← joinKind ts
  let right ← table rest
  let on? := do
    let rest ← keyword .on right.rest
    let e ← expr rest
    return (e, e.text rest)
  match on? with
  | some (e, text) =>
    let span := spanOf size ts e
    return ⟨⟨kind, right.value, some e.value, some text, span⟩, e.rest, e.open?⟩
  | none =>
    let whole : Taken Unit := ⟨(), right.rest, true⟩
    return ⟨⟨kind, right.value, none, none, spanOf size ts whole⟩, right.rest, true⟩

/-! ## The other clauses -/

/-- A clause: its keywords, then a body whose text is kept. -/
def clause {α : Type} (size : Nat) (keywords : List Keyword) (body : Parser α) :
    Parser (Located α) := fun ts => do
  let rest ← keywords.foldlM (fun ts k => keyword k ts) ts
  let b ← body rest
  return ⟨⟨b.value, spanOf size ts b, b.text rest⟩, b.rest, b.open?⟩

def groupKey (expr : Parser Expr) : Parser GroupKey := fun ts =>
  (expr ts).map fun e => ⟨⟨e.value, e.text ts⟩, e.rest, e.open?⟩

def sortKey (expr : Parser Expr) : Parser SortKey := fun ts =>
  (expr ts).map fun e =>
    let text := e.text ts
    match keyword .asc e.rest, keyword .desc e.rest with
    | some rest, _ => ⟨⟨e.value, false, text⟩, rest, false⟩
    | none, some rest => ⟨⟨e.value, true, text⟩, rest, false⟩
    | none, none => ⟨⟨e.value, false, text⟩, e.rest, true⟩

/-- A row count: digits alone. -/
def rowCount : Parser Nat
  | t :: rest => t.count?.map fun n => ⟨n, rest, false⟩
  | [] => none

/-- A clause that may be absent. -/
def optClause {α : Type} (p : Parser α) (ts : List Token) : Option α × List Token :=
  ExprParser.optional p ts

/-- The clauses from SELECT on, and the tokens behind them. -/
def select (expr : Parser Expr) (size : Nat) (ts : List Token) : Option (Select × List Token) := do
  let rest ← keyword .select ts
  let (distinct, list) := optKeyword .distinct rest
  let items ← commaList (item expr) list
  let fromTokens := items.rest
  let rest ← keyword .from fromTokens
  let tables ← commaList table rest
  let fromSpan := spanOf size fromTokens tables
  let joins := many (join expr size) tables.rest
  let (filter, rest) := optClause (clause size [.where] expr) joins.rest
  let (groupBy, rest) := optClause (clause size [.group, .by] (commaList (groupKey expr))) rest
  let (having, rest) := optClause (clause size [.having] expr) rest
  let (orderBy, rest) := optClause (clause size [.order, .by] (commaList (sortKey expr))) rest
  let (limit, rest) := optClause (clause size [.limit] rowCount) rest
  let (offset, rest) := optClause (clause size [.offset] rowCount) rest
  match tables.value with
  | base :: moreTables =>
    return (⟨distinct, items.value, spanOf size list items, base, moreTables, fromSpan,
      joins.value, filter, groupBy, having, orderBy, limit, offset⟩, rest)
  | [] => none

/-- A row count that 64 bits do not hold. -/
def checkCount : Option (Located Nat) → Except ParseError Unit
  | some c => if c.node < 2 ^ (64 : Nat) then .ok () else .error (.rowCount c.text)
  | none => .ok ()

/-- A whole statement, with at most one semicolon behind it. -/
def statement? (size : Nat) (ts : List Token) : Option Select :=
  match select (ExprParser.expr (ts.length + 1)) size ts with
  | some (s, rest) =>
    if ((symbol .semicolon rest).getD rest).isEmpty then some s else none
  | none => none

end StatementParser

/-- The statement that a text holds. -/
def parse (sql : String) : Except ParseError Select :=
  match TokenStream.ofString? sql with
  | none => .error .grammar
  | some stream =>
    match StatementParser.statement? sql.utf8ByteSize stream.tokens with
    | none => .error .grammar
    | some s => do
      StatementParser.checkCount s.limit
      StatementParser.checkCount s.offset
      return s

end QueryReplay.Sql
