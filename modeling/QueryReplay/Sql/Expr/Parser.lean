import QueryReplay.Sql.Expr
import QueryReplay.Sql.Parser

/-!
# Reading expressions

Precedence from loose to tight: OR, AND, NOT, predicates, `+ - ||`, `* / %`,
the sign, primaries.  Choices are ordered and never taken back.  Every level is
a plain function of the parser for nested expressions; `expr` ties the knot on
a depth, which the number of tokens bounds.
-/

namespace QueryReplay.Sql.ExprParser

open QueryReplay.Sql.Parser

-- powers are the core library's, also beside the instances that Mathlib declares
attribute [local instance (high)] instPowNat

/-! ## Literals and names -/

/-- The digits before and after the point of a number. -/
def numberParts (cs : List Char) : List Char × List Char :=
  let (whole, rest) := cs.span Char.isDigit
  (whole, rest.drop 1)

/-- Digits without a point are an integer if it fits 63 bits, all else is the
nearest double. -/
def numberLiteral (lexeme : String) : Literal :=
  let cs := lexeme.toList
  let (whole, places) := numberParts cs
  if cs.all Char.isDigit && Numeral.valueOf cs < 2 ^ (63 : Nat) then .int (Numeral.valueOf cs)
  else .float (.ofDecimal false (Numeral.valueOf (whole ++ places)) (-(places.length : Int)))

def literal? (t : Token) : Option Literal :=
  match t.kind with
  | .number => some (numberLiteral t.lexeme)
  | .text => t.content?.map .string
  | .keyword .null => some .null
  | .keyword .true => some (.bool true)
  | .keyword .false => some (.bool false)
  | _ => none

def literal : Parser Expr
  | t :: rest => (literal? t).map fun v => ⟨.literal v, rest, false⟩
  | [] => none

/-- The name behind a point, with no gap on either side of the point. -/
def qualifiedRest? (first : Token) : List Token → Option (String × List Token)
  | point :: t :: rest =>
    if first.gap.isEmpty && point.isSymbol .dot && point.gap.isEmpty then
      t.identifier?.map fun name => (name, rest)
    else none
  | _ => none

def column : Parser Expr
  | t :: rest =>
    match t.identifier? with
    | some first =>
      match qualifiedRest? t rest with
      | some (second, rest) => some ⟨.column ⟨some first, second⟩, rest, false⟩
      | none => some ⟨.column ⟨none, first⟩, rest, false⟩
    | none => none
  | [] => none

/-! ## Primaries -/

/-- The arguments of a call: their list, DISTINCT, and the star. -/
structure Arguments where
  args : List Expr := []
  distinct : Bool := false
  star : Bool := false

/-- What stands between the parentheses of a call.  If neither a star nor a
list can be read there is nothing. -/
def arguments (nested : Parser Expr) (ts : List Token) : Arguments × List Token :=
  match symbol .star ts with
  | some rest => ({ star := true }, rest)
  | none =>
    let (distinct, rest) := optKeyword .distinct ts
    match commaList nested rest with
    | some list => ({ args := list.value, distinct }, list.rest)
    | none => ({}, ts)

/-- A function call; any word may name the function. -/
def call (nested : Parser Expr) : Parser Expr
  | [] => none
  | t :: rest => do
    let name ← t.functionName?
    let inside ← symbol .openParen rest
    let (a, after) := arguments nested inside
    let after ← symbol .closeParen after
    let text := sourceOf false (tokensBefore (t :: rest) after)
    return ⟨.call name a.args a.distinct a.star text, after, false⟩

def parenthesized (nested : Parser Expr) : Parser Expr := fun ts => do
  let inside ← symbol .openParen ts
  let e ← nested inside
  let after ← symbol .closeParen e.rest
  return ⟨e.value, after, false⟩

/-- A keyword and the expression behind it. -/
def afterKeyword (k : Keyword) (nested : Parser Expr) : Parser Expr := fun ts =>
  match keyword k ts with
  | some rest => nested rest
  | none => none

/-- WHEN, a condition, THEN and a result. -/
def branch (nested : Parser Expr) : Parser (Expr × Expr) := fun ts => do
  let condition ← afterKeyword .when nested ts
  let result ← afterKeyword .then nested condition.rest
  return ⟨(condition.value, result.value), result.rest, result.open?⟩

/-- What may be there or not. -/
def optional {α : Type} (p : Parser α) (ts : List Token) : Option α × List Token :=
  match p ts with
  | some t => (some t.value, t.rest)
  | none => (none, ts)

/-- CASE with an operand or without. -/
def case (nested : Parser Expr) : Parser Expr := fun ts => do
  let rest ← keyword .case ts
  let (operand, rest) := optional nested rest
  let first ← branch nested rest
  let more := many (branch nested) first.rest
  let (otherwise, rest) := optional (afterKeyword .else nested) more.rest
  let after ← keyword .end rest
  return ⟨.case operand (first.value :: more.value) otherwise, after, false⟩

def primary (nested : Parser Expr) : Parser Expr :=
  literal.orElse <| (case nested).orElse <| (call nested).orElse <|
    column.orElse (parenthesized nested)

/-! ## Operators -/

/-- A primary with at most one sign. -/
def signed (nested : Parser Expr) : Parser Expr := fun ts =>
  match symbol .minus ts with
  | some rest => (primary nested).map (.unary .neg) rest
  | none => primary nested ts

/-- An operator and its right operand. -/
def operatorAndOperand (op? : Token → Option BinaryOp) (operand : Parser Expr) :
    Parser (BinaryOp × Expr)
  | [] => none
  | t :: rest =>
    match op? t with
    | some op => operand.map (fun e => (op, e)) rest
    | none => none

/-- Operands joined by operators of one level, grouped from the left. -/
def chain (op? : Token → Option BinaryOp) (operand : Parser Expr) : Parser Expr := fun ts =>
  match operand ts with
  | some first =>
    let more := many (operatorAndOperand op? operand) first.rest
    some ⟨more.value.foldl (fun left (op, right) => .binary op left right) first.value,
      more.rest, more.open?⟩
  | none => none

def multiplicativeOp? (t : Token) : Option BinaryOp :=
  match t.kind with
  | .symbol .star => some .mul
  | .symbol .slash => some .div
  | .symbol .percent => some .mod
  | _ => none

def additiveOp? (t : Token) : Option BinaryOp :=
  match t.kind with
  | .symbol .plus => some .add
  | .symbol .minus => some .sub
  | .symbol .concat => some .concat
  | _ => none

def comparisonOp? (t : Token) : Option BinaryOp :=
  match t.kind with
  | .symbol .eq => some .eq
  | .symbol .ne => some .ne
  | .symbol .lt => some .lt
  | .symbol .le => some .le
  | .symbol .gt => some .gt
  | .symbol .ge => some .ge
  | _ => none

def andOp? (t : Token) : Option BinaryOp := if t.isKeyword .and then some .and else none

def orOp? (t : Token) : Option BinaryOp := if t.isKeyword .or then some .or else none

def multiplicative (nested : Parser Expr) : Parser Expr :=
  chain multiplicativeOp? (signed nested)

def additive (nested : Parser Expr) : Parser Expr :=
  chain additiveOp? (multiplicative nested)

/-! ## Predicates -/

/-- IS NULL and IS NOT NULL. -/
def isNullTail (subject : Expr) : Parser Expr := fun ts => do
  let rest ← keyword .is ts
  let (negated, rest) := optKeyword .not rest
  let after ← keyword .null rest
  return ⟨.isNull subject negated, after, false⟩

/-- IN with a list. -/
def inTail (nested : Parser Expr) (subject : Expr) : Parser Expr := fun ts => do
  let (negated, rest) := optKeyword .not ts
  let rest ← keyword .in rest
  let inside ← symbol .openParen rest
  let items ← commaList nested inside
  let after ← symbol .closeParen items.rest
  return ⟨.inList subject items.value negated, after, false⟩

/-- BETWEEN with two bounds. -/
def betweenTail (nested : Parser Expr) (subject : Expr) : Parser Expr := fun ts => do
  let (negated, rest) := optKeyword .not ts
  let rest ← keyword .between rest
  let low ← additive nested rest
  let rest ← keyword .and low.rest
  let high ← additive nested rest
  return ⟨.between subject low.value high.value negated, high.rest, high.open?⟩

/-- LIKE; its negation is the negation of the whole. -/
def likeTail (nested : Parser Expr) (subject : Expr) : Parser Expr := fun ts => do
  let (negated, rest) := optKeyword .not ts
  let rest ← keyword .like rest
  let pattern ← additive nested rest
  let like := Expr.binary .like subject pattern.value
  return ⟨if negated then .unary .not like else like, pattern.rest, pattern.open?⟩

def comparisonTail (nested : Parser Expr) (subject : Expr) : Parser Expr :=
  (operatorAndOperand comparisonOp? (additive nested)).map
    fun (op, right) => .binary op subject right

/-- A sum, with at most one test of it behind. -/
def predicate (nested : Parser Expr) : Parser Expr := fun ts =>
  match additive nested ts with
  | some subject =>
    let e := subject.value
    let tail := (isNullTail e).orElse <| (inTail nested e).orElse <|
      (betweenTail nested e).orElse <| (likeTail nested e).orElse (comparisonTail nested e)
    match tail subject.rest with
    | some t => some t
    | none => some ⟨e, subject.rest, true⟩
  | none => none

/-! ## Connectives -/

/-- Any number of negations of a predicate; NOT may also name a function. -/
def negation (nested : Parser Expr) : Parser Expr
  | [] => predicate nested []
  | t :: rest =>
    if t.isKeyword .not then
      match negation nested rest with
      | some e => some ⟨.unary .not e.value, e.rest, e.open?⟩
      | none => predicate nested (t :: rest)
    else predicate nested (t :: rest)

def conjunction (nested : Parser Expr) : Parser Expr := chain andOp? (negation nested)

def disjunction (nested : Parser Expr) : Parser Expr := chain orOp? (conjunction nested)

/-- An expression in which parentheses, calls and CASE nest less deep than `depth`. -/
def expr : Nat → Parser Expr
  | 0 => fun _ => none
  | depth + 1 => disjunction (expr depth)

end QueryReplay.Sql.ExprParser
