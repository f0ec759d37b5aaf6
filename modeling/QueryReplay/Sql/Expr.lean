import QueryReplay.Number.Double
import QueryReplay.Text.Caseless

/-!
# Expressions

The expressions of the statement language and the aggregate calls inside them.
-/

namespace QueryReplay.Sql

/-- A literal value. -/
inductive Literal where
  | null
  | bool (b : Bool)
  | int (n : Nat)
  | float (x : Double)
  | string (s : String)
deriving DecidableEq, Repr

/-- A column, qualified or not. -/
structure ColumnRef where
  table : Option String := none
  column : String
deriving DecidableEq, Repr

/-- The reference as it is shown. -/
def ColumnRef.display (c : ColumnRef) : String :=
  match c.table with
  | some t => t ++ "." ++ c.column
  | none => c.column

inductive BinaryOp where
  | add | sub | mul | div | mod
  | concat | like
  | eq | ne | lt | le | gt | ge
  | and | or
deriving DecidableEq, Repr

inductive UnaryOp where
  | neg | not
deriving DecidableEq, Repr

inductive Expr where
  | literal (v : Literal)
  | column (c : ColumnRef)
  | binary (op : BinaryOp) (left right : Expr)
  | unary (op : UnaryOp) (operand : Expr)
  /-- A call with its source text; `star` is the argument list `*`. -/
  | call (name : String) (args : List Expr) (distinct star : Bool) (text : String)
  | isNull (subject : Expr) (negated : Bool)
  | inList (subject : Expr) (items : List Expr) (negated : Bool)
  | between (subject low high : Expr) (negated : Bool)
  | case (operand : Option Expr) (branches : List (Expr × Expr)) (otherwise : Option Expr)
deriving Repr

/-- A function call by itself. -/
structure Call where
  name : String
  args : List Expr
  distinct : Bool
  star : Bool
  text : String
deriving Repr

/-- The functions that fold a group of rows into one value. -/
def aggregateNames : List String :=
  ["COUNT", "SUM", "AVG", "MIN", "MAX", "STRING_AGG", "GROUP_CONCAT"]

/-- Whether a function folds a group of rows into one value. -/
def isAggregateName (name : String) : Bool :=
  aggregateNames.any (Text.sameLetters name)

namespace Expr

/-- The column that an expression consists of. -/
def asColumn? : Expr → Option ColumnRef
  | .column c => some c
  | _ => none

/-- The two columns of an equality between columns. -/
def equality? : Expr → Option (ColumnRef × ColumnRef)
  | .binary .eq left right => do
    let l ← left.asColumn?
    let r ← right.asColumn?
    return (l, r)
  | _ => none

mutual

/-- The aggregate calls of an expression from left to right; those inside
another aggregate call are left out. -/
def aggregates : Expr → List Call
  | .literal _ => []
  | .column _ => []
  | .binary _ left right => aggregates left ++ aggregates right
  | .unary _ operand => aggregates operand
  | .call name args distinct star text =>
    if isAggregateName name then [⟨name, args, distinct, star, text⟩] else aggregatesOfList args
  | .isNull subject _ => aggregates subject
  | .inList subject items _ => aggregates subject ++ aggregatesOfList items
  | .between subject low high _ => aggregates subject ++ aggregates low ++ aggregates high
  | .case operand branches otherwise =>
    aggregatesOfOption operand ++ aggregatesOfBranches branches ++ aggregatesOfOption otherwise

def aggregatesOfList : List Expr → List Call
  | [] => []
  | e :: rest => aggregates e ++ aggregatesOfList rest

def aggregatesOfOption : Option Expr → List Call
  | none => []
  | some e => aggregates e

def aggregatesOfBranches : List (Expr × Expr) → List Call
  | [] => []
  | (condition, result) :: rest =>
    aggregates condition ++ aggregates result ++ aggregatesOfBranches rest

end

/-- Whether the expression holds an aggregate call. -/
def containsAggregate (e : Expr) : Bool := !e.aggregates.isEmpty

end Expr

end QueryReplay.Sql
