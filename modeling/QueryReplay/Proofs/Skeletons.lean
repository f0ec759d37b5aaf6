import QueryReplay.Proofs.Contents

/-! # Skeletons — statements apart from their wording

    A statement that was read holds the values of its text literals, and it
    keeps how its parts are written and where they stand.  What is left without
    that is its skeleton.  Values of all kinds that the parsers build are taken
    apart in this way (`Written`): into the skeleton, the texts that are kept and
    the places that are kept, the latter two in a fixed order.  Two values
    correspond (`Corresponds`) if they differ only in their text literals, and in
    texts and places that are related to each other one by one. -/

namespace QueryReplay.Sql

/-! ## Expressions with other texts -/

/-- A literal with another text. -/
def Literal.retext (f : String → String) : Literal → Literal
  | .string s => .string (f s)
  | v => v

namespace Expr

variable (f g : String → String)

mutual

/-- The expression with `f` applied to its text literals and `g` to the texts of
its calls. -/
def retext : Expr → Expr
  | .literal v => .literal (v.retext f)
  | .column c => .column c
  | .binary op left right => .binary op (retext left) (retext right)
  | .unary op operand => .unary op (retext operand)
  | .call name args distinct star text => .call name (retextList args) distinct star (g text)
  | .isNull subject negated => .isNull (retext subject) negated
  | .inList subject items negated => .inList (retext subject) (retextList items) negated
  | .between subject low high negated =>
    .between (retext subject) (retext low) (retext high) negated
  | .case operand branches otherwise =>
    .case (retextOption operand) (retextBranches branches) (retextOption otherwise)

def retextList : List Expr → List Expr
  | [] => []
  | e :: rest => retext e :: retextList rest

def retextOption : Option Expr → Option Expr
  | none => none
  | some e => some (retext e)

def retextBranches : List (Expr × Expr) → List (Expr × Expr)
  | [] => []
  | (condition, result) :: rest => (retext condition, retext result) :: retextBranches rest

end

/-- Lists are retexted member by member. -/
theorem retextList_eq (es : List Expr) : retextList f g es = es.map (retext f g) := by
  induction es with
  | nil => rfl
  | cons e es ih =>
      show retext f g e :: retextList f g es = _
      rw [ih, List.map_cons]

/-- An optional part is rewritten where it is present. -/
theorem retextOption_eq (o : Option Expr) : retextOption f g o = o.map (retext f g) := by
  cases o <;> rfl

/-- Branches are retexted side by side, the condition and the result of each. -/
theorem retextBranches_eq (bs : List (Expr × Expr)) :
    retextBranches f g bs = bs.map fun b => (retext f g b.1, retext f g b.2) := by
  induction bs with
  | nil => rfl
  | cons b bs ih =>
      show (retext f g b.1, retext f g b.2) :: retextBranches f g bs = _
      rw [ih, List.map_cons]

/-- Of a call the name and the marks stay; its own text is changed by `g`, not by `f`. -/
@[simp] theorem retext_call (name : String) (args : List Expr) (distinct star : Bool)
    (text : String) : retext f g (.call name args distinct star text)
      = .call name (args.map (retext f g)) distinct star (g text) :=
  congrArg (Expr.call name · distinct star (g text)) (retextList_eq f g args)

@[simp] theorem retext_inList (e : Expr) (items : List Expr) (negated : Bool) :
    retext f g (.inList e items negated)
      = .inList (retext f g e) (items.map (retext f g)) negated :=
  congrArg (Expr.inList (retext f g e) · negated) (retextList_eq f g items)

@[simp] theorem retext_case (operand : Option Expr) (branches : List (Expr × Expr))
    (otherwise : Option Expr) : retext f g (.case operand branches otherwise)
      = .case (operand.map (retext f g)) (branches.map fun b => (retext f g b.1, retext f g b.2))
        (otherwise.map (retext f g)) := by
  rw [← retextOption_eq, ← retextBranches_eq, ← retextOption_eq]
  rfl

end Expr

/-! ## The values of text literals -/

/-- The value of a text literal. -/
def Literal.string? : Literal → Option String
  | .string s => some s
  | _ => none

/-- The text literals of an expression or a statement. -/
def stringLeaves : Leaves String where
  ofLiteral v := v.string?.toList
  ofCall _ _ := []

/-- The values of the text literals of a statement, from front to back. -/
def Select.strings (s : Select) : List String := stringLeaves.ofSelect s

/-! ## Skeletons, texts and places -/

/-- Values that can be taken apart into a skeleton, texts and places. -/
class Written (α : Type) where
  skeleton : α → α
  texts : α → List String
  spans : α → List Span := fun _ => []

export Written (skeleton texts spans)

/-- The texts of the calls in an expression. -/
def callLeaves : Leaves String where
  ofLiteral _ := []
  ofCall _ text := [text]

instance : Written Expr where
  skeleton := Expr.retext (fun _ => "") (fun _ => "")
  texts := callLeaves.ofExpr

instance : Written BinaryOp := ⟨id, fun _ => [], fun _ => []⟩
instance : Written Bool := ⟨id, fun _ => [], fun _ => []⟩
instance : Written Nat := ⟨id, fun _ => [], fun _ => []⟩
instance : Written TableRef := ⟨id, fun _ => [], fun _ => []⟩

section

variable {α β : Type} [Written α] [Written β]

instance : Written (List α) where
  skeleton := List.map skeleton
  texts := List.flatMap texts
  spans := List.flatMap spans

instance : Written (Option α) where
  skeleton := Option.map skeleton
  texts o := o.toList.flatMap texts
  spans o := o.toList.flatMap spans

instance : Written (α × β) where
  skeleton x := (skeleton x.1, skeleton x.2)
  texts x := texts x.1 ++ texts x.2
  spans x := spans x.1 ++ spans x.2

instance : Written (Located α) where
  skeleton l := ⟨skeleton l.node, ⟨0, 0⟩, ""⟩
  texts l := l.text :: texts l.node
  spans l := l.span :: spans l.node

end

instance : Written SelectItem where
  skeleton i := match i with
    | .expr e alias? _ => .expr (skeleton e) alias? ""
    | i => i
  texts i := match i with
    | .expr e _ text => text :: texts e
    | _ => []

instance : Written GroupKey where
  skeleton k := ⟨skeleton k.expr, ""⟩
  texts k := k.text :: texts k.expr

instance : Written SortKey where
  skeleton k := ⟨skeleton k.expr, k.descending, ""⟩
  texts k := k.text :: texts k.expr

instance : Written Join where
  skeleton j := ⟨j.kind, j.table, skeleton j.condition, j.conditionText.map fun _ => "", ⟨0, 0⟩⟩
  texts j := j.conditionText.toList ++ texts j.condition
  spans j := [j.span]

instance : Written Select where
  skeleton s := ⟨s.distinct, skeleton s.items, ⟨0, 0⟩, s.base, s.moreTables, ⟨0, 0⟩,
    skeleton s.joins, skeleton s.filter, skeleton s.groupBy, skeleton s.having, skeleton s.orderBy,
    skeleton s.limit, skeleton s.offset⟩
  texts s := texts s.items ++ (texts s.joins ++ (texts s.filter ++ (texts s.groupBy
    ++ (texts s.having ++ (texts s.orderBy ++ (texts s.limit ++ texts s.offset))))))
  spans s := s.itemsSpan :: s.fromSpan :: (spans s.items ++ (spans s.joins ++ (spans s.filter
    ++ (spans s.groupBy ++ (spans s.having ++ (spans s.orderBy ++ (spans s.limit
    ++ spans s.offset)))))))

/-! ## Corresponding values -/

/-- The values have one skeleton, and their texts and places are related. -/
structure Corresponds {α : Type} [Written α] (T : String → String → Prop) (S : Span → Span → Prop)
    (v v' : α) : Prop where
  sameSkeleton : skeleton v = skeleton v'
  sameTexts : List.Forall₂ T (texts v) (texts v')
  sameSpans : List.Forall₂ S (spans v) (spans v')

end QueryReplay.Sql
