import QueryReplay.Proofs.Phrases

/-! # Leaves — what tokens hold is found again in the tree

    Literals and the names of functions are the leaves of an expression.  What a
    token holds of interest is told by a `Tally`, which must agree with what is
    asked of the leaves (`Leaves`); then reading an expression loses and reorders nothing: the
    tokens that are taken hold, in their order, what the leaves hold from left to
    right (`expr_tallied`).  Every parser of expressions is shown to keep this
    from the fact that those below it do. -/

namespace QueryReplay.Sql

open QueryReplay.Sql.Parser QueryReplay.Sql.ExprParser

/-! ## Leaves -/

/-- What is asked of the leaves of an expression: of a literal, and of a call by
    its name and its text. -/
structure Leaves (β : Type) where
  ofLiteral : Literal → List β
  ofCall : String → String → List β

namespace Leaves

variable {β : Type} (c : Leaves β)

mutual

/-- What the leaves of an expression hold, from left to right. -/
def ofExpr : Expr → List β
  | .literal v => c.ofLiteral v
  | .column _ => []
  | .binary _ left right => ofExpr left ++ ofExpr right
  | .unary _ operand => ofExpr operand
  | .call name args _ _ text => c.ofCall name text ++ ofExprs args
  | .isNull subject _ => ofExpr subject
  | .inList subject items _ => ofExpr subject ++ ofExprs items
  | .between subject low high _ => ofExpr subject ++ (ofExpr low ++ ofExpr high)
  | .case operand branches otherwise =>
    ofOption operand ++ (ofBranches branches ++ ofOption otherwise)

def ofExprs : List Expr → List β
  | [] => []
  | e :: rest => ofExpr e ++ ofExprs rest

def ofOption : Option Expr → List β
  | none => []
  | some e => ofExpr e

def ofBranches : List (Expr × Expr) → List β
  | [] => []
  | (condition, result) :: rest => ofExpr condition ++ ofExpr result ++ ofBranches rest

end

/-- The leaves of a list are those of its members, in order. -/
theorem ofExprs_eq (es : List Expr) : c.ofExprs es = es.flatMap c.ofExpr := by
  induction es with
  | nil => rfl
  | cons e es ih =>
      show c.ofExpr e ++ c.ofExprs es = _
      rw [ih, List.flatMap_cons]

theorem ofOption_eq (o : Option Expr) : c.ofOption o = o.toList.flatMap c.ofExpr := by
  cases o with
  | none => rfl
  | some e => exact (List.append_nil _).symm

/-- The leaves of a branch are those of its condition in front of those of its result. -/
theorem ofBranches_eq (bs : List (Expr × Expr)) :
    c.ofBranches bs = bs.flatMap fun b => c.ofExpr b.1 ++ c.ofExpr b.2 := by
  induction bs with
  | nil => rfl
  | cons b bs ih =>
      show c.ofExpr b.1 ++ c.ofExpr b.2 ++ c.ofBranches bs = _
      rw [ih, List.flatMap_cons]

@[simp] theorem ofExpr_binary (op : BinaryOp) (left right : Expr) :
    c.ofExpr (.binary op left right) = c.ofExpr left ++ c.ofExpr right := rfl

@[simp] theorem ofExpr_unary (op : UnaryOp) (e : Expr) : c.ofExpr (.unary op e) = c.ofExpr e := rfl

@[simp] theorem ofExpr_isNull (e : Expr) (negated : Bool) :
    c.ofExpr (.isNull e negated) = c.ofExpr e := rfl

@[simp] theorem ofExpr_between (e low high : Expr) (negated : Bool) :
    c.ofExpr (.between e low high negated) = c.ofExpr e ++ (c.ofExpr low ++ c.ofExpr high) := rfl

/-- A call may hold something itself, in front of its arguments. -/
@[simp] theorem ofExpr_call (name : String) (args : List Expr) (distinct star : Bool)
    (text : String) : c.ofExpr (.call name args distinct star text)
      = c.ofCall name text ++ args.flatMap c.ofExpr :=
  congrArg (c.ofCall name text ++ ·) (c.ofExprs_eq args)

@[simp] theorem ofExpr_inList (e : Expr) (items : List Expr) (negated : Bool) :
    c.ofExpr (.inList e items negated) = c.ofExpr e ++ items.flatMap c.ofExpr :=
  congrArg (c.ofExpr e ++ ·) (c.ofExprs_eq items)

/-- Operand, branches and ELSE, in the order in which they are written. -/
@[simp] theorem ofExpr_case (operand : Option Expr) (branches : List (Expr × Expr))
    (otherwise : Option Expr) : c.ofExpr (.case operand branches otherwise)
      = operand.toList.flatMap c.ofExpr
        ++ (branches.flatMap (fun b => c.ofExpr b.1 ++ c.ofExpr b.2)
          ++ otherwise.toList.flatMap c.ofExpr) := by
  rw [← ofOption_eq, ← ofBranches_eq, ← ofOption_eq]
  rfl

end Leaves

/-! ## Tallies -/

/-- The keywords that open a list of the statement: FROM, GROUP and ORDER. -/
def Keyword.opensList (k : Keyword) : Bool := k == .from || k == .group || k == .order

/-- What tokens hold, and the same asked of the leaves.  Only literals and words
    that can name a function hold something, and among the reserved words only
    those that open a list. -/
structure Tally (β : Type) extends Leaves β where
  good : Token → Prop
  ofToken : Token → List β
  symbol_nil : ∀ {t s}, t.kind = .symbol s → ofToken t = []
  number_nil : ∀ {t}, t.kind = .number → ofToken t = []
  keyword_nil : ∀ {t k}, t.kind = .keyword k → k.opensList = false → ofToken t = []
  identifier_nil : ∀ {t name}, good t → t.identifier? = some name → ofToken t = []
  literal_eq : ∀ {t v}, literal? t = some v → ofToken t = ofLiteral v
  call_eq : ∀ {t name text}, good t → t.functionName? = some name → ofToken t = ofCall name text

namespace Tally

open Leaves

variable {β : Type} (c : Tally β)

/-! ## Passing tokens -/

/-- The tokens in front of `rest` hold `ys`. -/
def Passes (ts rest : List Token) (ys : List β) : Prop :=
  ∃ used, ts = used ++ rest ∧ used.flatMap c.ofToken = ys

/-- All tokens are such that the tally agrees on them. -/
def Good (ts : List Token) : Prop := ∀ t ∈ ts, c.good t

variable {c} {ts us rest : List Token} {ys zs : List β}

/-- Without tokens nothing is held. -/
theorem Passes.refl : c.Passes ts ts [] := ⟨[], rfl, rfl⟩

/-- What is passed in two steps is held one behind the other. -/
theorem Passes.trans (h : c.Passes ts us ys) (h' : c.Passes us rest zs) :
    c.Passes ts rest (ys ++ zs) := by
  obtain ⟨used, rfl, rfl⟩ := h
  obtain ⟨more, rfl, rfl⟩ := h'
  exact ⟨used ++ more, (List.append_assoc _ _ _).symm, List.flatMap_append⟩

/-- One token passed. -/
theorem Passes.single {t : Token} (h : c.ofToken t = ys) : c.Passes (t :: rest) rest ys :=
  ⟨[t], rfl, by rw [List.flatMap_cons, List.flatMap_nil, List.append_nil, h]⟩

/-- The same list, written otherwise. -/
theorem Passes.cast (h : c.Passes ts rest ys) (heq : ys = zs) : c.Passes ts rest zs := heq ▸ h

/-- What is left is as good as the whole was. -/
theorem Passes.good (h : c.Passes ts rest ys) (hts : c.Good ts) : c.Good rest := by
  obtain ⟨used, rfl, -⟩ := h
  exact fun t ht => hts t (List.mem_append_right used ht)

/-- A keyword that opens no list of the statement holds nothing. -/
theorem passes_keyword {k : Keyword} (hk : k.opensList = false) (h : keyword k ts = some rest) :
    c.Passes ts rest [] := by
  obtain ⟨t, rfl, ht⟩ := keyword_some h
  exact .single (c.keyword_nil ht hk)

/-- Symbols hold nothing. -/
theorem passes_symbol {s : Symbol} (h : symbol s ts = some rest) : c.Passes ts rest [] := by
  obtain ⟨t, rfl, ht⟩ := symbol_some h
  exact .single (c.symbol_nil ht)

/-- Neither does a keyword that may be there or not. -/
theorem passes_optKeyword (k : Keyword) (hk : k.opensList = false) (ts : List Token) :
    c.Passes ts (optKeyword k ts).2 [] := by
  unfold optKeyword
  cases h : keyword k ts with
  | some rest => exact passes_keyword hk h
  | none => exact .refl

/-! ## Parsers -/

/-- What the parser takes holds what its value holds. -/
def Tallied {α : Type} (c : Tally β) (g : α → List β) (p : Parser α) : Prop :=
  ∀ ts t, c.Good ts → p ts = some t → c.Passes ts t.rest (g t.value)

section Combinators

variable {α γ : Type} {g : α → List β} {p q : Parser α}

/-- A value can be wrapped up, as long as its leaves stay. -/
theorem Tallied.map {g' : γ → List β} (h : c.Tallied g p) {f : α → γ}
    (hf : ∀ x, g' (f x) = g x) : c.Tallied g' (p.map f) := by
  intro ts t hts ht
  obtain ⟨t', ht', rfl⟩ := Option.map_eq_some_iff.mp ht
  exact (h ts t' hts ht').cast (hf t'.value).symm

/-- Whichever alternative takes the tokens, its value has their leaves. -/
theorem Tallied.orElse (hp : c.Tallied g p) (hq : c.Tallied g q) : c.Tallied g (p.orElse q) := by
  intro ts t hts ht
  rcases orElse_cases ht with hread | ⟨-, hread⟩
  · exact hp ts t hts hread
  · exact hq ts t hts hread

/-- A repetition passes what its parts pass. -/
theorem Tallied.manyUpTo (h : c.Tallied g p) : ∀ (fuel : Nat) (gone : List α) (o : Bool)
    (ts : List Token), c.Good ts → ∃ more, (manyUpTo p fuel gone o ts).value = gone.reverse ++ more
      ∧ c.Passes ts (manyUpTo p fuel gone o ts).rest (more.flatMap g) := by
  intro fuel
  induction fuel with
  | zero => intro gone o ts _; exact ⟨[], (List.append_nil _).symm, .refl⟩
  | succ fuel ih =>
      intro gone o ts hts
      rw [Parser.manyUpTo]
      cases hread : p ts with
      | none => exact ⟨[], (List.append_nil _).symm, .refl⟩
      | some t =>
          have hpass := h ts t hts hread
          obtain ⟨more, hvalue, hmore⟩ := ih (t.value :: gone) t.open? t.rest (hpass.good hts)
          refine ⟨t.value :: more, ?_, hpass.trans hmore⟩
          show (Parser.manyUpTo p fuel (t.value :: gone) t.open? t.rest).value = _
          rw [hvalue, List.reverse_cons, List.append_assoc]
          rfl

/-- The values of a repetition hold, one behind the other, what was passed. -/
theorem Tallied.many (h : c.Tallied g p) (hts : c.Good ts) :
    c.Passes ts (many p ts).rest ((many p ts).value.flatMap g) := by
  obtain ⟨more, hvalue, hpass⟩ := h.manyUpTo ts.length [] true ts hts
  rw [Parser.many, hvalue]
  exact hpass

/-- So do those of a list, as commas hold nothing. -/
theorem Tallied.commaList (h : c.Tallied g p) : c.Tallied (List.flatMap g) (commaList p) := by
  have hafter : c.Tallied g (afterComma p) := by
    intro ts t hts ht
    unfold afterComma at ht
    cases hcomma : symbol .comma ts with
    | none => rw [hcomma] at ht; exact nomatch ht
    | some rest =>
        rw [hcomma] at ht
        have hpass := passes_symbol (c := c) hcomma
        exact hpass.trans (h rest t (hpass.good hts) ht)
  intro ts t hts ht
  unfold Parser.commaList at ht
  cases hfirst : p ts with
  | none => rw [hfirst] at ht; exact nomatch ht
  | some first =>
      rw [hfirst] at ht
      obtain rfl := Option.some.inj ht
      have hpass := h ts first hts hfirst
      exact hpass.trans (hafter.many (hpass.good hts))

/-- What may be there or not. -/
theorem Tallied.optional (h : c.Tallied g p) (hts : c.Good ts) :
    c.Passes ts (ExprParser.optional p ts).2 ((ExprParser.optional p ts).1.toList.flatMap g) := by
  unfold ExprParser.optional
  cases hread : p ts with
  | some t =>
      show c.Passes ts t.rest ([t.value].flatMap g)
      rw [List.flatMap_cons, List.flatMap_nil, List.append_nil]
      exact h ts t hts hread
  | none => exact .refl

end Combinators

/-! ## Primaries -/

/-- A literal is its own leaf. -/
theorem literal_tallied : c.Tallied c.ofExpr ExprParser.literal := by
  intro ts t _ ht
  cases ts with
  | nil => exact nomatch ht
  | cons s ts =>
      obtain ⟨v, hv, rfl⟩ := Option.map_eq_some_iff.mp
        (show (literal? s).map (fun v => (⟨.literal v, ts, false⟩ : Taken Expr)) = some t from ht)
      exact .single (c.literal_eq hv)

/-- A column holds nothing, and neither do the names and the point that make it. -/
theorem column_tallied : c.Tallied c.ofExpr column := by
  intro ts t hts ht
  cases ts with
  | nil => exact nomatch ht
  | cons s ts =>
      unfold column at ht
      dsimp only at ht
      cases hfirst : s.identifier? with
      | none => rw [hfirst] at ht; exact nomatch ht
      | some first =>
          have hs : c.Passes (s :: ts) ts [] :=
            .single (c.identifier_nil (hts s List.mem_cons_self) hfirst)
          rw [hfirst] at ht
          dsimp only at ht
          cases hsecond : qualifiedRest? s ts with
          | none =>
              rw [hsecond] at ht
              obtain rfl := Option.some.inj ht
              exact hs
          | some x =>
              obtain ⟨second, rest⟩ := x
              rw [hsecond] at ht
              obtain rfl := Option.some.inj ht
              obtain ⟨point, u, rfl, -, hpoint, -, hu⟩ := qualifiedRest_some hsecond
              have hgood : c.good u := hts u (by simp)
              exact hs.trans ((Passes.single (c.symbol_nil hpoint)).trans
                (.single (c.identifier_nil hgood hu)))

section Nested

variable {nested : Parser Expr} (h : c.Tallied c.ofExpr nested)
include h

/-- What stands between the parentheses of a call. -/
theorem arguments_passes (hts : c.Good ts) :
    c.Passes ts (arguments nested ts).2 ((arguments nested ts).1.args.flatMap c.ofExpr) := by
  unfold arguments
  cases hstar : symbol .star ts with
  | some rest => exact passes_symbol hstar
  | none =>
      have hdistinct := passes_optKeyword (c := c) .distinct rfl ts
      rcases hopt : optKeyword .distinct ts with ⟨distinct, rest⟩
      rw [hopt] at hdistinct
      dsimp only
      cases hlist : Parser.commaList nested rest with
      | none => exact .refl
      | some list =>
          exact hdistinct.trans (h.commaList rest list (hdistinct.good hts) hlist)

/-- The name of a call and its text are what it holds, in front of its arguments; parentheses,
commas and DISTINCT hold nothing. -/
theorem call_tallied : c.Tallied c.ofExpr (ExprParser.call nested) := by
  intro ts t hts ht
  cases ts with
  | nil => exact nomatch ht
  | cons s ts =>
      obtain ⟨name, hname, ht⟩ := Option.bind_eq_some_iff.mp ht
      obtain ⟨inside, hopen, ht⟩ := Option.bind_eq_some_iff.mp ht
      have hs : ∀ text, c.Passes (s :: ts) ts (c.ofCall name text) :=
        fun text => .single (c.call_eq (hts s List.mem_cons_self) hname)
      have hinside := fun text => (hs text).trans (passes_symbol hopen)
      have hargs := fun text =>
        (hinside text).trans (arguments_passes h ((hinside text).good hts))
      rcases harguments : arguments nested inside with ⟨a, after⟩
      simp only [harguments] at ht hargs
      obtain ⟨rest, hclose, ht⟩ := Option.bind_eq_some_iff.mp ht
      obtain rfl := Option.some.inj ht
      have htext := hargs (sourceOf false (tokensBefore (s :: ts) rest))
      refine (htext.trans (passes_symbol hclose)).cast ?_
      rw [List.append_nil, List.append_nil, ofExpr_call]

/-- Parentheses are passed without a trace. -/
theorem parenthesized_tallied : c.Tallied c.ofExpr (parenthesized nested) := by
  intro ts t hts ht
  obtain ⟨inside, hopen, ht⟩ := Option.bind_eq_some_iff.mp ht
  obtain ⟨e, he, ht⟩ := Option.bind_eq_some_iff.mp ht
  obtain ⟨rest, hclose, ht⟩ := Option.bind_eq_some_iff.mp ht
  obtain rfl := Option.some.inj ht
  have hinside := passes_symbol (c := c) hopen
  have hvalue := hinside.trans (h inside e (hinside.good hts) he)
  exact (hvalue.trans (passes_symbol hclose)).cast (List.append_nil _)

/-- A keyword in front of an expression adds nothing to it. -/
theorem afterKeyword_tallied {k : Keyword} (hk : k.opensList = false) :
    c.Tallied c.ofExpr (afterKeyword k nested) := by
  intro ts t hts ht
  unfold afterKeyword at ht
  cases hread : keyword k ts with
  | none => rw [hread] at ht; exact nomatch ht
  | some rest =>
      rw [hread] at ht
      have hpass := passes_keyword (c := c) hk hread
      exact hpass.trans (h rest t (hpass.good hts) ht)

/-- WHEN and THEN add nothing to their expressions. -/
theorem branch_tallied :
    c.Tallied (fun b => c.ofExpr b.1 ++ c.ofExpr b.2) (branch nested) := by
  intro ts t hts ht
  obtain ⟨condition, hcondition, ht⟩ := Option.bind_eq_some_iff.mp ht
  obtain ⟨result, hresult, ht⟩ := Option.bind_eq_some_iff.mp ht
  obtain rfl := Option.some.inj ht
  have hpass := afterKeyword_tallied h (k := .when) rfl ts condition hts hcondition
  exact hpass.trans (afterKeyword_tallied h (k := .then) rfl _ result (hpass.good hts) hresult)

/-- CASE holds what its operand, branches and ELSE hold, in this order. -/
theorem case_tallied : c.Tallied c.ofExpr (ExprParser.case nested) := by
  intro ts t hts ht
  obtain ⟨rest, hcase, ht⟩ := Option.bind_eq_some_iff.mp ht
  obtain ⟨first, hfirst, ht⟩ := Option.bind_eq_some_iff.mp ht
  obtain ⟨after, hend, ht⟩ := Option.bind_eq_some_iff.mp ht
  obtain rfl := Option.some.inj ht
  have hopen := passes_keyword (c := c) rfl hcase
  have hsubject := hopen.trans (h.optional (hopen.good hts))
  have hbranch := hsubject.trans (branch_tallied h _ first (hsubject.good hts) hfirst)
  have hmore := hbranch.trans ((branch_tallied h).many (hbranch.good hts))
  have hother := hmore.trans
    ((afterKeyword_tallied h (k := .else) rfl).optional (hmore.good hts))
  refine (hother.trans (passes_keyword rfl hend)).cast ?_
  show _ = c.ofExpr (.case (ExprParser.optional nested rest).1
    (first.value :: (many (branch nested) first.rest).value)
    (ExprParser.optional (afterKeyword .else nested) (many (branch nested) first.rest).rest).1)
  simp only [ofExpr_case, List.flatMap_cons, List.nil_append, List.append_nil, List.append_assoc]

/-- Every primary holds what its tokens hold. -/
theorem primary_tallied : c.Tallied c.ofExpr (primary nested) :=
  literal_tallied.orElse ((case_tallied h).orElse ((call_tallied h).orElse
    (column_tallied.orElse (parenthesized_tallied h))))

/-! ## Operators -/

/-- A sign is a symbol, so it holds nothing. -/
theorem signed_tallied : c.Tallied c.ofExpr (signed nested) := by
  intro ts t hts ht
  unfold signed at ht
  cases hminus : symbol .minus ts with
  | none =>
      rw [hminus] at ht
      exact primary_tallied h ts t hts ht
  | some rest =>
      rw [hminus] at ht
      have hpass := passes_symbol (c := c) hminus
      have hprimary : c.Tallied c.ofExpr ((primary nested).map (.unary .neg)) :=
        (primary_tallied h).map (c.ofExpr_unary .neg)
      exact hpass.trans (hprimary rest t (hpass.good hts) ht)

omit h in
/-- Operators hold nothing. -/
theorem operator_tallied {op? : Token → Option BinaryOp}
    (hop : ∀ t op, op? t = some op → c.ofToken t = []) {operand : Parser Expr}
    (h : c.Tallied c.ofExpr operand) :
    c.Tallied (fun x : BinaryOp × Expr => c.ofExpr x.2) (operatorAndOperand op? operand) := by
  intro ts t hts ht
  cases ts with
  | nil => cases ht
  | cons s ts =>
      rw [operator_cons] at ht
      cases hs : op? s with
      | none => rw [hs] at ht; cases ht
      | some op =>
          rw [hs] at ht
          obtain ⟨e, he, rfl⟩ := Option.map_eq_some_iff.mp ht
          have hpass : c.Passes (s :: ts) ts [] := .single (hop s op hs)
          exact hpass.trans (h ts e (hpass.good hts) he)

omit h in
/-- A chain whose operators hold nothing holds what its operands hold, from left to right: the
tree leans to the left, and the leaves of a left operand come first. -/
theorem chain_tallied {op? : Token → Option BinaryOp}
    (hop : ∀ t op, op? t = some op → c.ofToken t = []) {operand : Parser Expr}
    (h : c.Tallied c.ofExpr operand) : c.Tallied c.ofExpr (chain op? operand) := by
  have hfold : ∀ (more : List (BinaryOp × Expr)) (first : Expr),
      c.ofExpr (more.foldl (fun left x => .binary x.1 left x.2) first)
        = c.ofExpr first ++ more.flatMap fun x => c.ofExpr x.2 := by
    intro more
    induction more with
    | nil => intro first; exact (List.append_nil _).symm
    | cons x more ih =>
        intro first
        rw [List.foldl_cons, ih, List.flatMap_cons, ofExpr_binary, List.append_assoc]
  intro ts t hts ht
  unfold ExprParser.chain at ht
  cases hfirst : operand ts with
  | none => rw [hfirst] at ht; cases ht
  | some first =>
      rw [hfirst] at ht
      obtain rfl := Option.some.inj ht
      have hpass := h ts first hts hfirst
      exact (hpass.trans ((operator_tallied hop h).many (hpass.good hts))).cast (hfold _ _).symm

omit h in
/-- The signs of products are symbols. -/
theorem multiplicativeOp_holds {t : Token} {op : BinaryOp} (h : multiplicativeOp? t = some op) :
    c.ofToken t = [] := by
  unfold multiplicativeOp? at h
  split at h
  case h_4 => exact nomatch h
  all_goals exact c.symbol_nil (by assumption)

omit h in
/-- The signs of sums are symbols. -/
theorem additiveOp_holds {t : Token} {op : BinaryOp} (h : additiveOp? t = some op) :
    c.ofToken t = [] := by
  unfold additiveOp? at h
  split at h
  case h_4 => exact nomatch h
  all_goals exact c.symbol_nil (by assumption)

omit h in
/-- The signs of comparisons are symbols. -/
theorem comparisonOp_holds {t : Token} {op : BinaryOp} (h : comparisonOp? t = some op) :
    c.ofToken t = [] := by
  unfold comparisonOp? at h
  split at h
  case h_7 => exact nomatch h
  all_goals exact c.symbol_nil (by assumption)

omit h in
/-- AND and OR are keywords that open no list. -/
theorem keywordOp_holds {t : Token} {k : Keyword} {op op' : BinaryOp} (hk : k.opensList = false)
    (h : (if t.isKeyword k then some op else none) = some op') : c.ofToken t = [] := by
  split at h
  · rename_i hkind
    exact c.keyword_nil (beq_iff_eq.mp hkind) hk
  · exact nomatch h

/-- Sums hold what their operands hold. -/
theorem additive_tallied : c.Tallied c.ofExpr (additive nested) :=
  chain_tallied (fun _ _ => additiveOp_holds)
    (chain_tallied (fun _ _ => multiplicativeOp_holds) (signed_tallied h))

/-! ## Predicates -/

omit h in
/-- What is read behind a subject passes what its value holds besides the subject. -/
def TailTallied (c : Tally β) (e : Expr) (p : Parser Expr) : Prop :=
  ∀ ts t, c.Good ts → p ts = some t →
    ∃ ys, c.Passes ts t.rest ys ∧ c.ofExpr t.value = c.ofExpr e ++ ys

omit h in
/-- Tails may be alternatives. -/
theorem TailTallied.orElse {e : Expr} {p q : Parser Expr} (hp : TailTallied c e p)
    (hq : TailTallied c e q) : TailTallied c e (p.orElse q) := by
  intro ts t hts ht
  rcases orElse_cases ht with hread | ⟨-, hread⟩
  · exact hp ts t hts hread
  · exact hq ts t hts hread

omit h in
/-- IS NULL adds nothing to its subject. -/
theorem isNullTail_tallied (e : Expr) : TailTallied c e (isNullTail e) := by
  intro ts t _ ht
  obtain ⟨rest, his, ht⟩ := Option.bind_eq_some_iff.mp ht
  obtain ⟨after, hnull, ht⟩ := Option.bind_eq_some_iff.mp ht
  obtain rfl := Option.some.inj ht
  refine ⟨[], ((passes_keyword rfl his).trans ((passes_optKeyword .not rfl rest).trans
    (passes_keyword rfl hnull))), ?_⟩
  rw [ofExpr_isNull, List.append_nil]

/-- The items of a list come behind the subject. -/
theorem inTail_tallied (e : Expr) : TailTallied c e (inTail nested e) := by
  intro ts t hts ht
  obtain ⟨rest, hin, ht⟩ := Option.bind_eq_some_iff.mp ht
  obtain ⟨inside, hopen, ht⟩ := Option.bind_eq_some_iff.mp ht
  obtain ⟨items, hitems, ht⟩ := Option.bind_eq_some_iff.mp ht
  obtain ⟨after, hclose, ht⟩ := Option.bind_eq_some_iff.mp ht
  obtain rfl := Option.some.inj ht
  have hinside := (passes_optKeyword (c := c) .not rfl ts).trans
    ((passes_keyword rfl hin).trans (passes_symbol hopen))
  have hvalues := hinside.trans (h.commaList inside items (hinside.good hts) hitems)
  refine ⟨_, hvalues.trans (passes_symbol hclose), ?_⟩
  simp only [ofExpr_inList, List.nil_append, List.append_nil]

/-- The bounds come behind the subject, the lower one first. -/
theorem betweenTail_tallied (e : Expr) : TailTallied c e (betweenTail nested e) := by
  intro ts t hts ht
  obtain ⟨rest, hbetween, ht⟩ := Option.bind_eq_some_iff.mp ht
  obtain ⟨low, hlow, ht⟩ := Option.bind_eq_some_iff.mp ht
  obtain ⟨rest', hand, ht⟩ := Option.bind_eq_some_iff.mp ht
  obtain ⟨high, hhigh, ht⟩ := Option.bind_eq_some_iff.mp ht
  obtain rfl := Option.some.inj ht
  have hopen := (passes_optKeyword (c := c) .not rfl ts).trans (passes_keyword rfl hbetween)
  have hlows := hopen.trans (additive_tallied h rest low (hopen.good hts) hlow)
  have hands := hlows.trans (passes_keyword rfl hand)
  refine ⟨_, hands.trans (additive_tallied h rest' high (hands.good hts) hhigh), ?_⟩
  simp only [ofExpr_between, List.nil_append, List.append_nil]

/-- A pattern comes behind the subject. -/
theorem likeTail_tallied (e : Expr) : TailTallied c e (likeTail nested e) := by
  have hlike : ∀ (negated : Bool) (left right : Expr),
      c.ofExpr (if negated then .unary .not (.binary .like left right)
        else .binary .like left right) = c.ofExpr left ++ c.ofExpr right := by
    intro negated left right
    cases negated <;> simp only [Bool.false_eq_true, if_false, if_true, ofExpr_unary, ofExpr_binary]
  intro ts t hts ht
  obtain ⟨rest, hread, ht⟩ := Option.bind_eq_some_iff.mp ht
  obtain ⟨pattern, hpattern, ht⟩ := Option.bind_eq_some_iff.mp ht
  obtain rfl := Option.some.inj ht
  have hopen := (passes_optKeyword (c := c) .not rfl ts).trans (passes_keyword rfl hread)
  exact ⟨_, hopen.trans (additive_tallied h rest pattern (hopen.good hts) hpattern),
    hlike _ e pattern.value⟩

/-- The right side comes behind the subject. -/
theorem comparisonTail_tallied (e : Expr) : TailTallied c e (comparisonTail nested e) := by
  intro ts t hts ht
  obtain ⟨t', ht', rfl⟩ := Option.map_eq_some_iff.mp ht
  refine ⟨_, operator_tallied (fun _ _ => comparisonOp_holds) (additive_tallied h) ts t' hts ht', ?_⟩
  rw [ofExpr_binary]

/-- A predicate holds what its subject and its tail hold. -/
theorem predicate_tallied : c.Tallied c.ofExpr (predicate nested) := by
  intro ts t hts ht
  rw [predicate_eq] at ht
  obtain ⟨subject, hsubject, htail⟩ := Option.bind_eq_some_iff.mp ht
  have hpass := additive_tallied h ts subject hts hsubject
  cases hread : predicateTail nested subject.value subject.rest with
  | none =>
      rw [hread] at htail
      obtain rfl := Option.some.inj htail
      exact hpass
  | some t' =>
      rw [hread] at htail
      obtain rfl := Option.some.inj htail
      have htails : TailTallied c subject.value (predicateTail nested subject.value) :=
        (isNullTail_tallied _).orElse ((inTail_tallied h _).orElse
          ((betweenTail_tallied h _).orElse ((likeTail_tallied h _).orElse
            (comparisonTail_tallied h _))))
      obtain ⟨ys, hys, hvalue⟩ := htails _ _ (hpass.good hts) hread
      exact (hpass.trans hys).cast hvalue.symm

/-! ## Connectives -/

/-- Any number of NOTs adds nothing. -/
theorem negation_tallied : c.Tallied c.ofExpr (negation nested) := by
  intro ts
  induction ts with
  | nil => intro t hts ht; exact predicate_tallied h [] t hts ht
  | cons s ts ih =>
      intro t hts ht
      by_cases hnot : s.isKeyword .not = true
      · rw [negation_not hnot] at ht
        cases hread : negation nested ts with
        | none =>
            rw [hread] at ht
            exact predicate_tallied h (s :: ts) t hts ht
        | some e =>
            rw [hread] at ht
            obtain rfl := Option.some.inj ht
            have hpass : c.Passes (s :: ts) ts [] :=
              .single (c.keyword_nil (beq_iff_eq.mp hnot) rfl)
            refine (hpass.trans (ih e (hpass.good hts) hread)).cast ?_
            rw [List.nil_append, ofExpr_unary]
      · rw [negation_cons hnot] at ht
        exact predicate_tallied h (s :: ts) t hts ht

/-- The loosest level, and with it every level, keeps the leaves. This is the step of
`expr_tallied`. -/
theorem disjunction_tallied : c.Tallied c.ofExpr (disjunction nested) :=
  chain_tallied (fun _ _ => keywordOp_holds rfl)
    (chain_tallied (fun _ _ => keywordOp_holds rfl) (negation_tallied h))

end Nested

/-- Reading an expression loses and reorders nothing. -/
theorem expr_tallied (depth : Nat) : c.Tallied c.ofExpr (expr depth) := by
  induction depth with
  | zero => intro ts t _ h; exact nomatch h
  | succ depth ih => exact disjunction_tallied ih

end Tally

end QueryReplay.Sql
