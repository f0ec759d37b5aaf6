import QueryReplay.Proofs.Places

/-! # Depths — how deep an expression may nest

    The parser of expressions is given a depth, and what is nested in an
    expression is read with one less.  What is nested is also shorter, so a depth
    beyond the number of tokens is as good as any other (`expr_eq_fullExpr`).
    Without a depth the parser of expressions is the one that calls itself
    (`fullExpr_eq`): each parser does the same on a list if those below it do on
    the shorter ones (`SameUpTo`). -/

namespace QueryReplay.Sql

open QueryReplay.Sql.Parser QueryReplay.Sql.ExprParser

/-- Two parsers do the same on the lists up to a length. -/
def SameUpTo {α : Type} (M : Nat) (p p' : Parser α) : Prop :=
  ∀ ts : List Token, ts.length ≤ M → p ts = p' ts

/-- A keyword is one token. -/
theorem keyword_shorter {k : Keyword} {ts rest : List Token} (h : keyword k ts = some rest) :
    ts.length = rest.length + 1 := by
  obtain ⟨t, rfl, -⟩ := keyword_some h
  exact List.length_cons

/-- A symbol is one token. -/
theorem symbol_shorter {s : Symbol} {ts rest : List Token} (h : symbol s ts = some rest) :
    ts.length = rest.length + 1 := by
  obtain ⟨t, rfl, -⟩ := symbol_some h
  exact List.length_cons

/-- An optional keyword never adds tokens. -/
theorem optKeyword_le (k : Keyword) (ts : List Token) : (optKeyword k ts).2.length ≤ ts.length := by
  obtain ⟨used, hused, -⟩ := optKeyword_run k ts
  have hlength := congrArg List.length hused
  rw [List.length_append] at hlength
  omega

/-! ## Combinators -/

section Combinators

variable {α β : Type} {M : Nat} {p p' q q' : Parser α}

/-- Parsers that agree do so as alternatives, the first failing on both sides or on none. -/
theorem SameUpTo.orElse (hp : SameUpTo M p p') (hq : SameUpTo M q q') :
    SameUpTo M (p.orElse q) (p'.orElse q') := by
  intro ts hts
  rw [Parser.orElse, Parser.orElse, hp ts hts, hq ts hts]

/-- What is made of the value afterwards does not matter. -/
theorem SameUpTo.map (h : SameUpTo M p p') (f : α → β) : SameUpTo M (p.map f) (p'.map f) := by
  intro ts hts
  rw [Parser.map, Parser.map, h ts hts]

/-- What may be there or not is read alike. -/
theorem SameUpTo.optional (h : SameUpTo M p p') {ts : List Token} (hts : ts.length ≤ M) :
    ExprParser.optional p ts = ExprParser.optional p' ts := by
  rw [ExprParser.optional, ExprParser.optional, h ts hts]

variable (hshorter : ∀ ts t, p ts = some t → t.rest.length < ts.length)
include hshorter

/-- A repetition goes on behind what its part took, on a shorter list each time. The induction is
on its fuel, with what has been gathered so far left open. -/
theorem SameUpTo.manyUpTo (h : SameUpTo M p p') (fuel : Nat) (gone : List α) (o : Bool)
    (ts : List Token) (hts : ts.length ≤ M) :
    manyUpTo p fuel gone o ts = manyUpTo p' fuel gone o ts := by
  induction fuel generalizing gone o ts with
  | zero => rfl
  | succ fuel ih =>
      rw [Parser.manyUpTo, Parser.manyUpTo, ← h ts hts]
      cases hread : p ts with
      | none => rfl
      | some t => exact ih _ _ _ (Nat.le_trans (Nat.le_of_lt (hshorter ts t hread)) hts)

/-- The same with as much fuel as there are tokens. -/
theorem SameUpTo.many (h : SameUpTo M p p') {ts : List Token} (hts : ts.length ≤ M) :
    many p ts = many p' ts :=
  h.manyUpTo hshorter ts.length [] true ts hts

/-- Behind each comma the list is shorter, so a comma-separated list is read alike. -/
theorem SameUpTo.commaList (h : SameUpTo M p p') : SameUpTo M (commaList p) (commaList p') := by
  intro ts hts
  have hafter : SameUpTo M (afterComma p) (afterComma p') := by
    intro us hus
    unfold afterComma
    cases hcomma : symbol .comma us with
    | none => rfl
    | some rest =>
        have := symbol_shorter hcomma
        exact h rest (by omega)
  have hafterShorter : ∀ us t, afterComma p us = some t → t.rest.length < us.length := by
    intro us t ht
    unfold afterComma at ht
    cases hcomma : symbol .comma us with
    | none => rw [hcomma] at ht; exact nomatch ht
    | some rest =>
        rw [hcomma] at ht
        have := symbol_shorter hcomma
        have := hshorter rest t ht
        omega
  unfold Parser.commaList
  rw [← h ts hts]
  cases hread : p ts with
  | none => rfl
  | some first =>
      have := hshorter ts first hread
      dsimp only
      rw [hafter.many hafterShorter (by omega)]

end Combinators

/-! ## The parsers of expressions -/

/-- A call by its parts: the name, the parentheses and what stands between them. -/
theorem call_cons (nested : Parser Expr) (t : Token) (rest : List Token) :
    call nested (t :: rest) = t.functionName?.bind fun name =>
      (symbol .openParen rest).bind fun inside =>
        (symbol .closeParen (arguments nested inside).2).bind fun after =>
          some ⟨.call name (arguments nested inside).1.args (arguments nested inside).1.distinct
            (arguments nested inside).1.star (sourceOf false (tokensBefore (t :: rest) after)),
            after, false⟩ := rfl

section Nested

variable {M : Nat} {nested nested' : Parser Expr} (htakes : Takes nested)
  (h : SameUpTo M nested nested')
include h

/-- Behind a keyword there is one token less, so that agreement below is enough. -/
theorem afterKeyword_same (k : Keyword) :
    SameUpTo (M + 1) (afterKeyword k nested) (afterKeyword k nested') := by
  intro ts hts
  unfold afterKeyword
  cases hk : keyword k ts with
  | none => rfl
  | some rest =>
      have := keyword_shorter hk
      exact h rest (by omega)

/-- Parentheses nest: what is inside them is read one token further on. -/
theorem parenthesized_same : SameUpTo (M + 1) (parenthesized nested) (parenthesized nested') := by
  intro ts hts
  unfold parenthesized
  cases hopen : symbol .openParen ts with
  | none => rfl
  | some rest =>
      have := symbol_shorter hopen
      simp only [Option.bind_eq_bind, Option.bind_some, h rest (by omega)]

include htakes

/-- WHEN and THEN each go in front of what is nested. -/
theorem branch_same : SameUpTo (M + 1) (branch nested) (branch nested') := by
  intro ts hts
  unfold branch
  rw [← afterKeyword_same h .when ts hts]
  cases hread : afterKeyword .when nested ts with
  | none => rfl
  | some condition =>
      have := (afterKeyword_takes htakes .when).shorter ts condition hread
      simp only [Option.bind_eq_bind, Option.bind_some,
        afterKeyword_same h .then condition.rest (by omega)]

/-- The operand, the branches and ELSE all stand behind the CASE that opens them. -/
theorem case_same : SameUpTo (M + 1) (ExprParser.case nested) (ExprParser.case nested') := by
  intro ts hts
  unfold ExprParser.case
  cases hk : keyword .case ts with
  | none => rfl
  | some rest =>
      have := keyword_shorter hk
      have hoptional := h.optional (show rest.length ≤ M by omega)
      simp only [Option.bind_eq_bind, Option.bind_some, ← hoptional]
      obtain ⟨used, hused, -⟩ := optional_run htakes rest
      have hlength := congrArg List.length hused
      rw [List.length_append] at hlength
      rw [← branch_same htakes h _ (by omega)]
      cases hbranch : branch nested (ExprParser.optional nested rest).2 with
      | none => rfl
      | some first =>
          have := (branch_takes htakes).shorter _ first hbranch
          have hmany := (branch_same htakes h).many (branch_takes htakes).shorter
            (show first.rest.length ≤ M + 1 by omega)
          obtain ⟨more, hmore, -⟩ := branches_run htakes first.rest
          have hlength' := congrArg List.length hmore
          rw [List.length_append] at hlength'
          simp only [Option.bind_some, ← hmany]
          rw [(afterKeyword_same h .else).optional (by omega)]

/-- Arguments are read behind the parenthesis, where the parsers below agree already. -/
theorem arguments_same {ts : List Token} (hts : ts.length ≤ M) :
    arguments nested ts = arguments nested' ts := by
  unfold arguments
  cases hstar : symbol .star ts with
  | some rest => rfl
  | none =>
      have := optKeyword_le .distinct ts
      dsimp only
      rw [h.commaList htakes.shorter _ (by omega)]

/-- A call reads its arguments two tokens further on. -/
theorem call_same : SameUpTo (M + 1) (call nested) (call nested') := by
  intro ts hts
  cases ts with
  | nil => rfl
  | cons t rest =>
      rw [List.length_cons] at hts
      rw [call_cons, call_cons]
      refine congrArg _ (funext fun name => ?_)
      cases hopen : symbol .openParen rest with
      | none => rfl
      | some inside =>
          have := symbol_shorter hopen
          simp only [Option.bind_some, arguments_same htakes h (show inside.length ≤ M by omega)]

/-- Of the primaries only CASE, calls and parentheses nest anything. -/
theorem primary_same : SameUpTo (M + 1) (primary nested) (primary nested') :=
  SameUpTo.orElse (fun _ _ => rfl) ((case_same htakes h).orElse ((call_same htakes h).orElse
    (SameUpTo.orElse (fun _ _ => rfl) (parenthesized_same h))))

/-- A sign takes a token itself. -/
theorem signed_same : SameUpTo (M + 1) (signed nested) (signed nested') := by
  intro ts hts
  unfold signed
  cases hminus : symbol .minus ts with
  | none => exact primary_same htakes h ts hts
  | some rest =>
      have := symbol_shorter hminus
      exact (primary_same htakes h).map _ rest (by omega)

omit htakes h in
/-- An operator and its operand: the operand is read on a shorter list. -/
theorem operator_same {op? : Token → Option BinaryOp} {operand operand' : Parser Expr}
    (h : SameUpTo M operand operand') :
    SameUpTo M (operatorAndOperand op? operand) (operatorAndOperand op? operand') := by
  intro ts hts
  cases ts with
  | nil => rfl
  | cons t rest =>
      rw [List.length_cons] at hts
      rw [operator_cons, operator_cons]
      cases op? t with
      | none => rfl
      | some op => exact h.map _ rest (by omega)

omit htakes h in
/-- A chain of operators reads its operands on ever shorter lists. -/
theorem chain_same {op? : Token → Option BinaryOp} {operand operand' : Parser Expr}
    (htakes : Takes operand) (h : SameUpTo M operand operand') :
    SameUpTo M (chain op? operand) (chain op? operand') := by
  intro ts hts
  unfold ExprParser.chain
  rw [← h ts hts]
  cases hread : operand ts with
  | none => rfl
  | some first =>
      have := htakes.shorter ts first hread
      dsimp only
      rw [(operator_same h).many (operator_shorter htakes) (by omega)]

/-- Sums and products are chains over signed primaries. -/
theorem additive_same : SameUpTo (M + 1) (additive nested) (additive nested') :=
  chain_same (multiplicative_takes htakes)
    (chain_same (signed_takes htakes) (signed_same htakes h))

/-- The members of IN stand behind two more tokens. -/
theorem inTail_same (e : Expr) : SameUpTo (M + 1) (inTail nested e) (inTail nested' e) := by
  intro ts hts
  have hnot := optKeyword_le .not ts
  unfold inTail
  dsimp only
  cases hin : keyword .in (optKeyword .not ts).2 with
  | none => simp only [Option.bind_eq_bind, Option.bind_none]
  | some rest =>
      have := keyword_shorter hin
      simp only [Option.bind_eq_bind, Option.bind_some]
      cases hopen : symbol .openParen rest with
      | none => simp only [Option.bind_none]
      | some inside =>
          have := symbol_shorter hopen
          simp only [Option.bind_some, h.commaList htakes.shorter inside (by omega)]

/-- So do the bounds of BETWEEN behind its word and the AND. -/
theorem betweenTail_same (e : Expr) :
    SameUpTo (M + 1) (betweenTail nested e) (betweenTail nested' e) := by
  have hadditive := additive_same htakes h
  intro ts hts
  have hnot := optKeyword_le .not ts
  unfold betweenTail
  dsimp only
  cases hbetween : keyword .between (optKeyword .not ts).2 with
  | none => simp only [Option.bind_eq_bind, Option.bind_none]
  | some rest =>
      have := keyword_shorter hbetween
      simp only [Option.bind_eq_bind, Option.bind_some]
      rw [← hadditive rest (by omega)]
      cases hlow : additive nested rest with
      | none => simp only [Option.bind_none]
      | some low =>
          have := (additive_takes htakes).shorter rest low hlow
          simp only [Option.bind_some]
          cases hand : keyword .and low.rest with
          | none => simp only [Option.bind_none]
          | some behind =>
              have := keyword_shorter hand
              simp only [Option.bind_some, hadditive behind (by omega)]

/-- And the pattern behind LIKE. -/
theorem likeTail_same (e : Expr) : SameUpTo (M + 1) (likeTail nested e) (likeTail nested' e) := by
  have hadditive := additive_same htakes h
  intro ts hts
  have hnot := optKeyword_le .not ts
  unfold likeTail
  dsimp only
  cases hlike : keyword .like (optKeyword .not ts).2 with
  | none => simp only [Option.bind_eq_bind, Option.bind_none]
  | some rest =>
      have := keyword_shorter hlike
      simp only [Option.bind_eq_bind, Option.bind_some, hadditive rest (by omega)]

/-- The five ways to go on behind a subject.  IS NULL reads no operand, and a comparison is an
    operator with a sum behind it. -/
theorem predicateTail_same (e : Expr) :
    SameUpTo (M + 1) (predicateTail nested e) (predicateTail nested' e) :=
  SameUpTo.orElse (fun _ _ => rfl) ((inTail_same htakes h e).orElse
    ((betweenTail_same htakes h e).orElse ((likeTail_same htakes h e).orElse
      ((operator_same (additive_same htakes h)).map _))))

/-- A predicate is a sum with a tail, and the tail is read on what the sum left. -/
theorem predicate_same : SameUpTo (M + 1) (predicate nested) (predicate nested') := by
  intro ts hts
  rw [predicate_eq, predicate_eq, ← additive_same htakes h ts hts]
  cases hread : additive nested ts with
  | none => rw [Option.bind_none, Option.bind_none]
  | some subject =>
      have hshorter := (additive_takes htakes).shorter ts subject hread
      have htail := predicateTail_same htakes h subject.value subject.rest (by omega)
      rw [Option.bind_some, Option.bind_some, htail]

/-- NOT may be repeated: the induction is on the tokens, not on the depth. -/
theorem negation_same : SameUpTo (M + 1) (negation nested) (negation nested') := by
  intro ts
  induction ts with
  | nil => exact predicate_same htakes h []
  | cons t rest ih =>
      intro hts
      have hpredicate := predicate_same htakes h (t :: rest) hts
      rw [List.length_cons] at hts
      rw [negation, negation, ih (by omega), hpredicate]

/-- AND and OR are chains, so a whole level adds one to the length up to which two parsers agree.
This is the step of `expr_same`. -/
theorem disjunction_same : SameUpTo (M + 1) (disjunction nested) (disjunction nested') :=
  chain_same (Takes.chain (fun _ _ => kind_of_keywordOp) (negation_takes htakes))
    (chain_same (negation_takes htakes) (negation_same htakes h))

end Nested

/-! ## Without a depth -/

/-- Two depths beyond the number of tokens are as good as each other. -/
theorem expr_same {M depth depth' : Nat} (h : M < depth) (h' : M < depth') :
    SameUpTo M (expr depth) (expr depth') := by
  induction M generalizing depth depth' with
  | zero =>
      intro ts hts
      obtain rfl := List.eq_nil_of_length_eq_zero (Nat.le_zero.mp hts)
      have hnone : ∀ depth, expr depth [] = none := by
        intro depth
        cases hread : expr depth [] with
        | none => rfl
        | some t => exact absurd ((expr_takes depth).shorter [] t hread) (Nat.not_lt_zero _)
      rw [hnone, hnone]
  | succ M ih =>
      obtain ⟨depth, rfl⟩ := Nat.exists_eq_add_one_of_ne_zero (Nat.ne_zero_of_lt h)
      obtain ⟨depth', rfl⟩ := Nat.exists_eq_add_one_of_ne_zero (Nat.ne_zero_of_lt h')
      exact disjunction_same (expr_takes depth)
        (ih (Nat.lt_of_succ_lt_succ h) (Nat.lt_of_succ_lt_succ h'))

/-- The parser of expressions that nest as deep as they want. -/
def fullExpr : Parser Expr := fun ts => expr (ts.length + 1) ts

/-- A depth beyond the number of tokens is as good as none. -/
theorem expr_eq_fullExpr {depth : Nat} {ts : List Token} (h : ts.length < depth) :
    expr depth ts = fullExpr ts :=
  expr_same h (Nat.lt_succ_self _) ts (Nat.le_refl _)

/-- What it takes is a phrase, as at any depth. -/
theorem fullExpr_takes : Takes fullExpr := fun ts => expr_takes (ts.length + 1) ts

/-- What is nested in an expression is an expression. -/
theorem fullExpr_eq (ts : List Token) : fullExpr ts = disjunction fullExpr ts := by
  have hsame : SameUpTo ts.length (expr (ts.length + 1)) fullExpr :=
    fun us hus => expr_eq_fullExpr (Nat.lt_succ_of_le hus)
  rw [← expr_eq_fullExpr (show ts.length < ts.length + 2 by omega)]
  exact disjunction_same (expr_takes _) hsame ts (Nat.le_succ _)

end QueryReplay.Sql
