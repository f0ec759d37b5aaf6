import QueryReplay.Proofs.Remainders

/-! # Carrying — the same expression in front of something else

    An expression that is read up to `R` is read up to `R'` in its place, also
    where `R` and `R'` go on with a CASE around it (`Carries`).  The parsers look
    beyond an expression at one place only: a call of a function named CASE may
    be the beginning of a CASE whose branches stand behind the expression.  So it
    is asked that there are none behind `R'` unless there are behind `R`, or that
    no function is called CASE (`Detached`).  If there are branches only behind
    `R'` the expression runs into them, and where it stops then nothing more of
    the CASE around it can be read (`Lost`). -/

namespace QueryReplay.Sql

open QueryReplay.Sql.Parser QueryReplay.Sql.ExprParser

/-! ## What is behind an operand of CASE -/

/-- ELSE with an expression if it is there, and END. -/
def closing (nested : Parser Expr) : Parser (Option Expr) := fun ts =>
  (keyword .end (ExprParser.optional (afterKeyword .else nested) ts).2).bind fun after =>
    some ⟨(ExprParser.optional (afterKeyword .else nested) ts).1, after, false⟩

/-- The branches of CASE, ELSE and END. -/
def caseTail (nested : Parser Expr) : Parser (List (Expr × Expr) × Option Expr) := fun ts =>
  (branch nested ts).bind fun first =>
    (closing nested (many (branch nested) first.rest).rest).bind fun last =>
      some ⟨(first.value :: (many (branch nested) first.rest).value, last.value), last.rest, false⟩

/-- CASE by its operand and its tail. -/
theorem case_eq (nested : Parser Expr) (ts : List Token) : ExprParser.case nested ts
    = (keyword .case ts).bind fun rest =>
      (caseTail nested (ExprParser.optional nested rest).2).bind fun u =>
        some ⟨.case (ExprParser.optional nested rest).1 u.value.1 u.value.2, u.rest, false⟩ := by
  unfold ExprParser.case caseTail closing
  simp only [Option.bind_eq_bind, Option.bind_assoc, Option.bind_some, Option.pure_def]

/-- Without WHEN there is no branch. -/
theorem branch_other {nested : Parser Expr} {ts : List Token} (h : keyword .when ts = none) :
    branch nested ts = none := by
  unfold branch afterKeyword
  rw [h]
  rfl

/-- Without WHEN there is no tail either. -/
theorem caseTail_other {nested : Parser Expr} {ts : List Token} (h : keyword .when ts = none) :
    caseTail nested ts = none := by
  rw [caseTail, branch_other h, Option.bind_none]

/-! ## The statement -/

/-- Nothing goes on here at the place or more tightly, and nothing is opened. -/
structure Calm (place : Nat) (ts : List Token) : Prop where
  halts : Halts place ts
  unopened : symbol .openParen ts = none

/-- In front of `R` no CASE stands in front of an opening parenthesis. -/
def CaseFree (R ts : List Token) : Prop :=
  ∀ t o rest, t :: o :: rest <:+ ts → R.length ≤ rest.length → t.kind = .keyword .case →
    o.kind ≠ .symbol .openParen

/-- There are no branches here, or if `S` there are but nothing behind them. -/
def Branchless (S : Prop) (ts : List Token) : Prop :=
  caseTail fullExpr ts = none ∨ S ∧ ∃ v o, caseTail fullExpr ts = some ⟨v, [], o⟩

/-- What stands behind an expression of the place cannot become part of it. -/
def Detached (S : Prop) (place : Nat) (R R' ts : List Token) : Prop :=
  CaseFree R ts ∨ (caseTail fullExpr (haltOf fullExpr place R) = none →
    Branchless S (haltOf fullExpr place R'))

/-- Where an expression stops that has run into branches. -/
def Lost (place : Nat) (ts : List Token) : Prop :=
  ts = [] ∨ place ≤ 3 ∧ ∃ t rest, ts = t :: rest
    ∧ (t.kind = .keyword .not ∨ t.kind = .keyword .between)

/-- The value is read up to `R'`, or if `S` something is read and its end is lost. -/
def Carried {α : Type} (S : Prop) (place : Nat) (R' : List Token) (v : α) (r : Option (Taken α)) :
    Prop :=
  (∃ o, r = some ⟨v, R', o⟩) ∨ S ∧ ∃ w ts o, r = some ⟨w, ts, o⟩ ∧ Lost place ts

/-- Expressions of the place and of a size are carried over. -/
def Carries (S : Prop) (place m : Nat) : Prop :=
  ∀ {R R' ts ts' : List Token} {v : Expr} {o : Bool}, Twin R R' 0 m ts ts' → Calm place R →
    Calm place R' → Detached S place R R' ts → parserAt fullExpr place ts = some ⟨v, R, o⟩ →
    Carried S place R' v (parserAt fullExpr place ts')

section Statement

variable {S : Prop} {place place' : Nat} {R R' ts ts' us : List Token}

theorem calm_nil : Calm place [] := ⟨halts_nil, rfl⟩

/-- What is calm at a place is so at all tighter ones. -/
theorem Calm.mono (h : Calm place ts) (hle : place ≤ place') : Calm place' ts :=
  ⟨h.halts.mono hle, h.unopened⟩

/-- Nothing goes on at a token that binds more loosely and opens no parenthesis. -/
theorem calm_cons {t : Token} (h : ∀ n ∈ t.kind.binding?, n < place)
    (ht : t.kind ≠ .symbol .openParen) (rest : List Token) : Calm place (t :: rest) :=
  ⟨halts_cons h, symbol_other ht rest⟩

/-- A word that goes on with nothing. -/
theorem calm_keyword {t : Token} {k : Keyword} (ht : t.kind = .keyword k)
    (hk : (TokenKind.keyword k).binding? = none) (rest : List Token) : Calm place (t :: rest) := by
  refine calm_cons (fun n hn => ?_) (by rw [ht]; exact nofun) rest
  rw [ht, hk] at hn
  exact nomatch hn

/-- Tighter than comparisons nothing is lost but at the end of the tokens. -/
theorem Lost.nil (h : Lost place ts) (hplace : 3 < place) : ts = [] :=
  h.resolve_right fun h => absurd h.1 (Nat.not_le.mpr hplace)

/-- What is lost at a place is lost at every looser one. -/
theorem Lost.mono (h : Lost place ts) (hle : place' ≤ place) : Lost place' ts :=
  h.imp id fun h => ⟨Nat.le_trans hle h.1, h.2⟩

/-- No branch of CASE, no ELSE and no END stands where an expression is lost. -/
theorem Lost.keyword (h : Lost place ts) {k : Keyword} (hk : k ≠ .not ∧ k ≠ .between) :
    Parser.keyword k ts = none := by
  rcases h with rfl | ⟨-, t, rest, rfl, ht⟩
  · rfl
  · refine keyword_other (fun h => ?_) rest
    rcases ht with ht | ht
    · exact hk.1 (TokenKind.keyword.inj (h.symm.trans ht))
    · exact hk.2 (TokenKind.keyword.inj (h.symm.trans ht))

/-- What binds no less tightly than a sum does not follow, and neither do AND and OR. -/
theorem Lost.halts (h : Lost place ts) (hplace : place ≠ 3) {op? : Token → Option BinaryOp}
    (hop : operatorAt place = some op?) (operand : Parser Expr) :
    operatorAndOperand op? operand ts = none := by
  rcases h with rfl | ⟨-, t, rest, rfl, ht⟩
  · rfl
  · cases hread : op? t with
    | none =>
        rw [operator_cons, hread]
        rfl
    | some op =>
        have hbinding := operatorAt_binding hop hread
        rcases ht with ht | ht
        all_goals
          rw [ht] at hbinding
          exact absurd (Option.some.inj hbinding).symm hplace

/-- What is free of CASE stays so further on. -/
theorem CaseFree.sub (h : CaseFree R ts) (hts : us <:+ ts) {Q : List Token}
    (hQ : R.length ≤ Q.length) : CaseFree Q us :=
  fun t o rest hrest hlength => h t o rest (hrest.trans hts) (Nat.le_trans hQ hlength)

/-- What is detached stays so further on, as long as it halts at the same places. -/
theorem Detached.sub (h : Detached S place R R' ts) (hts : us <:+ ts) {Q Q' : List Token}
    (hQ : R.length ≤ Q.length) (hto : haltOf fullExpr place' Q = haltOf fullExpr place R)
    (hto' : haltOf fullExpr place' Q' = haltOf fullExpr place R'
      ∨ Branchless S (haltOf fullExpr place' Q')) : Detached S place' Q Q' us := by
  rcases h with hfree | hbranches
  · exact .inl (hfree.sub hts hQ)
  · refine .inr fun hnone => ?_
    rcases hto' with hto' | hto'
    · rw [hto']
      exact hbranches (hto ▸ hnone)
    · exact hto'

/-- Where an expression is lost nothing goes on. -/
theorem Lost.haltOf (h : Lost place ts) : haltOf fullExpr place ts = ts := by
  rcases h with rfl | ⟨hplace, hhead⟩
  · exact haltOf_halts halts_nil
  · have hgoOn : ∀ k < 3, goOn fullExpr k ts = ts := by
      intro k hk
      have hlost : Lost k ts := .inr ⟨Nat.le_of_lt hk, hhead⟩
      cases hop : operatorAt k with
      | some op? => rw [goOn_operator hop, many_none (hlost.halts (Nat.ne_of_lt hk) hop _)]
      | none =>
          rw [goOn, hop]
          exact if_neg (Nat.ne_of_lt hk)
    clear hhead
    induction place with
    | zero => rfl
    | succ k ih => rw [Sql.haltOf, hgoOn k hplace, ih (by omega)]

/-- There are no branches there either. -/
theorem Lost.branchless (h : Lost place ts) : Branchless S (Sql.haltOf fullExpr place ts) := by
  rw [h.haltOf]
  exact .inl (caseTail_other (h.keyword (by decide)))

/-- What is carried was taken: with the same value up to the same place, or lost. -/
theorem Carried.taken {α : Type} {v : α} {r : Option (Taken α)} (h : Carried S place ts v r) :
    ∃ w rest o, r = some ⟨w, rest, o⟩ ∧ (w = v ∧ rest = ts ∨ S ∧ Lost place rest) := by
  rcases h with ⟨o, h⟩ | ⟨hS, w, rest, o, h, hlost⟩
  · exact ⟨v, ts, o, h, .inl ⟨rfl, rfl⟩⟩
  · exact ⟨w, rest, o, h, .inr ⟨hS, hlost⟩⟩

/-- Of two parsers the first one reads on both or on neither. -/
theorem Carried.orElse {α : Type} {p p' q q' : Parser α} {j : Nat} {v : α} {o : Bool}
    (hp : Together (Alike R R' id 0 j) (p ts) (p' ts'))
    (hq : q ts = some ⟨v, R, o⟩ → Carried S place R' v (q' ts'))
    (h : (p.orElse q) ts = some ⟨v, R, o⟩) : Carried S place R' v ((p'.orElse q') ts') := by
  unfold Parser.orElse at h ⊢
  cases hread : p ts with
  | none =>
      rw [hread] at h hp
      rw [hp.of_none]
      exact hq h
  | some t =>
      rw [hread] at h hp
      obtain rfl := Option.some.inj h
      obtain ⟨⟨w, rest, o'⟩, hread', hvalue, i, -, -, hrest⟩ := hp.of_some
      obtain rfl : v = w := hvalue
      obtain ⟨-, rfl⟩ := hrest.reached
      rw [hread']
      exact .inl ⟨o', rfl⟩

/-- What is carried at a place is so at all looser ones. -/
theorem Carried.mono {α : Type} {v : α} {r : Option (Taken α)} (h : Carried S place ts v r)
    (hle : place' ≤ place) : Carried S place' ts v r := by
  rcases h with h | ⟨hS, w, rest, o, h, hlost⟩
  · exact .inl h
  · exact .inr ⟨hS, w, rest, o, h, hlost.mono hle⟩

/-- What is made of the value is carried over with it. -/
theorem Carried.made {α β : Type} {v : α} {r : Option (Taken α)} {r' : Option (Taken β)}
    (h : Carried S place ts v r) (hle : place' ≤ place) (f : α → β)
    (hmade : ∀ w rest o, r = some ⟨w, rest, o⟩ → ∃ o', r' = some ⟨f w, rest, o'⟩) :
    Carried S place' ts (f v) r' := by
  obtain ⟨w, rest, o, hread, ⟨rfl, rfl⟩ | ⟨hS, hlost⟩⟩ := h.taken
  · exact .inl (hmade w rest o hread)
  · obtain ⟨o', hread'⟩ := hmade w rest o hread
    exact .inr ⟨hS, f w, rest, o', hread', hlost.mono hle⟩

/-- Something was taken of twins. -/
theorem Twin.pos_of_taken {α : Type} {p : Parser α} (htakes : Takes p) {m : Nat}
    (h : Twin R R' 0 m ts ts') {u : Taken α} (hu : p ts = some u) (hrest : R.length ≤ u.rest.length) :
    0 < m := by
  have hsize := h.length.1
  have hshorter := htakes.shorter ts u hu
  omega

end Statement

theorem keyword_suffix {k : Keyword} {ts rest : List Token} (h : keyword k ts = some rest) :
    rest <:+ ts := by
  obtain ⟨t, rfl, -⟩ := keyword_some h
  exact List.suffix_cons t rest

theorem optKeyword_suffix (k : Keyword) (ts : List Token) : (optKeyword k ts).2 <:+ ts := by
  obtain ⟨used, hused, -⟩ := optKeyword_run k ts
  exact ⟨used, hused.symm⟩

/-- A halt is no other where the place itself does not go on. -/
theorem haltOf_next {nested : Parser Expr} {place : Nat} {ts : List Token} (h : Halts place ts) :
    haltOf nested (place + 1) ts = haltOf nested place ts := by
  rw [haltOf, goOn_halts h]

/-- Behind AND an expression comes to a halt where it does behind the sum there. -/
theorem haltOf_and {t : Token} {ts rest : List Token} (ht : t.kind = .keyword .and)
    (h : remainder (additive fullExpr) ts = some rest) (hrest : Halts 3 rest) :
    haltOf fullExpr 4 (t :: ts) = haltOf fullExpr 3 rest := by
  have hhalts : Halts 3 (t :: ts) := halts_cons fun n hn => by
    rw [ht] at hn
    obtain rfl := Option.some.inj hn
    decide
  obtain ⟨w, o, hread⟩ := remainder_some (negation_of_additive fullExpr_takes h hrest)
  have hand : andOp? t = some .and := if_pos (beq_iff_eq.mpr ht)
  have hgoOn : goOn fullExpr 1 (t :: ts) = goOn fullExpr 1 rest :=
    many_next (operator_shorter (negation_takes fullExpr_takes)) (operator_read hand hread)
  rw [haltOf_next hhalts]
  show haltOf fullExpr 1 (goOn fullExpr 1 (t :: ts)) = haltOf fullExpr 1 (goOn fullExpr 1 rest)
  rw [hgoOn]

/-! ## Operators -/

/-- An operator that was read is one token, with its operand behind it. -/
theorem operator_some {op? : Token → Option BinaryOp} {operand : Parser Expr} {ts : List Token}
    {u : Taken (BinaryOp × Expr)} (h : operatorAndOperand op? operand ts = some u) :
    ∃ t rest, ts = t :: rest ∧ op? t = some u.value.1
      ∧ operand rest = some ⟨u.value.2, u.rest, u.open?⟩ := by
  cases ts with
  | nil => cases h
  | cons t rest =>
      rw [operator_cons] at h
      cases hop : op? t with
      | none => rw [hop] at h; cases h
      | some op =>
          rw [hop] at h
          obtain ⟨e, he, rfl⟩ := Option.map_eq_some_iff.mp h
          exact ⟨t, rest, rfl, hop, he⟩

/-- What goes on with an expression is no parenthesis and ends no phrase. -/
theorem Token.of_binding {t : Token} {n : Nat} (h : t.kind.binding? = some n) :
    t.kind ≠ .symbol .openParen ∧ t.kind ≠ .symbol .closeParen ∧ t.endsPhrase = false := by
  unfold TokenKind.binding? at h
  unfold endsPhrase
  split at h
  case h_21 => exact nomatch h
  all_goals
    rename_i hk
    rw [hk]
    exact ⟨by decide, by decide, rfl⟩

theorem calm_of_binding {t : Token} {i place : Nat} (ht : t.kind.binding? = some i)
    (hi : i < place) (rest : List Token) : Calm place (t :: rest) :=
  calm_cons (fun _ hn => Option.some.inj (ht.symm.trans hn) ▸ hi) (Token.of_binding ht).1 rest

/-- What a parser leaves of twins, and the twins it has taken. -/
theorem Twin.taken {α : Type} {p : Parser α} (htakes : Takes p) {R R' ts ts' : List Token} {m : Nat}
    {u : Taken α} (h : Twin R R' 0 m ts ts') (hu : p ts = some u)
    (hlength : R.length ≤ u.rest.length) :
    ∃ rest' i j, i + j = m ∧ 0 < i ∧ Twin R R' 0 j u.rest rest' ∧ Twin u.rest rest' 0 i ts ts'
      ∧ u.rest <:+ ts := by
  obtain ⟨used, rfl, hphrase⟩ := htakes ts u hu
  have hsize := h.length.1
  rw [List.length_append] at hsize
  obtain ⟨rest', hrest, hused⟩ := h.phrase hphrase (by omega)
  obtain ⟨front, t, hfront, -⟩ := hphrase.ends
  have hpos : 0 < used.length := by rw [hfront, List.length_append]; exact Nat.succ_pos _
  exact ⟨rest', used.length, m - used.length, by omega, hpos, hrest, hused,
    List.suffix_append used u.rest⟩

/-- A chain is an operand and what goes on with it. -/
theorem chain_some {op? : Token → Option BinaryOp} {operand : Parser Expr} (htakes : Takes operand)
    {ts : List Token} {u : Taken Expr} (h : chain op? operand ts = some u) :
    ∃ first vs, operand ts = some first ∧ u.value = fromLeft first.value vs
      ∧ Repeats (operatorAndOperand op? operand) u.rest first.rest vs := by
  unfold ExprParser.chain at h
  cases hfirst : operand ts with
  | none => rw [hfirst] at h; exact nomatch h
  | some first =>
      rw [hfirst] at h
      obtain rfl := Option.some.inj h
      exact ⟨first, _, rfl, rfl, repeats_many (operator_shorter htakes) first.rest⟩

/-- A chain folds the operands that were read behind the first one. -/
theorem chain_of_repeats {op? : Token → Option BinaryOp} {operand : Parser Expr}
    (htakes : Takes operand) {ts us rest : List Token} {w : Expr} {o : Bool}
    {vs : List (BinaryOp × Expr)} (hfirst : operand ts = some ⟨w, us, o⟩)
    (h : Repeats (operatorAndOperand op? operand) rest us vs) :
    ∃ o', chain op? operand ts = some ⟨fromLeft w vs, rest, o'⟩ := by
  obtain ⟨o', hmany⟩ := many_of_repeats (operator_shorter htakes) h
  refine ⟨o', ?_⟩
  unfold ExprParser.chain
  rw [hfirst]
  dsimp only
  rw [hmany]
  rfl

section Chains

variable {S : Prop} {place m : Nat} {op? : Token → Option BinaryOp}
  (hop : operatorAt place = some op?) {R R' us us' : List Token}
include hop

/-- Operators and operands of a place are calm at the next tighter one. -/
theorem Repeats.calm {vs : List (BinaryOp × Expr)} {Q : List Token}
    (h : Repeats (operatorAndOperand op? (parserAt fullExpr (place + 1))) Q us vs)
    (hQ : vs = [] → Calm (place + 1) Q) : Calm (place + 1) us := by
  cases h with
  | done _ => exact hQ rfl
  | next h _ =>
      obtain ⟨t, rest, rfl, ht, -⟩ := operator_some h
      exact calm_of_binding (operatorAt_binding hop ht) (Nat.lt_succ_self _) rest

/-- Where the last operand ends the chain ends. -/
theorem Repeats.haltOf {vs : List (BinaryOp × Expr)} {Q : List Token}
    (h : Repeats (operatorAndOperand op? (parserAt fullExpr (place + 1))) Q us vs) :
    haltOf fullExpr (place + 1) us = haltOf fullExpr place Q := by
  obtain ⟨_, hmany⟩ :=
    many_of_repeats (operator_shorter (parserAt_takes fullExpr_takes (place + 1))) h
  rw [Sql.haltOf, goOn_operator hop, hmany]

/-- An operand is carried over if it is known where what goes on with it stops. -/
theorem Repeats.operand {i : Nat} (hoperand : Carries S (place + 1) i) (hR : Calm place R)
    (hR' : Calm place R') {vs vs' : List (BinaryOp × Expr)} {Q ts ts' : List Token}
    (hmore : Repeats (operatorAndOperand op? (parserAt fullExpr (place + 1))) R us vs)
    (hbehind : Repeats (operatorAndOperand op? (parserAt fullExpr (place + 1))) Q us' vs')
    (hQ : Q = R' ∧ vs' = vs ∨ (S ∧ Lost place Q) ∧ vs' ≠ []) (htwin : Twin us us' 0 i ts ts')
    (hdetached : Detached S place R R' ts) {v : Expr} {o : Bool}
    (h : parserAt fullExpr (place + 1) ts = some ⟨v, us, o⟩) :
    Carried S (place + 1) us' v (parserAt fullExpr (place + 1) ts') := by
  have htakes := parserAt_takes fullExpr_takes (place + 1)
  have hlength := hmore.length_le (operator_shorter htakes)
  have hcalm : vs' = [] → Calm (place + 1) Q := by
    intro hnil
    rcases hQ with ⟨rfl, -⟩ | ⟨-, hne⟩
    · exact hR'.mono (Nat.le_succ place)
    · exact absurd hnil hne
  have hbranches : Sql.haltOf fullExpr (place + 1) us' = Sql.haltOf fullExpr place R'
      ∨ Branchless S (Sql.haltOf fullExpr (place + 1) us') := by
    rw [hbehind.haltOf hop]
    rcases hQ with ⟨rfl, -⟩ | ⟨⟨-, hlost⟩, -⟩
    · exact .inl rfl
    · exact .inr hlost.branchless
  exact hoperand htwin (hmore.calm hop fun _ => hR.mono (Nat.le_succ place))
    (hbehind.calm hop hcalm)
    (hdetached.sub (List.suffix_refl ts) hlength (hmore.haltOf hop) hbranches) h

/-- Operators and operands go on up to `R'`, or their end is lost. -/
theorem Repeats.carried {j : Nat} (hoperand : ∀ j ≤ m, Carries S (place + 1) j) (hj : j ≤ m)
    {vs : List (BinaryOp × Expr)} (hR : Calm place R) (hR' : Calm place R')
    (h : Repeats (operatorAndOperand op? (parserAt fullExpr (place + 1))) R us vs)
    (htwin : Twin R R' 0 j us us') (hdetached : Detached S place R R' us) :
    ∃ Q vs', Repeats (operatorAndOperand op? (parserAt fullExpr (place + 1))) Q us' vs'
      ∧ (Q = R' ∧ vs' = vs ∨ (S ∧ Lost place Q) ∧ vs' ≠ []) := by
  have htakes := parserAt_takes fullExpr_takes (place + 1)
  have hplace : place ≠ 3 := by rintro rfl; exact nomatch hop
  induction h generalizing j us' with
  | done _ =>
      have hnone := hR'.halts.operator (fun _ _ => operatorAt_binding hop)
        (parserAt fullExpr (place + 1))
      rw [htwin.reached.2]
      exact ⟨R', [], .done hnone, .inl ⟨rfl, rfl⟩⟩
  | @next us more v vs o hread hmore ih =>
      obtain ⟨t, rest, rfl, ht, hvalue⟩ := operator_some hread
      obtain ⟨hopen, hclose, hends⟩ := Token.of_binding (operatorAt_binding hop ht)
      have hlength := hmore.length_le (operator_shorter htakes)
      have hrestLength : more.length < rest.length := htakes.shorter _ _ hvalue
      have hsize := htwin.length.1
      rw [List.length_cons] at hsize
      obtain ⟨j, t', rest', n', rfl, rfl, -, -, hlevel, hrest, hpos, hsame⟩ :=
        htwin.tail (by omega)
      obtain rfl := hsame (hpos hends)
      obtain rfl := Option.some.inj (hlevel.symm.trans (Token.level_other hopen hclose 0))
      obtain ⟨more', i, l, hsum, -, hmoreTwin, hrestTwin, hsuffix⟩ :=
        hrest.taken htakes hvalue hlength
      -- from the right, so that it is known where the operators behind an operand stop
      obtain ⟨Q, vs', hbehind, hQ⟩ := ih (by omega) hmoreTwin
        (hdetached.sub (hsuffix.trans (List.suffix_cons t' rest)) (Nat.le_refl _) rfl (.inl rfl))
      have hcarried := hmore.operand hop (hoperand i (by omega)) hR hR' hbehind hQ hrestTwin
        (hdetached.sub (List.suffix_cons t' rest) (Nat.le_refl _) rfl (.inl rfl)) hvalue
      obtain ⟨w, left, o', hw, ⟨rfl, rfl⟩ | ⟨hS, hlost⟩⟩ := hcarried.taken
      · refine ⟨Q, (v.1, v.2) :: vs', .next (operator_read ht hw) hbehind, ?_⟩
        rcases hQ with ⟨hQ, rfl⟩ | hQ
        · exact .inl ⟨hQ, rfl⟩
        · exact .inr ⟨hQ.1, List.cons_ne_nil _ _⟩
      · have hlost := hlost.mono (Nat.le_succ place)
        exact ⟨left, [(v.1, w)], .next (operator_read ht hw) (.done (hlost.halts hplace hop _)),
          .inr ⟨⟨hS, hlost⟩, List.cons_ne_nil _ _⟩⟩

/-- A chain is carried over if its operands are. -/
theorem carries_chain (hoperand : ∀ j ≤ m, Carries S (place + 1) j) : Carries S place m := by
  intro R R' ts ts' v o htwin hR hR' hdetached h
  have htakes := parserAt_takes fullExpr_takes (place + 1)
  have hplace : place ≠ 3 := by rintro rfl; exact nomatch hop
  rw [parserAt_chain hop] at h ⊢
  obtain ⟨first, vs, hfirst, rfl, hmore⟩ := chain_some htakes h
  obtain ⟨rest', i, j, hsum, -, hmoreTwin, hfirstTwin, hsuffix⟩ :=
    htwin.taken htakes hfirst (hmore.length_le (operator_shorter htakes))
  obtain ⟨Q, vs', hbehind, hQ⟩ := hmore.carried hop hoperand (by omega) hR hR' hmoreTwin
    (hdetached.sub hsuffix (Nat.le_refl _) rfl (.inl rfl))
  have hcarried := hmore.operand hop (hoperand i (by omega)) hR hR' hbehind hQ hfirstTwin
    hdetached hfirst
  obtain ⟨w, left, o', hw, ⟨rfl, rfl⟩ | ⟨hS, hlost⟩⟩ := hcarried.taken
  · obtain ⟨o'', hchain⟩ := chain_of_repeats htakes hw hbehind
    rcases hQ with ⟨rfl, rfl⟩ | ⟨⟨hS, hlost⟩, -⟩
    · exact .inl ⟨o'', hchain⟩
    · exact .inr ⟨hS, _, _, o'', hchain, hlost⟩
  · have hlost := hlost.mono (Nat.le_succ place)
    obtain ⟨o'', hchain⟩ := chain_of_repeats htakes hw (.done (hlost.halts hplace hop _))
    exact .inr ⟨hS, _, _, o'', hchain, hlost⟩

end Chains

/-! ## Signs -/

/-- A sign carries what the primary behind it does. -/
theorem carries_signed {S : Prop} {m : Nat} (hprimary : ∀ j ≤ m, Carries S 7 j) :
    Carries S 6 m := by
  intro R R' ts ts' v o htwin hR hR' hdetached h
  have hpos := htwin.pos_of_taken (signed_takes fullExpr_takes) h (Nat.le_refl _)
  have hsign := symbol_twins htwin (fun hz => absurd hpos (by omega))
    (show Symbol.minus ≠ .openParen by decide) (by decide)
  -- a sign stands in both or in neither, as it is no part of the rests
  have hread : ∀ us, parserAt fullExpr 6 us = (symbol .minus us).elim (primary fullExpr us)
      ((primary fullExpr).map (.unary .neg)) := by
    intro us
    show signed fullExpr us = _
    unfold signed
    cases symbol .minus us <;> rfl
  have hcalm : ∀ {us}, Calm 6 us → Calm 7 us := fun h => h.mono (by decide)
  rw [hread] at h ⊢
  cases hminus : symbol .minus ts with
  | none =>
      rw [hminus] at h hsign
      rw [hsign.of_none]
      exact (hprimary m (Nat.le_refl m) htwin (hcalm hR) (hcalm hR')
        (hdetached.sub (List.suffix_refl ts) (Nat.le_refl _) rfl (.inl rfl)) h).mono (by decide)
  | some rest =>
      rw [hminus] at h hsign
      obtain ⟨rest', hminus', j, hj, -, hrest⟩ := hsign.of_some
      rw [hminus']
      obtain ⟨t, rfl, -⟩ := symbol_some hminus
      obtain ⟨u, hu, heq⟩ := Option.map_eq_some_iff.mp h
      obtain ⟨rfl, rfl, rfl⟩ := Taken.mk.inj heq
      have hcarried := hprimary j (Nat.le_of_lt hj) hrest (hcalm hR) (hcalm hR')
        (hdetached.sub (List.suffix_cons t rest) (Nat.le_refl _) rfl (.inl rfl)) hu
      refine hcarried.made (by decide) (Expr.unary .neg) fun w left o hw => ⟨o, ?_⟩
      rw [Option.elim_some, Parser.map, show primary fullExpr rest' = _ from hw]
      rfl

/-! ## Tests by their words -/

section Words

variable (nested : Parser Expr) (e : Expr) (us : List Token)

theorem isNullTail_eq : isNullTail e us = (keyword .is us).bind fun rest =>
    (keyword .null (optKeyword .not rest).2).bind fun after =>
      some ⟨.isNull e (optKeyword .not rest).1, after, false⟩ := rfl

theorem inTail_eq : inTail nested e us = (keyword .in (optKeyword .not us).2).bind fun rest =>
    (inParens (commaList nested) rest).bind fun list =>
      some ⟨.inList e list.value (optKeyword .not us).1, list.rest, false⟩ := by
  unfold inTail inParens
  simp only [Option.bind_eq_bind, Option.bind_assoc, Option.bind_some, Option.pure_def]

theorem betweenTail_eq : betweenTail nested e us
    = (keyword .between (optKeyword .not us).2).bind fun rest =>
      (additive nested rest).bind fun low => (keyword .and low.rest).bind fun behind =>
        (additive nested behind).bind fun high =>
          some ⟨.between e low.value high.value (optKeyword .not us).1, high.rest, high.open?⟩ := rfl

/-- LIKE or its negation. -/
def likeOf (e : Expr) (negated : Bool) (pattern : Expr) : Expr :=
  if negated then .unary .not (.binary .like e pattern) else .binary .like e pattern

theorem likeTail_eq : likeTail nested e us
    = (keyword .like (optKeyword .not us).2).bind fun rest =>
      (additive nested rest).bind fun pattern =>
        some ⟨likeOf e (optKeyword .not us).1 pattern.value, pattern.rest, pattern.open?⟩ := rfl

variable {nested e us} {rest : List Token}

/-- A word of a test stands behind NOT or first. -/
theorem word_head {k : Keyword} (h : keyword k (optKeyword .not us).2 = some rest) :
    ∃ t more, us = t :: more ∧ (t.kind = .keyword .not ∨ t.kind = .keyword k) := by
  unfold optKeyword at h
  cases hnot : keyword .not us with
  | some behind =>
      obtain ⟨t, rfl, ht⟩ := keyword_some hnot
      exact ⟨t, behind, rfl, .inl ht⟩
  | none =>
      rw [hnot] at h
      obtain ⟨t, rfl, ht⟩ := keyword_some h
      exact ⟨t, rest, rfl, .inr ht⟩

/-- Behind the word of one test no other is tried. -/
theorem word_only {k : Keyword} (hk : k = .between ∨ k = .like)
    (h : keyword k (optKeyword .not us).2 = some rest) : isNullTail e us = none
      ∧ comparisonTail nested e us = none ∧ inTail nested e us = none
      ∧ ∀ k', k' ≠ k → keyword k' (optKeyword .not us).2 = none := by
  have hother : ∀ k', k' ≠ k → keyword k' (optKeyword .not us).2 = none := by
    intro k' hne
    obtain ⟨t, ht, hkind⟩ := keyword_some h
    rw [ht]
    exact keyword_other (fun hk' => hne (TokenKind.keyword.inj (hk'.symm.trans hkind))) rest
  refine ⟨?_, ?_, ?_, hother⟩
  · obtain ⟨t, more, rfl, ht⟩ := word_head h
    have his : keyword .is (t :: more) = none := by
      refine keyword_other ?_ more
      rcases hk with rfl | rfl <;> rcases ht with ht | ht <;> (rw [ht]; decide)
    rw [isNullTail_eq, his, Option.bind_none]
  · obtain ⟨t, more, rfl, ht⟩ := word_head h
    have hop : comparisonOp? t = none := by
      unfold comparisonOp?
      rcases ht with ht | ht <;> rw [ht]
    show (operatorAndOperand comparisonOp? (additive nested) (t :: more)).map _ = none
    rw [operator_cons, hop]
    rfl
  · rw [inTail_eq, hother .in (by rcases hk with rfl | rfl <;> decide), Option.bind_none]

theorem predicateTail_between (h : keyword .between (optKeyword .not us).2 = some rest) :
    predicateTail nested e us = betweenTail nested e us := by
  obtain ⟨hisNull, hcomparison, hin, hother⟩ := @word_only nested e us rest .between (.inl rfl) h
  have hlike : likeTail nested e us = none := by
    rw [likeTail_eq, hother .like (by decide), Option.bind_none]
  refine (orElse_none hisNull).trans ((orElse_none hin).trans ?_)
  rw [Parser.orElse, orElse_none hlike, hcomparison]
  cases betweenTail nested e us <;> rfl

theorem predicateTail_like (h : keyword .like (optKeyword .not us).2 = some rest) :
    predicateTail nested e us = likeTail nested e us := by
  obtain ⟨hisNull, hcomparison, hin, hother⟩ := @word_only nested e us rest .like (.inr rfl) h
  have hbetween : betweenTail nested e us = none := by
    rw [betweenTail_eq, hother .between (by decide), Option.bind_none]
  refine (orElse_none hisNull).trans ((orElse_none hin).trans ((orElse_none hbetween).trans ?_))
  rw [Parser.orElse, hcomparison]
  cases likeTail nested e us <;> rfl

/-- Without BETWEEN and LIKE the other three tails are tried. -/
theorem predicateTail_other (hbetween : keyword .between (optKeyword .not us).2 = none)
    (hlike : keyword .like (optKeyword .not us).2 = none) : predicateTail nested e us
      = ((isNullTail e).orElse ((inTail nested e).orElse (comparisonTail nested e))) us := by
  have hnobetween : betweenTail nested e us = none := by
    rw [betweenTail_eq, hbetween, Option.bind_none]
  have hnolike : likeTail nested e us = none := by rw [likeTail_eq, hlike, Option.bind_none]
  unfold predicateTail
  rw [Parser.orElse, Parser.orElse, orElse_none hnobetween, orElse_none hnolike]
  rfl

end Words

/-! ## Predicates -/

section Tests

variable {S : Prop} {R R' : List Token} (hR : Calm 3 R) (hR' : Calm 3 R')
include hR hR'

/-- No keyword of a tail stands at either end. -/
theorem no_test {k : Keyword} (hk : (TokenKind.keyword k).binding? = some 3) :
    keyword k R = none ∧ keyword k R' = none :=
  ⟨hR.halts.keyword hk (Nat.le_refl 3), hR'.halts.keyword hk (Nat.le_refl 3)⟩

variable {j : Nat} {us us' : List Token} (htwin : Twin R R' 0 j us us') (e : Expr)
include htwin

theorem isNullTail_twins_calm :
    Together (Alike R R' id 0 j) (isNullTail e us) (isNullTail e us') := by
  rw [isNullTail_eq, isNullTail_eq]
  refine (keyword_twins htwin fun _ => no_test hR hR' rfl).bind ?_
  rintro rest rest' ⟨i, hi, hpos, hrest⟩
  obtain ⟨hnot, l, hl, hlpos, hnull⟩ := optKeyword_twins (k := .not) hrest
    (fun _ => no_test hR hR' rfl) rfl
  refine (keyword_twins hnull fun hz => ?_).bind ?_
  · exact absurd (hlpos (hpos rfl)) (hz ▸ Nat.lt_irrefl 0)
  · intro after after' hafter
    rw [hnot]
    exact .done ⟨rfl, hafter.mono (by omega)⟩

theorem inTail_twins_calm :
    Together (Alike R R' id 0 j) (inTail fullExpr e us) (inTail fullExpr e us') := by
  rw [inTail_eq, inTail_eq]
  obtain ⟨hnot, i, hi, -, hin⟩ := optKeyword_twins (k := .not) htwin
    (fun _ => no_test hR hR' rfl) rfl
  refine (keyword_twins hin fun _ => no_test hR hR' rfl).bind ?_
  rintro rest rest' ⟨l, hl, hpos, hrest⟩
  refine (inParens_twins list_enclosable (hpos rfl) hrest).bind ?_
  rintro list list' ⟨hlist, hafter⟩
  rw [hnot, show list.value = list'.value from hlist]
  exact .done ⟨rfl, hafter.mono (by omega)⟩

end Tests

section Sums

variable {S : Prop} {m : Nat} (hsum : ∀ j ≤ m, Carries S 4 j) {R R' us us' : List Token}
  (hR : Calm 3 R) (hR' : Calm 3 R') {j : Nat} (hj : j ≤ m) (htwin : Twin R R' 0 j us us')
  (hdetached : Detached S 3 R R' us) {e v : Expr} {o : Bool}
include hsum hR hR' hj htwin hdetached

/-- A sum at the end of a test is carried over. -/
theorem operand_carried (h : additive fullExpr us = some ⟨v, R, o⟩) :
    Carried S 4 R' v (additive fullExpr us') :=
  hsum j hj htwin (hR.mono (by decide)) (hR'.mono (by decide))
    (hdetached.sub (List.suffix_refl us) (Nat.le_refl _) (haltOf_next hR.halts)
      (.inl (haltOf_next hR'.halts))) h

/-- The pattern of LIKE is carried. -/
theorem likeTail_carried (h : likeTail fullExpr e us = some ⟨v, R, o⟩) :
    Carried S 3 R' v (likeTail fullExpr e us') := by
  rw [likeTail_eq] at h ⊢
  obtain ⟨rest, hlike, h⟩ := Option.bind_eq_some_iff.mp h
  obtain ⟨pattern, hpattern, h⟩ := Option.bind_eq_some_iff.mp h
  obtain ⟨rfl, rfl, rfl⟩ := Taken.mk.inj (Option.some.inj h)
  obtain ⟨hnot, i, hi, -, hword⟩ := optKeyword_twins (k := .not) htwin
    (fun _ => no_test hR hR' rfl) rfl
  have hread := keyword_twins hword fun _ => no_test hR hR' (k := .like) rfl
  rw [hlike] at hread
  obtain ⟨rest', hlike', l, hl, -, hrest⟩ := hread.of_some
  have hcarried := operand_carried hsum hR hR' (Nat.le_trans (Nat.le_of_lt hl) (Nat.le_trans hi hj))
    hrest (hdetached.sub ((keyword_suffix hlike).trans (optKeyword_suffix .not us))
      (Nat.le_refl _) rfl (.inl rfl)) hpattern
  refine hcarried.made (by decide) (likeOf e (optKeyword .not us).1) fun w left o hw => ⟨o, ?_⟩
  rw [hlike', Option.bind_some, hw, Option.bind_some, hnot]

/-- So is the right side of a comparison. -/
theorem comparisonTail_carried (h : comparisonTail fullExpr e us = some ⟨v, R, o⟩) :
    Carried S 3 R' v (comparisonTail fullExpr e us') := by
  obtain ⟨u, hu, heq⟩ := Option.map_eq_some_iff.mp h
  obtain ⟨rfl, rfl, rfl⟩ := Taken.mk.inj heq
  obtain ⟨t, rest, rfl, hop, hread⟩ := operator_some hu
  have hoperator := isOperator_comparison
  have hsize := htwin.length.1
  have hshorter : u.rest.length < rest.length :=
    (additive_takes fullExpr_takes).shorter _ _ hread
  rw [List.length_cons] at hsize
  obtain ⟨j, t', rest', n', rfl, rfl, -, -, hlevel, hrest, hpos, hsame⟩ := htwin.tail (by omega)
  obtain rfl := hsame (hpos (hoperator.ends _ _ hop))
  obtain rfl := Option.some.inj (hlevel.symm.trans (Token.level_other
    (hoperator.level _ _ hop).1 (hoperator.level _ _ hop).2 0))
  have hcarried := operand_carried hsum hR hR' (Nat.le_trans (Nat.le_succ j) hj) hrest
    (hdetached.sub (List.suffix_cons t' rest) (Nat.le_refl _) rfl (.inl rfl)) hread
  refine hcarried.made (by decide) (Expr.binary u.value.1 e) fun w left o hw => ⟨o, ?_⟩
  rw [comparisonTail, Parser.map, operator_read hop hw]
  rfl

/-- BETWEEN is carried over, unless its lower bound runs into branches. -/
theorem betweenTail_carried (h : betweenTail fullExpr e us = some ⟨v, R, o⟩) :
    Carried S 3 R' v (betweenTail fullExpr e us') ∨ S ∧ betweenTail fullExpr e us' = none := by
  rw [betweenTail_eq] at h ⊢
  obtain ⟨rest, hbetween, h⟩ := Option.bind_eq_some_iff.mp h
  obtain ⟨low, hlow, h⟩ := Option.bind_eq_some_iff.mp h
  obtain ⟨behind, hand, h⟩ := Option.bind_eq_some_iff.mp h
  obtain ⟨high, hhigh, h⟩ := Option.bind_eq_some_iff.mp h
  obtain ⟨rfl, rfl, rfl⟩ := Taken.mk.inj (Option.some.inj h)
  have htakes := additive_takes fullExpr_takes
  -- BETWEEN is no part of either rest, so it is read in both
  obtain ⟨hnot, i, hi, -, hword⟩ := optKeyword_twins (k := .not) htwin
    (fun _ => no_test hR hR' rfl) rfl
  have hread := keyword_twins hword fun _ => no_test hR hR' (k := .between) rfl
  rw [hbetween] at hread
  obtain ⟨rest', hbetween', l, hl, -, hrest⟩ := hread.of_some
  have hsuffix : rest <:+ us := (keyword_suffix hbetween).trans (optKeyword_suffix .not us)
  -- The AND stands in both as well, since the upper bound behind it reaches the rest. The upper
  -- bound is carried first, because the lower one ends where the halt of the upper one says.
  obtain ⟨a, hlowRest, ha⟩ := keyword_some hand
  have hshorter := htakes.shorter _ _ hhigh
  obtain ⟨lowRest', k, n, hsum', -, hbehindTwin, hlowTwin, hlowSuffix⟩ := hrest.taken htakes hlow
    (by rw [hlowRest, List.length_cons]; omega)
  rw [hlowRest] at hbehindTwin hlowTwin hlowSuffix
  have hsize := hbehindTwin.length.1
  rw [List.length_cons] at hsize
  obtain ⟨n, a', behind', n', rfl, rfl, hkind, -, hlevel, hbehind, -, -⟩ :=
    hbehindTwin.tail (by omega)
  obtain rfl := (Token.plain_keyword ha).level hlevel
  have ha' : a'.kind = .keyword .and := hkind.trans ha
  have hbehindSuffix : behind <:+ us :=
    ((List.suffix_cons a behind).trans hlowSuffix).trans hsuffix
  -- the upper bound: it reads on to the rest, or it is lost and everything behind it with it
  have hcarried := operand_carried hsum hR hR' (by omega) hbehind
    (hdetached.sub hbehindSuffix (Nat.le_refl _) rfl (.inl rfl)) hhigh
  obtain ⟨w, left, o, hw, hend⟩ := hcarried.taken
  have hleft : Halts 3 left := by
    rcases hend with ⟨-, rfl⟩ | ⟨-, hlost⟩
    · exact hR'.halts
    · rw [hlost.nil (by decide)]
      exact halts_nil
  have hcalm : ∀ {t : Token} {ts}, t.kind = .keyword .and → Calm 4 (t :: ts) :=
    fun ht => calm_of_binding (by rw [ht]; rfl) (by decide) _
  have hbranches : haltOf fullExpr 4 (a' :: behind') = haltOf fullExpr 3 R'
      ∨ Branchless S (haltOf fullExpr 4 (a' :: behind')) := by
    rw [haltOf_and ha' (remainder_of_some hw) hleft]
    rcases hend with ⟨-, rfl⟩ | ⟨-, hlost⟩
    · exact .inl rfl
    · exact .inr (hlost.mono (show 3 ≤ 4 by decide)).branchless
  -- the lower bound, whose rest is the AND in both
  have hlow' := hsum k (by omega) hlowTwin (hcalm ha) (hcalm ha')
    (hdetached.sub hsuffix (by rw [List.length_cons]; omega)
      (haltOf_and ha (remainder_of_some hhigh) hR.halts) hbranches)
    (show additive fullExpr rest = some ⟨low.value, a :: behind, low.open?⟩ by
      rw [hlow, ← hlowRest])
  obtain ⟨w', left', o', hw', hend'⟩ := hlow'.taken
  have hw' : additive fullExpr rest' = some ⟨w', left', o'⟩ := hw'
  rw [hbetween', Option.bind_some, hw', Option.bind_some, ← hnot]
  -- read in both, the tails have the same value; a lower bound that is lost leaves no AND to be
  -- read
  rcases hend' with ⟨rfl, rfl⟩ | ⟨hS, hlost⟩
  · have hand' : keyword .and (a' :: behind') = some behind' := if_pos (beq_iff_eq.mpr ha')
    refine .inl (hcarried.made (by decide)
      (fun w => Expr.between e low.value w (optKeyword .not us).1) fun w left o hw => ⟨o, ?_⟩)
    rw [hand', Option.bind_some, show additive fullExpr behind' = _ from hw]
    rfl
  · refine .inr ⟨hS, ?_⟩
    rw [hlost.nil (by decide)]
    rfl

/-- A test is carried over, or there is none where its subject is lost. -/
theorem predicateTail_carried (h : predicateTail fullExpr e us = some ⟨v, R, o⟩) :
    Carried S 3 R' v (predicateTail fullExpr e us')
      ∨ S ∧ Lost 3 us' ∧ predicateTail fullExpr e us' = none := by
  obtain ⟨-, i, hi, -, hword⟩ := optKeyword_twins (k := .not) htwin
    (fun _ => no_test hR hR' rfl) rfl
  -- which tail it is stands in front of both rests; only BETWEEN can lose its AND
  have hbetweens := keyword_twins hword fun _ => no_test hR hR' (k := .between) rfl
  have hlikes := keyword_twins hword fun _ => no_test hR hR' (k := .like) rfl
  cases hbetween : keyword .between (optKeyword .not us).2 with
  | some rest =>
      rw [hbetween] at hbetweens
      obtain ⟨rest', hbetween', -⟩ := hbetweens.of_some
      rw [predicateTail_between hbetween] at h
      rw [predicateTail_between hbetween']
      refine (betweenTail_carried hsum hR hR' hj htwin hdetached h).imp id fun ⟨hS, hnone⟩ => ?_
      obtain ⟨t, more, hus', ht⟩ := word_head hbetween'
      exact ⟨hS, .inr ⟨Nat.le_refl 3, t, more, hus', ht⟩, hnone⟩
  | none =>
      rw [hbetween] at hbetweens
      refine .inl ?_
      cases hlike : keyword .like (optKeyword .not us).2 with
      | some rest =>
          rw [hlike] at hlikes
          obtain ⟨rest', hlike', -⟩ := hlikes.of_some
          rw [predicateTail_like hlike] at h
          rw [predicateTail_like hlike']
          exact likeTail_carried hsum hR hR' hj htwin hdetached h
      | none =>
          rw [hlike] at hlikes
          rw [predicateTail_other hbetween hlike] at h
          rw [predicateTail_other hbetweens.of_none hlikes.of_none]
          exact Carried.orElse (isNullTail_twins_calm hR hR' htwin e)
            (Carried.orElse (inTail_twins_calm hR hR' htwin e)
              (comparisonTail_carried hsum hR hR' hj htwin hdetached)) h

end Sums

/-- A test begins with a token that binds like a predicate. -/
theorem predicateTail_head {nested : Parser Expr} {e : Expr} {us : List Token} {t : Taken Expr}
    (h : predicateTail nested e us = some t) :
    ∃ s more, us = s :: more ∧ s.kind.binding? = some 3 := by
  have hkeyword : ∀ {k : Keyword} {rest}, (TokenKind.keyword k).binding? = some 3 →
      keyword k (optKeyword .not us).2 = some rest →
      ∃ s more, us = s :: more ∧ s.kind.binding? = some 3 := by
    intro k rest hk hrest
    obtain ⟨s, more, rfl, hs | hs⟩ := word_head hrest
    · exact ⟨s, more, rfl, by rw [hs]; rfl⟩
    · exact ⟨s, more, rfl, by rw [hs]; exact hk⟩
  cases hbetween : keyword .between (optKeyword .not us).2 with
  | some rest => exact hkeyword rfl hbetween
  | none =>
      cases hlike : keyword .like (optKeyword .not us).2 with
      | some rest => exact hkeyword rfl hlike
      | none =>
          -- without BETWEEN and LIKE it is IS NULL, IN or a comparison
          rw [predicateTail_other hbetween hlike] at h
          rcases orElse_cases h with hisNull | ⟨-, h⟩
          · rw [isNullTail_eq] at hisNull
            obtain ⟨rest, his, -⟩ := Option.bind_eq_some_iff.mp hisNull
            obtain ⟨s, rfl, hs⟩ := keyword_some his
            exact ⟨s, rest, rfl, by rw [hs]; rfl⟩
          · rcases orElse_cases h with hin | ⟨-, hcompare⟩
            · rw [inTail_eq] at hin
              obtain ⟨rest, hin, -⟩ := Option.bind_eq_some_iff.mp hin
              exact hkeyword rfl hin
            · obtain ⟨u, hu, -⟩ := Option.map_eq_some_iff.mp hcompare
              obtain ⟨s, more, rfl, hs, -⟩ := operator_some hu
              exact ⟨s, more, rfl, binding_of_comparisonOp hs⟩

/-- With a tail the expression goes on up to behind it. -/
theorem goOn_test {e : Expr} {us : List Token} {t : Taken Expr}
    (h : predicateTail fullExpr e us = some t) : goOn fullExpr 3 us = t.rest := by
  show (remainder (predicateTail fullExpr (.literal .null)) us).getD us = t.rest
  rw [← predicateTail_remainder e, remainder_of_some h]
  rfl

/-- Without one it goes on no further. -/
theorem goOn_untested {e : Expr} {us : List Token} (h : predicateTail fullExpr e us = none) :
    goOn fullExpr 3 us = us := by
  show (remainder (predicateTail fullExpr (.literal .null)) us).getD us = us
  rw [← predicateTail_remainder e, remainder_none.mpr h]
  rfl

/-- At its place a predicate is a sum with a tail. -/
theorem predicate_read (us : List Token) :
    parserAt fullExpr 3 us = (additive fullExpr us).bind fun subject =>
      match predicateTail fullExpr subject.value subject.rest with
      | some t => some t
      | none => some ⟨subject.value, subject.rest, true⟩ := predicate_eq fullExpr us

section Predicates

variable {S : Prop} {R' us : List Token} {e v w : Expr} {left : List Token} {o : Bool}

/-- A sum whose end is lost is a predicate without a test. -/
theorem predicate_lost (hS : S) (hlost : Lost 4 left)
    (hw : additive fullExpr us = some ⟨w, left, o⟩) :
    Carried S 3 R' v (parserAt fullExpr 3 us) := by
  rw [predicate_read, hw, Option.bind_some]
  dsimp only
  rw [hlost.nil (by decide), halts_nil.predicateTail]
  exact .inr ⟨hS, _, _, _, rfl, .inl rfl⟩

/-- A sum stops behind the test that is carried over, or nothing with branches is there. -/
theorem haltOf_tested (h : Carried S 3 R' v (predicateTail fullExpr e us)
      ∨ S ∧ Lost 3 us ∧ predicateTail fullExpr e us = none) :
    haltOf fullExpr 4 us = haltOf fullExpr 3 R' ∨ Branchless S (haltOf fullExpr 4 us) := by
  rw [haltOf]
  rcases h with hcarried | ⟨-, hlost, hnone⟩
  · obtain ⟨w, left, o, hw, hend⟩ := hcarried.taken
    rw [goOn_test hw]
    rcases hend with ⟨-, rfl⟩ | ⟨-, hlost⟩
    · exact .inl rfl
    · exact .inr hlost.branchless
  · rw [goOn_untested hnone]
    exact .inr hlost.branchless

end Predicates

/-- A predicate is carried over if its sums are. -/
theorem carries_predicate {S : Prop} {m : Nat} (hsum : ∀ j ≤ m, Carries S 4 j) :
    Carries S 3 m := by
  intro R R' ts ts' v o htwin hR hR' hdetached h
  rw [predicate_read] at h
  obtain ⟨subject, hsubject, h⟩ := Option.bind_eq_some_iff.mp h
  cases htail : predicateTail fullExpr subject.value subject.rest with
  | none =>
      rw [htail] at h
      obtain ⟨rfl, rfl, -⟩ := Taken.mk.inj (Option.some.inj h)
      obtain ⟨w, left, o', hw, ⟨rfl, rfl⟩ | ⟨hS, hlost⟩⟩ :=
        (operand_carried hsum hR hR' (Nat.le_refl m) htwin hdetached hsubject).taken
      · rw [predicate_read, hw, Option.bind_some]
        dsimp only
        rw [hR'.halts.predicateTail]
        exact .inl ⟨_, rfl⟩
      · exact predicate_lost hS hlost hw
  | some t =>
      rw [htail] at h
      obtain rfl := Option.some.inj h
      have hshorter := (predicateTail_takes fullExpr_takes _).shorter _ _ htail
      obtain ⟨us', i, j, hsum', -, htailTwin, hsubjectTwin, hsuffix⟩ :=
        htwin.taken (additive_takes fullExpr_takes) hsubject (Nat.le_of_lt hshorter)
      have hcarried := predicateTail_carried hsum hR hR' (by omega) htailTwin
        (hdetached.sub hsuffix (Nat.le_refl _) rfl (.inl rfl)) htail
      -- the test begins with the same word in both
      obtain ⟨s, more, hus, hs⟩ := predicateTail_head htail
      have hsize := htailTwin.length.1
      rw [hus, List.length_cons] at hsize
      rw [hus, List.length_cons] at hshorter
      dsimp only at hshorter
      obtain ⟨j, s', more', _, rfl, rfl, hkind, -, -, -, -, -⟩ :=
        Twin.tail (hus ▸ htailTwin) (by omega)
      have hcalm : ∀ {t : Token} {ts}, t.kind = s.kind → Calm 4 (t :: ts) :=
        fun ht => calm_of_binding (ht ▸ hs) (by decide) _
      have hsubject' := hsum i (by omega) hsubjectTwin (hus ▸ hcalm rfl) (hcalm hkind)
        (hdetached.sub (List.suffix_refl ts) (by rw [hus, List.length_cons]; omega)
          (by rw [haltOf, goOn_test htail]) (haltOf_tested hcarried)) hsubject
      obtain ⟨w, left, o', hw, ⟨rfl, rfl⟩ | ⟨hS, hlost⟩⟩ := hsubject'.taken
      · rw [predicate_read, show additive fullExpr ts' = _ from hw, Option.bind_some]
        dsimp only
        rcases hcarried with hcarried | ⟨hS, hlost, hnone⟩
        · refine hcarried.made (Nat.le_refl 3) id fun w left o hw => ⟨o, ?_⟩
          rw [hw]
          rfl
        · rw [hnone]
          exact .inr ⟨hS, _, _, _, rfl, hlost⟩
      · exact predicate_lost hS hlost hw

/-! ## Negations -/

/-- In front of an opening parenthesis a negation is read if what is in parentheses is. -/
theorem negation_open {nested : Parser Expr} {t : Token} (ht : t.kind = .symbol .openParen)
    (rest : List Token) : negation nested (t :: rest) = none ↔ inParens nested (t :: rest) = none := by
  rw [← remainder_none, ← remainder_none, remainder,
    negation_other (keyword_other (by rw [ht]; decide) rest)]
  show remainder (predicate nested) (t :: rest) = none ↔ _
  rw [remainder_predicate, remainder_additive (symbol_other (by rw [ht]; decide) rest),
    Option.map_eq_none_iff, Option.map_eq_none_iff, remainder, primary_open ht]
  exact Iff.rfl

/-- NOT names a function where nothing is negated, and a parenthesis is opened behind it. -/
theorem predicate_not {nested : Parser Expr} {t : Token} (ht : t.kind = .keyword .not)
    {rest : List Token} {u : Taken Expr} (h : predicate nested (t :: rest) = some u) :
    ∃ p more, rest = p :: more ∧ p.kind = .symbol .openParen := by
  have hrest := remainder_of_some h
  rw [remainder_predicate, remainder_additive (symbol_other (by rw [ht]; decide) rest), remainder,
    primary_word (.inl rfl) ht] at hrest
  obtain ⟨behind, hbehind, -⟩ := Option.map_eq_some_iff.mp hrest
  obtain ⟨behind', hbehind', -⟩ := Option.map_eq_some_iff.mp hbehind
  obtain ⟨v, o, hcall⟩ := remainder_some hbehind'
  exact call_open hcall

/-- A negation is carried over if predicates are. -/
theorem carries_negation {S : Prop} {m : Nat} (hpredicate : ∀ j ≤ m, Carries S 3 j) :
    Carries S 2 m := by
  induction m with
  | zero =>
      intro R R' ts ts' v o htwin _ _ _ h
      exact absurd (htwin.pos_of_taken (negation_takes fullExpr_takes) h (Nat.le_refl _))
        (Nat.lt_irrefl 0)
  | succ m ih =>
      intro R R' ts ts' v o htwin hR hR' hdetached h
      -- where NOT opens nothing the predicate is read, which is carried
      have hother : predicate fullExpr ts = some ⟨v, R, o⟩ →
          Carried S 2 R' v (predicate fullExpr ts') := fun h =>
        (hpredicate (m + 1) (Nat.le_refl _) htwin (hR.mono (by decide)) (hR'.mono (by decide))
          (hdetached.sub (List.suffix_refl ts) (Nat.le_refl _) rfl (.inl rfl)) h).mono (by decide)
      have h : negation fullExpr ts = some ⟨v, R, o⟩ := h
      show Carried S 2 R' v (negation fullExpr ts')
      obtain ⟨t, t', rest, rest', n', rfl, rfl, hkind, -, hlevel, hrest, hpos, -⟩ := htwin.uncons
      -- NOT with an operand, on what is behind it; else it is the name of a call with
      -- parentheses, which hold no operand on either side
      by_cases ht : t.kind = .keyword .not
      · obtain rfl := (Token.plain_keyword ht).level hlevel
        have hm : 0 < m := hpos (by rw [Token.endsPhrase, ht]; rfl)
        rw [negation_not (beq_iff_eq.mpr ht)] at h
        rw [negation_not (beq_iff_eq.mpr (hkind.trans ht))]
        cases hinner : negation fullExpr rest with
        | some e =>
            rw [hinner] at h
            obtain ⟨rfl, rfl, rfl⟩ := Taken.mk.inj (Option.some.inj h)
            have hcarried := ih (fun j hj => hpredicate j (Nat.le_succ_of_le hj)) hrest hR hR'
              (hdetached.sub (List.suffix_cons t rest) (Nat.le_refl _) rfl (.inl rfl)) hinner
            refine hcarried.made (Nat.le_refl 2) (Expr.unary .not) fun w left o hw => ⟨o, ?_⟩
            rw [show negation fullExpr rest' = _ from hw]
            rfl
        | none =>
            rw [hinner] at h
            obtain ⟨p, more, rfl, hp⟩ := predicate_not ht h
            have hparens := inParens_twins fullExpr_enclosable hm hrest
            rw [(negation_open hp more).mp hinner] at hparens
            obtain ⟨m, p', more', _, rfl, rfl, hpkind, -, -, -, -, -⟩ := hrest.tail hm
            rw [(negation_open (hpkind.trans hp) more').mpr hparens.of_none]
            exact hother h
      · have hnegation : ∀ {t : Token} (rest : List Token), t.kind ≠ .keyword .not →
            negation fullExpr (t :: rest) = predicate fullExpr (t :: rest) :=
          fun rest h => negation_other (keyword_other h rest)
        rw [hnegation rest ht] at h
        rw [hnegation rest' (by rw [hkind]; exact ht)]
        exact hother h

end QueryReplay.Sql
