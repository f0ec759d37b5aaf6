import QueryReplay.Proofs.Enclosures

/-! # Remainders — where an expression comes to a halt

    What was read at a tight place is the beginning of something at each looser
    one, and how far the looser parsers go on does not depend on what was read,
    only on what stands behind it (`goOn`).  So two expressions that begin with
    parentheses come to the same halt when what they begin with is closed at the
    same place (`remainder_fullExpr`). -/

namespace QueryReplay.Sql

open QueryReplay.Sql.Parser QueryReplay.Sql.ExprParser

/-- What a parser leaves. -/
def remainder {α : Type} (p : Parser α) (ts : List Token) : Option (List Token) :=
  (p ts).map Taken.rest

/-- A remainder belongs to a value the parser took. -/
theorem remainder_some {α : Type} {p : Parser α} {ts rest : List Token}
    (h : remainder p ts = some rest) : ∃ v o, p ts = some ⟨v, rest, o⟩ := by
  obtain ⟨t, ht, rfl⟩ := Option.map_eq_some_iff.mp h
  exact ⟨t.value, t.open?, ht⟩

theorem remainder_of_some {α : Type} {p : Parser α} {ts : List Token} {t : Taken α}
    (h : p ts = some t) : remainder p ts = some t.rest := by
  rw [remainder, h, Option.map_some]

theorem remainder_none {α : Type} {p : Parser α} {ts : List Token} :
    remainder p ts = none ↔ p ts = none := Option.map_eq_none_iff

/-! ## Repetitions -/

section Repeats

variable {α : Type} {p : Parser α} {ts rest : List Token}
  (hshorter : ∀ ts t, p ts = some t → t.rest.length < ts.length)
include hshorter

/-- A repetition goes on until the parser fails. -/
theorem repeats_many (ts : List Token) : Repeats p (many p ts).rest ts (many p ts).value := by
  have hrun : ∀ (fuel : Nat) (gone : List α) (o : Bool) (ts : List Token), ts.length ≤ fuel →
      ∃ vs, (manyUpTo p fuel gone o ts).value = gone.reverse ++ vs
        ∧ Repeats p (manyUpTo p fuel gone o ts).rest ts vs := by
    intro fuel
    induction fuel with
    | zero =>
        intro gone o ts hfuel
        have hnone : p ts = none := Option.eq_none_iff_forall_ne_some.mpr fun t ht =>
          absurd (hshorter ts t ht) (by omega)
        exact ⟨[], (List.append_nil _).symm, .done hnone⟩
    | succ fuel ih =>
        intro gone o ts hfuel
        rw [manyUpTo]
        cases hread : p ts with
        | none => exact ⟨[], (List.append_nil _).symm, .done hread⟩
        | some t =>
            have := hshorter ts t hread
            obtain ⟨vs, hvalue, hmore⟩ := ih (t.value :: gone) t.open? t.rest (by omega)
            refine ⟨t.value :: vs, ?_, .next hread hmore⟩
            rw [hvalue, List.reverse_cons, List.append_assoc]
            rfl
  obtain ⟨vs, hvalue, hrepeats⟩ := hrun ts.length [] true ts (Nat.le_refl _)
  rwa [show (many p ts).value = vs from hvalue]

/-- Repetition never leaves more tokens than it was given. -/
theorem Repeats.length_le {vs : List α} (h : Repeats p rest ts vs) : rest.length ≤ ts.length := by
  induction h with
  | done _ => exact Nat.le_refl _
  | next h _ ih => exact Nat.le_trans ih (Nat.le_of_lt (hshorter _ _ h))

/-- A repetition goes on behind its first part. -/
theorem many_next {t : Taken α} (h : p ts = some t) : (many p ts).rest = (many p t.rest).rest := by
  obtain ⟨o, hmany⟩ := many_of_repeats hshorter (.next h (repeats_many hshorter t.rest))
  rw [hmany]

end Repeats

/-! ## Going on -/

section Nested

variable {nested : Parser Expr} {place : Nat} {ts us : List Token}

/-- Where the parser of a place comes to a halt behind something of the next
    tighter place. -/
def goOn (nested : Parser Expr) (place : Nat) (ts : List Token) : List Token :=
  match operatorAt place with
  | some op? => (many (operatorAndOperand op? (parserAt nested (place + 1))) ts).rest
  | none =>
    if place = 3 then (remainder (predicateTail nested (.literal .null)) ts).getD ts else ts

/-- Where an expression comes to a halt behind something of a place. -/
def haltOf (nested : Parser Expr) : Nat → List Token → List Token
  | 0, ts => ts
  | place + 1, ts => haltOf nested place (goOn nested place ts)

/-- At a level of binary operators, going on is taking further operators and operands. -/
theorem goOn_operator {op? : Token → Option BinaryOp} (h : operatorAt place = some op?) :
    goOn nested place ts
      = (many (operatorAndOperand op? (parserAt nested (place + 1))) ts).rest := by
  rw [goOn, h]

/-- Where nothing of the level or above it can follow, going on takes nothing. -/
theorem goOn_halts (h : Halts place ts) : goOn nested place ts = ts := by
  unfold goOn
  cases hop : operatorAt place with
  | some op? => exact congrArg Taken.rest (many_none (h.operator (fun _ _ => operatorAt_binding hop) _))
  | none =>
      dsimp only
      split
      · rename_i hplace
        subst hplace
        rw [remainder_none.mpr (h.predicateTail _)]
        rfl
      · rfl

theorem haltOf_halts (h : Halts 0 ts) : haltOf nested place ts = ts := by
  induction place with
  | zero => rfl
  | succ place ih => rw [haltOf, goOn_halts (h.mono (Nat.zero_le place)), ih]

theorem halts_nil : Halts place [] := fun _ ht => nomatch ht

/-- How far a test reaches does not depend on what it tests. -/
theorem predicateTail_remainder (e e' : Expr) (ts : List Token) :
    remainder (predicateTail nested e) ts = remainder (predicateTail nested e') ts := by
  have hchoice : ∀ {p p' q q' : Parser Expr}, remainder p ts = remainder p' ts →
      remainder q ts = remainder q' ts → remainder (p.orElse q) ts = remainder (p'.orElse q') ts := by
    intro p p' q q' hp hq
    unfold remainder Parser.orElse at *
    cases hread : p ts with
    | some t =>
        rw [hread] at hp
        cases hread' : p' ts with
        | some t' => rw [hread'] at hp; exact hp
        | none => rw [hread'] at hp; exact nomatch hp
    | none =>
        rw [hread] at hp
        cases hread' : p' ts with
        | some t' => rw [hread'] at hp; exact nomatch hp
        | none => exact hq
  refine hchoice ?_ (hchoice ?_ (hchoice ?_ (hchoice ?_ ?_)))
  all_goals unfold remainder
  · simp only [isNullTail, Option.bind_eq_bind, Option.map_bind, Function.comp_def,
      Option.pure_def, Option.map_some]
  · simp only [inTail, Option.bind_eq_bind, Option.map_bind, Function.comp_def,
      Option.pure_def, Option.map_some]
  · simp only [betweenTail, Option.bind_eq_bind, Option.map_bind, Function.comp_def,
      Option.pure_def, Option.map_some]
  · simp only [likeTail, Option.bind_eq_bind, Option.map_bind, Function.comp_def,
      Option.pure_def, Option.map_some]
  · simp only [comparisonTail, Parser.map, Option.map_map, Function.comp_def]

/-- A chain leaves what its first operand leaves, less the operators and operands behind it. -/
theorem remainder_chain (op? : Token → Option BinaryOp) (operand : Parser Expr) (ts : List Token) :
    remainder (chain op? operand) ts
      = (remainder operand ts).map fun us => (many (operatorAndOperand op? operand) us).rest := by
  unfold remainder ExprParser.chain
  cases operand ts with
  | none => rfl
  | some first => rfl

/-- A predicate leaves what its left side leaves, less the tail behind it. -/
theorem remainder_predicate (ts : List Token) : remainder (predicate nested) ts
    = (remainder (additive nested) ts).map (goOn nested 3) := by
  unfold remainder
  rw [predicate_eq]
  cases additive nested ts with
  | none => rw [Option.bind_none, Option.map_none, Option.map_none]
  | some subject =>
      have hsame := @predicateTail_remainder nested subject.value (.literal .null)
        subject.rest
      have hgoOn : goOn nested 3 subject.rest
          = (remainder (predicateTail nested subject.value) subject.rest).getD subject.rest := by
        rw [hsame]
        rfl
      rw [Option.bind_some, Option.map_some, Option.map_some, hgoOn]
      unfold remainder
      cases predicateTail nested subject.value subject.rest with
      | none => rfl
      | some t => rfl

/-- Without a `NOT` in front, a negation is its predicate. -/
theorem negation_other (h : keyword .not ts = none) : negation nested ts = predicate nested ts := by
  cases ts with
  | nil => rfl
  | cons t rest =>
      refine if_neg fun hk => ?_
      exact nomatch (show keyword .not (t :: rest) = some rest from if_pos hk).symm.trans h

/-- A looser place goes on from where a tighter one stopped. -/
theorem remainder_parserAt (hplace : place ≤ 6) (hnot : place = 2 → keyword .not ts = none)
    (hminus : place = 6 → symbol .minus ts = none) : remainder (parserAt nested place) ts
      = (remainder (parserAt nested (place + 1)) ts).map (goOn nested place) := by
  match place with
  | 0 | 1 | 4 | 5 => exact remainder_chain _ _ ts
  | 3 => exact remainder_predicate ts
  | 2 =>
      show remainder (negation nested) ts = (remainder (predicate nested) ts).map id
      rw [Option.map_id, id, remainder, remainder, negation_other (hnot rfl)]
  | 6 =>
      show remainder (signed nested) ts = (remainder (primary nested) ts).map id
      rw [Option.map_id, id, remainder, remainder, signed, hminus rfl]
  | n + 7 => omega

end Nested

/-! ## From primaries on -/

section Primaries

variable {nested : Parser Expr} {ts us rest : List Token} {t : Token}

/-- In front of an opening parenthesis a primary is what is in parentheses. -/
theorem primary_open (ht : t.kind = .symbol .openParen) (rest : List Token) :
    primary nested (t :: rest) = inParens nested (t :: rest) := by
  obtain ⟨kind, lexeme, gap⟩ := t
  obtain rfl : kind = .symbol .openParen := ht
  exact (orElse_none rfl).trans ((orElse_none rfl).trans ((orElse_none rfl).trans
    (orElse_none rfl)))

/-- A reserved word is no column. -/
theorem call_of_word {k : Keyword} (ht : t.kind = .keyword k) (rest : List Token) :
    (call nested).orElse (column.orElse (parenthesized nested)) (t :: rest)
      = call nested (t :: rest) := by
  obtain ⟨kind, lexeme, gap⟩ := t
  obtain rfl : kind = .keyword k := ht
  have hbehind : (column.orElse (parenthesized nested)) (⟨.keyword k, lexeme, gap⟩ :: rest) = none :=
    rfl
  rw [Parser.orElse, hbehind]
  cases call nested (⟨.keyword k, lexeme, gap⟩ :: rest) <;> rfl

/-- A reserved word that begins nothing else may name a function. -/
theorem primary_word {k : Keyword} (hk : k = .not ∨ k = .when) (ht : t.kind = .keyword k)
    (rest : List Token) : primary nested (t :: rest) = call nested (t :: rest) := by
  have hcall := @call_of_word nested _ _ ht rest
  obtain ⟨kind, lexeme, gap⟩ := t
  obtain rfl : kind = .keyword k := ht
  rcases hk with rfl | rfl
  · exact (orElse_none rfl).trans ((orElse_none rfl).trans hcall)
  · exact (orElse_none rfl).trans ((orElse_none rfl).trans hcall)

/-- What begins with neither NOT nor a sign is gone on with from any place. -/
theorem remainder_ladder {place : Nat} (hplace : place ≤ 7) (hnot : keyword .not ts = none)
    (hminus : symbol .minus ts = none) : remainder (parserAt nested 0) ts
      = (remainder (parserAt nested place) ts).map (haltOf nested place) := by
  induction place with
  | zero => exact Option.map_id.symm ▸ rfl
  | succ place ih =>
      rw [ih (by omega), remainder_parserAt (by omega) (fun _ => hnot) (fun _ => hminus),
        Option.map_map]
      rfl

theorem remainder_fullExpr (ts : List Token) :
    remainder fullExpr ts = remainder (parserAt fullExpr 0) ts := by
  rw [remainder, fullExpr_eq]
  rfl

/-- Where an expression comes to a halt that begins with parentheses. -/
theorem fullExpr_open (ht : t.kind = .symbol .openParen) (rest : List Token) :
    remainder fullExpr (t :: rest)
      = (remainder (inParens fullExpr) (t :: rest)).map (haltOf fullExpr 7) := by
  have hnot : keyword .not (t :: rest) = none := keyword_other (by rw [ht]; decide) rest
  have hminus : symbol .minus (t :: rest) = none := symbol_other (by rw [ht]; decide) rest
  rw [remainder_fullExpr, remainder_ladder (Nat.le_refl 7) hnot hminus]
  exact congrArg (Option.map _) (congrArg (Option.map _) (primary_open ht rest))

/-- WHEN begins an expression only where it names a function. -/
theorem fullExpr_when (ht : t.kind = .keyword .when) (rest : List Token) :
    fullExpr (t :: rest) = none ↔ call fullExpr (t :: rest) = none := by
  have hnot : keyword .not (t :: rest) = none := keyword_other (by rw [ht]; decide) rest
  have hminus : symbol .minus (t :: rest) = none := symbol_other (by rw [ht]; decide) rest
  rw [← remainder_none, remainder_fullExpr, remainder_ladder (Nat.le_refl 7) hnot hminus,
    Option.map_eq_none_iff, remainder_none]
  exact iff_of_eq (congrArg (· = none) (primary_word (.inr rfl) ht rest))

/-- A call and an expression in the parentheses of its arguments end together. -/
theorem call_rest (htakes : Takes nested) {u : Taken Expr} {w : Taken Expr}
    (hu : call nested (t :: ts) = some u) (hw : inParens nested ts = some w) : w.rest = u.rest := by
  rw [call_eq] at hu
  obtain ⟨name, -, hu⟩ := Option.bind_eq_some_iff.mp hu
  obtain ⟨a, ha, hu⟩ := Option.bind_eq_some_iff.mp hu
  obtain rfl := Option.some.inj hu
  obtain ⟨o, us, c, hts, -, hc, hus⟩ := inParens_some (argumentList_balances htakes) ha
  obtain ⟨o', us', c', hts', -, hc', hus'⟩ := inParens_some htakes.balances hw
  obtain ⟨-, hbehind⟩ := List.cons.inj (hts'.symm.trans hts)
  exact enclosed_unique hus' hus hc' hc hbehind

/-- A call stands in front of an opening parenthesis. -/
theorem call_open {u : Taken Expr} (h : call nested (t :: ts) = some u) :
    ∃ o behind, ts = o :: behind ∧ o.kind = .symbol .openParen := by
  obtain ⟨name, -, h⟩ := Option.bind_eq_some_iff.mp h
  obtain ⟨inside, hopen, -⟩ := Option.bind_eq_some_iff.mp h
  obtain ⟨o, rfl, ho⟩ := symbol_some hopen
  exact ⟨o, inside, rfl, ho⟩

/-- A sum that begins with no sign goes on from a primary. -/
theorem remainder_additive (hminus : symbol .minus ts = none) : remainder (additive nested) ts
    = (remainder (primary nested) ts).map
      (goOn nested 4 ∘ goOn nested 5 ∘ goOn nested 6) := by
  have hsum := @remainder_parserAt nested 4 ts (by decide) (fun h => nomatch h) (fun h => nomatch h)
  have hproduct :=
    @remainder_parserAt nested 5 ts (by decide) (fun h => nomatch h) (fun h => nomatch h)
  have hsigned := @remainder_parserAt nested 6 ts (by decide) (fun h => nomatch h) fun _ => hminus
  rw [hproduct, hsigned, Option.map_map, Option.map_map] at hsum
  exact hsum

/-- A sum in front of what ends predicates is a negation up to there. -/
theorem negation_of_additive (htakes : Takes nested) (h : remainder (additive nested) ts = some us)
    (hus : Halts 3 us) : remainder (negation nested) ts = some us := by
  have hpredicate : ∀ {ts}, remainder (additive nested) ts = some us →
      remainder (predicate nested) ts = some us := by
    intro ts h
    rw [remainder_predicate, h, Option.map_some, goOn_halts hus]
  cases hnot : keyword .not ts with
  | none =>
      rw [remainder, negation_other hnot]
      exact hpredicate h
  | some rest =>
      obtain ⟨t, rfl, ht⟩ := keyword_some hnot
      have hnegation := @negation_not nested t (beq_iff_eq.mpr ht) rest
      cases hinner : negation nested rest with
      | none =>
          rw [remainder, hnegation, hinner]
          exact hpredicate h
      | some e =>
          rw [remainder, hnegation, hinner]
          refine congrArg some ?_
          -- NOT names a function, and its arguments are an expression in parentheses too
          have hsum := h
          rw [remainder_additive (symbol_other (by rw [ht]; decide) rest), remainder,
            primary_word (.inl rfl) ht] at hsum
          obtain ⟨behind, hbehind, hhalt⟩ := Option.map_eq_some_iff.mp hsum
          obtain ⟨v, o, hcall⟩ := remainder_some hbehind
          obtain ⟨p, more, rfl, hp⟩ := call_open hcall
          have he : remainder (predicate nested) (p :: more) = some e.rest := by
            rw [remainder, ← negation_other (keyword_other (by rw [hp]; decide) more)]
            exact remainder_of_some hinner
          have hparens : remainder (inParens nested) (p :: more) = some behind := by
            rw [remainder_predicate, remainder_additive (symbol_other (by rw [hp]; decide) more),
              remainder, primary_open hp, Option.map_map] at he
            obtain ⟨us', hus', -⟩ := Option.map_eq_some_iff.mp he
            obtain ⟨w, o', hw⟩ := remainder_some hus'
            rw [remainder_of_some hw]
            exact congrArg some (call_rest htakes hcall hw)
          have hadditive : remainder (additive nested) (p :: more) = some us := by
            rw [remainder_additive (symbol_other (by rw [hp]; decide) more), remainder,
              primary_open hp, ← hhalt]
            exact congrArg (Option.map _) hparens
          exact Option.some.inj (he.symm.trans (hpredicate hadditive))

end Primaries

end QueryReplay.Sql
