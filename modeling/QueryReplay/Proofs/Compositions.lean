import QueryReplay.Proofs.Branches

/-! # Compositions — a CASE put together from expressions

    Expressions that are read by themselves (`Whole`) stand between the words of
    CASE (`Composed`).  Each is read again between them but for two kinds: the
    first condition, which may be the arguments of a function named WHEN
    (`Whole.Callable`), and a result with branches behind it, which may run into
    them (`Whole.Stands`).  If one of these is not read again there is no CASE at
    all (`Composed.read`).  Of the results this is seen from the last branch on:
    where one has run into the branches behind it they end with the text, or are
    no branches either. -/

namespace QueryReplay.Sql

open QueryReplay.Sql.Parser QueryReplay.Sql.ExprParser

/-! ## From a tighter place to a looser one -/

/-- What is read at a place is read at the next looser one if nothing goes on. -/
theorem parserAt_loosen {place : Nat} (hplace : place ≤ 6) {ts R : List Token} {v : Expr} {o : Bool}
    (hR : Halts place R) (hnot : keyword .not ts = none) (hminus : symbol .minus ts = none)
    (h : parserAt fullExpr (place + 1) ts = some ⟨v, R, o⟩) :
    ∃ o', parserAt fullExpr place ts = some ⟨v, R, o'⟩ := by
  have htakes := parserAt_takes fullExpr_takes (place + 1)
  cases hop : operatorAt place with
  | some op? =>
      rw [parserAt_chain hop]
      exact chain_of_repeats htakes h (.done (hR.operator (fun _ _ => operatorAt_binding hop) _))
  | none =>
      match place with
      | 0 | 1 | 4 | 5 => exact nomatch hop
      | 2 =>
          refine ⟨o, ?_⟩
          show negation fullExpr ts = _
          rw [negation_other hnot]
          exact h
      | 3 =>
          refine ⟨true, ?_⟩
          show predicate fullExpr ts = _
          rw [predicate_eq, show additive fullExpr ts = _ from h, Option.bind_some]
          dsimp only
          rw [hR.predicateTail]
      | 6 =>
          refine ⟨o, ?_⟩
          show signed fullExpr ts = _
          rw [signed, hminus]
          exact h

/-- A primary by itself is an expression. -/
theorem fullExpr_of_primary {ts : List Token} {v : Expr} {o : Bool}
    (hnot : keyword .not ts = none) (hminus : symbol .minus ts = none)
    (h : primary fullExpr ts = some ⟨v, [], o⟩) : ∃ o', fullExpr ts = some ⟨v, [], o'⟩ := by
  have hplaces : ∀ k ≤ 7, ∃ o', parserAt fullExpr (7 - k) ts = some ⟨v, [], o'⟩ := by
    intro k hk
    induction k with
    | zero => exact ⟨o, h⟩
    | succ k ih =>
        obtain ⟨o', hread⟩ := ih (by omega)
        rw [show 7 - k = 7 - (k + 1) + 1 by omega] at hread
        exact parserAt_loosen (by omega) halts_nil hnot hminus hread
  rw [fullExpr_eq]
  exact hplaces 7 (Nat.le_refl 7)

theorem fullExpr_of_no_primary {ts : List Token} (hnot : keyword .not ts = none)
    (hminus : symbol .minus ts = none) (h : primary fullExpr ts = none) : fullExpr ts = none := by
  have hnone : remainder (parserAt fullExpr 7) ts = none := remainder_none.mpr h
  rw [← remainder_none, remainder_fullExpr, remainder_ladder (Nat.le_refl 7) hnot hminus, hnone,
    Option.map_none]

/-- CASE begins nothing else if no parenthesis is opened behind it. -/
theorem primary_case {t : Token} (ht : t.kind = .keyword .case) {rest : List Token}
    (hopen : symbol .openParen rest = none) :
    primary fullExpr (t :: rest) = ExprParser.case fullExpr (t :: rest) := by
  have hliteral : literal (t :: rest) = none := by
    show (literal? t).map _ = none
    rw [literal?, ht, Option.map_none]
  have hcall : call fullExpr (t :: rest) = none := by
    rw [call_eq, inParens, hopen, Option.bind_none]
    cases t.functionName? <;> rfl
  rw [primary, orElse_none hliteral, Parser.orElse, call_of_word ht, hcall]
  cases ExprParser.case fullExpr (t :: rest) <;> rfl

/-! ## Expressions by themselves and in front of something -/

/-- Tokens that are an expression. -/
structure Whole where
  tokens : List Token
  value : Expr
  reads : ∃ o, fullExpr tokens = some ⟨value, [], o⟩

/-- The expression stands in front of `R`, with any gap between. -/
def Whole.Before (w : Whole) (R ts : List Token) : Prop :=
  Twin [] R 0 w.tokens.length w.tokens ts

/-- In front of branches the expression ends where it does by itself. -/
def Whole.Stands (w : Whole) : Prop :=
  ∀ {R ts : List Token}, caseTail fullExpr R ≠ none → w.Before R ts →
    ∃ o, fullExpr ts = some ⟨w.value, R, o⟩

/-- The expression could be the arguments of a function. -/
def Whole.Callable (w : Whole) : Prop :=
  inParens (argumentList fullExpr) w.tokens ≠ none

theorem calm_of_tail {ts : List Token} (h : caseTail fullExpr ts ≠ none) : Calm 0 ts := by
  obtain ⟨u, hu⟩ := Option.ne_none_iff_exists'.mp h
  obtain ⟨t, more, rfl, ht⟩ := when_of_tail hu
  exact calm_keyword ht rfl more

/-- Two that are twins of the same tokens are twins. -/
theorem Twin.join {Q R R' : List Token} {n m : Nat} {ts us us' : List Token}
    (h : Twin Q R n m ts us) (h' : Twin Q R' n m ts us') : Twin R R' n m us us' := by
  induction h generalizing us' with
  | done =>
      obtain ⟨-, -, rfl⟩ := h'.eq_zero
      exact .done
  | @last n t t' hkind hlexeme hends hlevel =>
      obtain ⟨_, t'', rest', n', hsize, rfl, hkind', hlexeme', -, hrest, -, -⟩ :=
        h'.tail (Nat.succ_pos 0)
      obtain rfl := Nat.succ.inj hsize
      obtain ⟨-, -, rfl⟩ := hrest.eq_zero
      refine .last (hkind'.trans hkind.symm) (hlexeme'.trans hlexeme.symm) ?_ ?_
      · rw [Token.endsPhrase, hkind]
        exact hends
      · rw [Token.level?, Token.isSymbol, Token.isSymbol, hkind]
        exact hlevel
  | more hlevel _ ih =>
      obtain ⟨_, t', rest', n', hsize, rfl, -, -, hlevel', hrest, -, hsame⟩ :=
        h'.tail (Nat.succ_pos _)
      obtain rfl := Nat.succ.inj hsize
      obtain rfl := hsame (Nat.succ_pos _)
      obtain rfl := Option.some.inj (hlevel.symm.trans hlevel')
      exact .more hlevel (ih hrest)

namespace Whole

variable {w : Whole} {R ts : List Token}

theorem pos (w : Whole) : 0 < w.tokens.length := by
  obtain ⟨o, h⟩ := w.reads
  exact fullExpr_takes.shorter _ _ h

/-- In front of anything that goes on with nothing and has no branches it is read. -/
theorem read_before (h : w.Before R ts) (hR : Calm 0 R) (hnone : caseTail fullExpr R = none) :
    ∃ o, fullExpr ts = some ⟨w.value, R, o⟩ := by
  obtain ⟨o, hread⟩ := w.reads
  rw [fullExpr_eq] at hread ⊢
  exact (carries False _ (Nat.zero_le 7) h calm_nil hR (.inr fun _ => .inl hnone) hread).resolve_right
    fun h => h.1

/-- In front of branches with nothing behind them it is read, or its end is lost. -/
theorem read_or_lost (h : w.Before R ts) (hR : Calm 0 R) (hbranches : Branchless True R) :
    (∃ o, fullExpr ts = some ⟨w.value, R, o⟩)
      ∨ ∃ v rest o, fullExpr ts = some ⟨v, rest, o⟩ ∧ Lost 0 rest := by
  obtain ⟨o, hread⟩ := w.reads
  rw [fullExpr_eq] at hread ⊢
  exact (carries True _ (Nat.zero_le 7) h calm_nil hR (.inr fun _ => hbranches) hread).imp id
    fun h => h.2

/-- It stands in front of all branches if it does in front of some. -/
theorem stands_of_read (h : w.Before R ts) (htail : caseTail fullExpr R ≠ none) {o : Bool}
    (hread : fullExpr ts = some ⟨w.value, R, o⟩) : w.Stands := by
  intro R' ts' htail' h'
  rw [fullExpr_eq] at hread ⊢
  exact (carries False _ (Nat.zero_le 7) (h.join h') (calm_of_tail htail) (calm_of_tail htail')
    (.inr fun hnone => absurd hnone htail) hread).resolve_right fun h => h.1

/-- It stands in front of branches if no function in it is called CASE. -/
theorem stands_of_caseFree (hfree : CaseFree [] w.tokens) : w.Stands := by
  intro R ts htail h
  obtain ⟨o, hread⟩ := w.reads
  rw [fullExpr_eq] at hread ⊢
  exact (carries False _ (Nat.zero_le 7) h calm_nil (calm_of_tail htail) (.inl hfree)
    hread).resolve_right fun h => h.1

/-- The arguments of a function begin with a parenthesis. -/
theorem Callable.open (h : w.Callable) :
    ∃ p inside, w.tokens = p :: inside ∧ p.kind = .symbol .openParen := by
  obtain ⟨u, hu⟩ := Option.ne_none_iff_exists'.mp h
  obtain ⟨p, us, c, htokens, hp, -, -⟩ := inParens_some (argumentList_balances fullExpr_takes) hu
  exact ⟨p, _, htokens, hp⟩

end Whole

/-! ## WHEN in front of an expression -/

/-- A reserved word names a function in front of the arguments of one. -/
theorem call_word_none {t : Token} {k : Keyword} (ht : t.kind = .keyword k) (ts : List Token) :
    call fullExpr (t :: ts) = none ↔ inParens (argumentList fullExpr) ts = none := by
  rw [call_eq, Token.functionName?, ht, Option.bind_some]
  cases inParens (argumentList fullExpr) ts with
  | none => exact iff_of_true rfl rfl
  | some u => exact iff_of_false nofun nofun

/-- A call of WHEN ends where the expression in front of which it stands does. -/
theorem remainder_when {t : Token} (ht : t.kind = .keyword .when) {ts : List Token} {e u : Taken Expr}
    (he : fullExpr ts = some e) (hu : call fullExpr (t :: ts) = some u) :
    remainder fullExpr (t :: ts) = some e.rest := by
  obtain ⟨p, inside, rfl, hp⟩ := call_open hu
  have hnot : keyword .not (t :: p :: inside) = none := keyword_other (by rw [ht]; decide) _
  have hminus : symbol .minus (t :: p :: inside) = none := symbol_other (by rw [ht]; decide) _
  have hwhole := fullExpr_open hp inside
  rw [remainder_of_some he] at hwhole
  obtain ⟨after, hafter, hend⟩ := Option.map_eq_some_iff.mp hwhole.symm
  obtain ⟨w, o, hw⟩ := remainder_some hafter
  have hafter' : after = u.rest := call_rest fullExpr_takes hu hw
  have hprimary : remainder (primary fullExpr) (t :: p :: inside) = some u.rest := by
    rw [remainder, primary_word (.inr rfl) ht, hu, Option.map_some]
  rw [remainder_fullExpr, remainder_ladder (Nat.le_refl 7) hnot hminus,
    show remainder (parserAt fullExpr 7) (t :: p :: inside) = some u.rest from hprimary,
    Option.map_some, ← hafter', hend]

/-- WHEN and an expression are one where that could be arguments, and only there. -/
theorem Whole.when_before {w : Whole} {t : Token} (ht : t.kind = .keyword .when) {R ts : List Token}
    (h : w.Before R ts) : fullExpr (t :: ts) = none ↔ ¬w.Callable := by
  have harguments := inParens_twins argumentList_enclosable w.pos h
  rw [fullExpr_when ht, call_word_none ht, Whole.Callable, not_not]
  refine ⟨fun hnone => ?_, fun hnone => ?_⟩
  · cases hread : inParens (argumentList fullExpr) w.tokens with
    | none => rfl
    | some u =>
        rw [hread] at harguments
        obtain ⟨u', hu', -⟩ := harguments.of_some
        exact nomatch hu'.symm.trans hnone
  · rw [hnone] at harguments
    exact harguments.of_none

/-! ## Branches one behind the other -/

section Tails

variable {nested : Parser Expr} (htakes : Takes nested) {ts us rest : List Token} {b : Expr × Expr}
  {o o' : Bool} (hbranch : branch nested ts = some ⟨b, us, o⟩)
include htakes hbranch

theorem caseTail_more {v : List (Expr × Expr) × Option Expr}
    (h : caseTail nested us = some ⟨v, rest, o'⟩) :
    caseTail nested ts = some ⟨(b :: v.1, v.2), rest, false⟩ := by
  obtain ⟨b', bs, Q, last, rfl, hbranches, hlast, rfl⟩ := caseTail_some htakes h
  exact caseTail_of_repeats htakes (.next hbranch hbranches) hlast

theorem caseTail_last {e : Option Expr} (h : closing nested us = some ⟨e, rest, o'⟩) :
    caseTail nested ts = some ⟨([b], e), rest, false⟩ :=
  caseTail_of_repeats htakes (.next hbranch (.done (branch_other (when_of_closing h)))) h

/-- A branch with neither branches nor an end behind it is none of a CASE. -/
theorem caseTail_none_behind (hnone : caseTail nested us = none) (hclosing : closing nested us = none) :
    caseTail nested ts = none := by
  cases htail : caseTail nested ts with
  | none => rfl
  | some u =>
      obtain ⟨b', bs, Q, last, -, hbranches, hlast, -⟩ := caseTail_some htakes htail
      cases hbranches with
      | next hfirst hmore =>
          obtain ⟨-, rfl, -⟩ := Taken.mk.inj (Option.some.inj (hbranch.symm.trans hfirst))
          cases bs with
          | nil =>
              cases hmore with
              | done _ => exact nomatch hclosing.symm.trans hlast
          | cons b'' bs =>
              exact nomatch hnone.symm.trans (caseTail_of_repeats htakes hmore hlast)

end Tails

theorem closing_none {nested : Parser Expr} {ts : List Token} (helse : keyword .else ts = none)
    (hend : keyword .end ts = none) : closing nested ts = none := by
  rw [closing_end helse, hend, Option.bind_none]

/-! ## A CASE of expressions -/

/-- Branches, ELSE and END with the expressions between them. -/
inductive Composed : List (Whole × Whole) → Option Whole → List Token → Prop
  | end {t : Token} (ht : t.kind = .keyword .end) : Composed [] none [t]
  | else {t t' : Token} {e : Whole} {us : List Token} (ht : t.kind = .keyword .else)
      (ht' : t'.kind = .keyword .end) (he : e.Before [t'] us) : Composed [] (some e) (t :: us)
  | when {t t' : Token} {c r : Whole} {us behind ts : List Token} {bs : List (Whole × Whole)}
      {e : Option Whole} (ht : t.kind = .keyword .when) (ht' : t'.kind = .keyword .then)
      (hc : c.Before (t' :: behind) us) (hr : r.Before ts behind) (h : Composed bs e ts) :
      Composed ((c, r) :: bs) e (t :: us)

/-- What the branches say. -/
def valuesOf (bs : List (Whole × Whole)) : List (Expr × Expr) := bs.map fun b => (b.1.value, b.2.value)

/-- The results with branches behind them stand there. -/
def AllStand (bs : List (Whole × Whole)) : Prop := ∀ b ∈ bs.dropLast, b.2.Stands

theorem allStand_cons {c r : Whole} {b : Whole × Whole} {bs : List (Whole × Whole)} :
    AllStand ((c, r) :: b :: bs) ↔ r.Stands ∧ AllStand (b :: bs) := by
  unfold AllStand
  rw [List.dropLast_cons_cons, List.forall_mem_cons]

namespace Composed

variable {bs : List (Whole × Whole)} {e : Option Whole} {ts : List Token}

theorem opens {b : Whole × Whole} (h : Composed (b :: bs) e ts) : keyword .when ts ≠ none := by
  cases h with
  | @when t _ _ _ us _ _ _ _ ht _ _ _ _ =>
      rw [show keyword .when (t :: us) = some us from if_pos (beq_iff_eq.mpr ht)]
      exact nofun

theorem calm (h : Composed bs e ts) : Calm 0 ts := by
  cases h with
  | «end» ht => exact calm_keyword ht rfl _
  | «else» ht _ _ => exact calm_keyword ht rfl _
  | when ht _ _ _ _ => exact calm_keyword ht rfl _

theorem closing (h : Composed [] e ts) :
    closing fullExpr ts = some ⟨e.map Whole.value, [], false⟩ := by
  cases h with
  | @«end» t ht =>
      have hend : keyword .end [t] = some [] := if_pos (beq_iff_eq.mpr ht)
      rw [closing_end (keyword_other (by rw [ht]; decide) []), hend]
      rfl
  | @«else» t t' e us ht ht' he =>
      have helse : keyword .else (t :: us) = some us := if_pos (beq_iff_eq.mpr ht)
      have hend : keyword .end [t'] = some [] := if_pos (beq_iff_eq.mpr ht')
      obtain ⟨o, hread⟩ := Whole.read_before he (calm_keyword ht' rfl [])
        (caseTail_other (keyword_other (by rw [ht']; decide) []))
      rw [closing_else helse, hread, Option.bind_some, hend]
      rfl

/-- Branches are read up to the end if every result stands that has to; else
    there are none. -/
theorem caseTail (h : Composed bs e ts) (hne : bs ≠ []) :
    Sql.caseTail fullExpr ts = some ⟨(valuesOf bs, e.map Whole.value), [], false⟩ ∧ AllStand bs
      ∨ Sql.caseTail fullExpr ts = none ∧ ¬AllStand bs := by
  -- By the branches, the last one first: a branch can only be lost to what is behind it if that
  -- reads as branches itself, which is what the induction says about the rest.
  induction h with
  | «end» _ => exact absurd rfl hne
  | «else» _ _ _ => exact absurd rfl hne
  | @when t t' c r us behind ts bs e ht ht' hc hr h ih =>
      have hwhen : keyword .when (t :: us) = some us := if_pos (beq_iff_eq.mpr ht)
      have hthen : keyword .then (t' :: behind) = some behind := if_pos (beq_iff_eq.mpr ht')
      obtain ⟨oc, hcRead⟩ := Whole.read_before hc (calm_keyword ht' rfl behind)
        (caseTail_other (keyword_other (by rw [ht']; decide) behind))
      have hbranch : ∀ {v : Expr} {rest : List Token} {o : Bool},
          fullExpr behind = some ⟨v, rest, o⟩ →
          branch fullExpr (t :: us) = some ⟨(c.value, v), rest, o⟩ := by
        intro v rest o hread
        rw [branch_eq, hwhen, Option.bind_some, hcRead, Option.bind_some, hthen, Option.bind_some,
          hread, Option.bind_some]
      cases bs with
      | nil =>
          have hclosing := h.closing
          obtain ⟨o, hread⟩ := Whole.read_before hr h.calm
            (caseTail_other (when_of_closing hclosing))
          exact .inl ⟨caseTail_last fullExpr_takes (hbranch hread) hclosing, nofun⟩
      | cons b bs =>
          have hclosing : Sql.closing fullExpr ts = none :=
            Option.eq_none_iff_forall_ne_some.mpr fun _ hlast => h.opens (when_of_closing hlast)
          have ih := ih (List.cons_ne_nil b bs)
          -- whether the rest is read or not, nothing of it is left as branches
          have hbranchless : Branchless True ts := by
            rcases ih with ⟨hsome, -⟩ | ⟨hnone, -⟩
            · exact .inr ⟨trivial, _, _, hsome⟩
            · exact .inl hnone
          -- the value of this branch stops in front of the rest, or swallows it
          rcases Whole.read_or_lost hr h.calm hbranchless with ⟨o, hread⟩ | ⟨v, rest, o, hread, hlost⟩
          · rcases ih with ⟨hsome, hstand⟩ | ⟨hnone, hstand⟩
            · exact .inl ⟨caseTail_more fullExpr_takes (hbranch hread) hsome, allStand_cons.mpr
                ⟨Whole.stands_of_read hr (fun hnone => nomatch hsome.symm.trans hnone) hread, hstand⟩⟩
            · exact .inr ⟨caseTail_none_behind fullExpr_takes (hbranch hread) hnone hclosing,
                fun h => hstand (allStand_cons.mp h).2⟩
          · have hnone := caseTail_none_behind fullExpr_takes (hbranch hread)
              (caseTail_other (hlost.keyword (by decide)))
              (closing_none (hlost.keyword (by decide)) (hlost.keyword (by decide)))
            refine .inr ⟨hnone, fun hall => ?_⟩
            obtain ⟨hr', hstand⟩ := allStand_cons.mp hall
            rcases ih with ⟨hsome, -⟩ | ⟨-, hnot⟩
            · obtain ⟨o', hread'⟩ := hr' (fun hnone => nomatch hsome.symm.trans hnone) hr
              obtain ⟨-, rfl, -⟩ := Taken.mk.inj (Option.some.inj (hread.symm.trans hread'))
              exact h.opens (hlost.keyword (by decide))
            · exact hnot hstand

/-- CASE in front of its branches is read as it is written, or is no expression. -/
theorem read {c r : Whole} (h : Composed ((c, r) :: bs) e ts) {t : Token}
    (ht : t.kind = .keyword .case) :
    (∃ o, fullExpr (t :: ts)
        = some ⟨.case none (valuesOf ((c, r) :: bs)) (e.map Whole.value), [], o⟩)
        ∧ ¬c.Callable ∧ AllStand ((c, r) :: bs)
      ∨ fullExpr (t :: ts) = none ∧ ¬(¬c.Callable ∧ AllStand ((c, r) :: bs)) := by
  have hcase : keyword .case (t :: ts) = some ts := if_pos (beq_iff_eq.mpr ht)
  have hnot : keyword .not (t :: ts) = none := keyword_other (by rw [ht]; decide) ts
  have hminus : symbol .minus (t :: ts) = none := symbol_other (by rw [ht]; decide) ts
  have htail := h.caseTail (List.cons_ne_nil _ _)
  cases h with
  | @when w t' _ _ us behind _ _ _ hw ht' hc hr h =>
      have hprimary : primary fullExpr (t :: w :: us) = ExprParser.case fullExpr (t :: w :: us) :=
        primary_case ht (symbol_other (by rw [hw]; decide) us)
      have hnone : ExprParser.case fullExpr (t :: w :: us) = none → fullExpr (t :: w :: us) = none :=
        fun hnone => fullExpr_of_no_primary hnot hminus (hprimary.trans hnone)
      -- A first condition in parentheses makes a call of CASE WHEN, an operand with nothing
      -- behind it to close it; any other leaves WHEN to the branches.
      by_cases hcallable : c.Callable
      · refine .inr ⟨hnone ?_, fun h => h.1 hcallable⟩
        obtain ⟨u, hu⟩ := Option.ne_none_iff_exists'.mp
          (mt (Whole.when_before hw hc).mp (not_not.mpr hcallable))
        obtain ⟨o, hread⟩ := Whole.read_before hc (calm_keyword ht' rfl behind)
          (caseTail_other (keyword_other (by rw [ht']; decide) behind))
        obtain ⟨k, hk⟩ := Option.ne_none_iff_exists'.mp
          (mt (fullExpr_when hw us).mpr (fun hnone => nomatch hu.symm.trans hnone))
        have hrest := remainder_when hw hread hk
        rw [remainder_of_some hu] at hrest
        rw [case_behind_operand hcase hu, Option.some.inj hrest,
          caseTail_other (keyword_other (by rw [ht']; decide) behind), Option.bind_none]
      · have hoperand := (Whole.when_before hw hc).mpr hcallable
        have hread := case_without_operand hcase hoperand
        rcases htail with ⟨hsome, hstand⟩ | ⟨hnothing, hstand⟩
        · rw [hsome, Option.bind_some] at hread
          exact .inl ⟨fullExpr_of_primary hnot hminus (hprimary.trans hread), hcallable, hstand⟩
        · rw [hnothing, Option.bind_none] at hread
          exact .inr ⟨hnone hread, fun h => hstand h.2⟩

end Composed

end QueryReplay.Sql
