import QueryReplay.Proofs.Carrying

/-! # Branches — CASE in front of something else

    What is read between CASE and END is read in front of a keyword that says
    what comes next, and a result is read in front of WHEN only if branches are
    read from there on.  So a CASE that is read up to `R` is read up to `R'`, and
    if none is read in front of `R` one in front of `R'` needs branches there
    (`case_none_carried`).  With that, expressions of every place and size are
    carried over (`carries`). -/

namespace QueryReplay.Sql

open QueryReplay.Sql.Parser QueryReplay.Sql.ExprParser

/-! ## The parts of CASE -/

section Parts

variable {nested : Parser Expr} {ts rest us : List Token}

theorem afterKeyword_of {k : Keyword} (h : keyword k ts = some rest) :
    afterKeyword k nested ts = nested rest := by
  unfold afterKeyword
  rw [h]

theorem afterKeyword_none {k : Keyword} (h : keyword k ts = none) :
    afterKeyword k nested ts = none := by
  unfold afterKeyword
  rw [h]

theorem branch_eq (nested : Parser Expr) (ts : List Token) : branch nested ts
    = (keyword .when ts).bind fun rest => (nested rest).bind fun c =>
      (keyword .then c.rest).bind fun behind => (nested behind).bind fun r =>
        some ⟨(c.value, r.value), r.rest, r.open?⟩ := by
  unfold branch
  cases hwhen : keyword .when ts with
  | none => rw [afterKeyword_none hwhen]; rfl
  | some rest =>
      rw [afterKeyword_of hwhen, Option.bind_some]
      refine congrArg _ (funext fun c => ?_)
      cases hthen : keyword .then c.rest with
      | none => rw [afterKeyword_none hthen]; rfl
      | some behind => rw [afterKeyword_of hthen]; rfl

theorem case_other (h : keyword .case ts = none) : ExprParser.case nested ts = none := by
  rw [case_eq, h, Option.bind_none]

/-- A CASE begins with its keyword. -/
theorem keyword_of_case {u : Taken Expr} (h : ExprParser.case nested ts = some u) :
    ∃ rest, keyword .case ts = some rest := by
  rw [case_eq] at h
  obtain ⟨rest, hcase, -⟩ := Option.bind_eq_some_iff.mp h
  exact ⟨rest, hcase⟩

/-- Where no expression stands behind CASE its tail does. -/
theorem case_without_operand (hcase : keyword .case ts = some rest) (h : nested rest = none) :
    ExprParser.case nested ts = (caseTail nested rest).bind fun u =>
      some ⟨.case none u.value.1 u.value.2, u.rest, false⟩ := by
  rw [case_eq, hcase, Option.bind_some, ExprParser.optional, h]

/-- Otherwise the expression is its operand, for good. -/
theorem case_behind_operand (hcase : keyword .case ts = some rest) {e : Taken Expr}
    (h : nested rest = some e) : ExprParser.case nested ts
      = (caseTail nested e.rest).bind fun u =>
        some ⟨.case (some e.value) u.value.1 u.value.2, u.rest, false⟩ := by
  rw [case_eq, hcase, Option.bind_some, ExprParser.optional, h]

/-- Without ELSE there is END. -/
theorem closing_end (h : keyword .else ts = none) : closing nested ts
    = (keyword .end ts).bind fun after => some ⟨none, after, false⟩ := by
  have hoptional : ExprParser.optional (afterKeyword .else nested) ts = (none, ts) := by
    rw [ExprParser.optional, afterKeyword_none h]
  rw [closing, hoptional]

/-- Behind ELSE there is an expression and END. -/
theorem closing_else (h : keyword .else ts = some rest) : closing nested ts
    = (nested rest).bind fun e => (keyword .end e.rest).bind fun after =>
      some ⟨some e.value, after, false⟩ := by
  unfold closing ExprParser.optional
  rw [afterKeyword_of h]
  cases nested rest with
  | some e => rfl
  | none =>
      obtain ⟨t, rfl, ht⟩ := keyword_some h
      show (keyword .end (t :: rest)).bind _ = none
      rw [keyword_other (by rw [ht]; decide), Option.bind_none]

/-- What closes a CASE begins with ELSE or END. -/
theorem closing_head {u : Taken (Option Expr)} (h : closing nested ts = some u) :
    ∃ t more, ts = t :: more ∧ (t.kind = .keyword .else ∨ t.kind = .keyword .end) := by
  cases helse : keyword .else ts with
  | some rest =>
      obtain ⟨t, rfl, ht⟩ := keyword_some helse
      exact ⟨t, rest, rfl, .inl ht⟩
  | none =>
      rw [closing_end helse] at h
      obtain ⟨after, hend, -⟩ := Option.bind_eq_some_iff.mp h
      obtain ⟨t, rfl, ht⟩ := keyword_some hend
      exact ⟨t, after, rfl, .inr ht⟩

theorem closing_shorter (htakes : Takes nested) {u : Taken (Option Expr)}
    (h : closing nested ts = some u) : u.rest.length < ts.length := by
  obtain ⟨after, hend, h⟩ := Option.bind_eq_some_iff.mp h
  obtain rfl := Option.some.inj h
  obtain ⟨used, hused, -⟩ := optional_run (afterKeyword_takes htakes .else) ts
  have hlength := congrArg List.length hused
  rw [List.length_append, keyword_shorter hend] at hlength
  dsimp only
  omega

/-- A tail of CASE is a branch, more branches, and what closes them. -/
theorem caseTail_some (htakes : Takes nested) {u : Taken (List (Expr × Expr) × Option Expr)}
    (h : caseTail nested ts = some u) : ∃ b bs Q last, u.value = (b :: bs, last.value)
      ∧ Repeats (branch nested) Q ts (b :: bs) ∧ closing nested Q = some last
      ∧ last.rest = u.rest := by
  obtain ⟨first, hfirst, h⟩ := Option.bind_eq_some_iff.mp h
  obtain ⟨last, hlast, h⟩ := Option.bind_eq_some_iff.mp h
  obtain rfl := Option.some.inj h
  exact ⟨first.value, _, _, last, rfl,
    .next hfirst (repeats_many (branch_takes htakes).shorter first.rest), hlast, rfl⟩

/-- A tail begins with WHEN. -/
theorem when_of_tail {u : Taken (List (Expr × Expr) × Option Expr)}
    (h : caseTail nested ts = some u) : ∃ t more, ts = t :: more ∧ t.kind = .keyword .when := by
  cases hwhen : keyword .when ts with
  | none =>
      rw [caseTail_other hwhen] at h
      exact nomatch h
  | some more =>
      obtain ⟨t, rfl, ht⟩ := keyword_some hwhen
      exact ⟨t, more, rfl, ht⟩

theorem caseTail_shorter (htakes : Takes nested) {u : Taken (List (Expr × Expr) × Option Expr)}
    (h : caseTail nested ts = some u) : u.rest.length < ts.length := by
  obtain ⟨b, bs, Q, last, -, hbranches, hlast, hrest⟩ := caseTail_some htakes h
  have hlength := hbranches.length_le (branch_takes htakes).shorter
  have hshorter := closing_shorter htakes hlast
  rw [hrest] at hshorter
  omega

/-- Branches behind one another, with the closing behind the last. -/
theorem caseTail_of_repeats (htakes : Takes nested) {b : Expr × Expr} {bs : List (Expr × Expr)}
    {Q : List Token} {last : Taken (Option Expr)} (h : Repeats (branch nested) Q ts (b :: bs))
    (hlast : closing nested Q = some last) :
    caseTail nested ts = some ⟨(b :: bs, last.value), last.rest, false⟩ := by
  cases h with
  | next hfirst hmore =>
      obtain ⟨o, hmany⟩ := many_of_repeats (branch_takes htakes).shorter hmore
      rw [caseTail, hfirst, Option.bind_some, hmany, hlast]
      rfl

theorem when_of_closing {u : Taken (Option Expr)} (h : closing nested ts = some u) :
    keyword .when ts = none := by
  obtain ⟨t, more, rfl, ht | ht⟩ := closing_head h
  · exact keyword_other (by rw [ht]; decide) more
  · exact keyword_other (by rw [ht]; decide) more

/-- So does a branch. -/
theorem when_of_branch {b : Taken (Expr × Expr)} (h : branch nested ts = some b) :
    ∃ t more, ts = t :: more ∧ t.kind = .keyword .when := by
  rw [branch_eq] at h
  obtain ⟨rest, hwhen, -⟩ := Option.bind_eq_some_iff.mp h
  obtain ⟨t, rfl, ht⟩ := keyword_some hwhen
  exact ⟨t, rest, rfl, ht⟩

variable {bs : List (Expr × Expr)} {Q : List Token} {last : Taken (Option Expr)}

/-- Branches and what closes them go on with nothing. -/
theorem Repeats.calm_branches (h : Repeats (branch nested) Q ts bs)
    (hlast : closing nested Q = some last) : Calm 0 ts := by
  cases h with
  | done _ =>
      obtain ⟨t, more, rfl, ht | ht⟩ := closing_head hlast
      · exact calm_keyword ht rfl more
      · exact calm_keyword ht rfl more
  | next h _ =>
      obtain ⟨t, more, rfl, ht⟩ := when_of_branch h
      exact calm_keyword ht rfl more

/-- Where as many branches are read there is a tail of CASE in both or in neither. -/
theorem Repeats.no_tail (htakes : Takes nested) {us Q' : List Token} {last' : Taken (Option Expr)}
    (h : Repeats (branch nested) Q ts bs) (hlast : closing nested Q = some last)
    (h' : Repeats (branch nested) Q' us bs) (hlast' : closing nested Q' = some last')
    (hnone : caseTail nested ts = none) : caseTail nested us = none := by
  cases bs with
  | nil =>
      cases h' with
      | done _ => exact caseTail_other (when_of_closing hlast')
  | cons b bs =>
      rw [caseTail_of_repeats htakes h hlast] at hnone
      exact nomatch hnone

end Parts

/-! ## Carrying the parts over -/

section Carried

variable {m : Nat} (hexpr : ∀ j < m, Carries False 0 j) {R R' us us' : List Token} {j : Nat}
  (htwin : Twin R R' 0 j us us')
include hexpr htwin

section Inner

variable (hj : j < m)
include hj

/-- An expression inside CASE is carried over. -/
theorem inner_carried (hR : Calm 0 R) (hR' : Calm 0 R')
    (hbranches : caseTail fullExpr R = none → caseTail fullExpr R' = none) {e : Expr} {o : Bool}
    (h : fullExpr us = some ⟨e, R, o⟩) : ∃ o', fullExpr us' = some ⟨e, R', o'⟩ := by
  rw [fullExpr_eq] at h ⊢
  exact (hexpr j hj htwin hR hR' (.inr fun hnone => .inl (hbranches hnone)) h).resolve_right
    fun h => h.1

/-- So is one in front of a word of CASE other than WHEN. -/
theorem inner_carried_word {k : Keyword} (hk : k = .then ∨ k = .end) {t t' : Token}
    {Q Q' : List Token} (ht : t.kind = .keyword k) (ht' : t'.kind = .keyword k)
    (hR : R = t :: Q) (hR' : R' = t' :: Q') {e : Expr} {o : Bool}
    (h : fullExpr us = some ⟨e, R, o⟩) : ∃ o', fullExpr us' = some ⟨e, R', o'⟩ := by
  have hbinding : (TokenKind.keyword k).binding? = none := by rcases hk with rfl | rfl <;> rfl
  subst hR hR'
  refine inner_carried hexpr htwin hj (calm_keyword ht hbinding Q) (calm_keyword ht' hbinding Q')
    (fun _ => ?_) h
  refine caseTail_other (keyword_other ?_ Q')
  rcases hk with rfl | rfl <;> (rw [ht']; decide)

end Inner

variable (hj : j ≤ m)
include hj

/-- What closes a CASE ends with END, so nothing behind it matters. -/
theorem closing_carried {e : Option Expr} {o : Bool} (h : closing fullExpr us = some ⟨e, R, o⟩) :
    ∃ o', closing fullExpr us' = some ⟨e, R', o'⟩ := by
  have hshorter := closing_shorter fullExpr_takes h
  have hsize := htwin.length.1
  have hpos : ∀ {P : Prop}, j = 0 → P := fun hz => absurd hshorter (by dsimp only; omega)
  have helses := keyword_twins (k := .else) htwin hpos
  -- END alone stands in both; behind ELSE the value is carried up to the END behind it
  cases helse : keyword .else us with
  | none =>
      rw [helse] at helses
      rw [closing_end helse] at h
      rw [closing_end helses.of_none]
      obtain ⟨after, hend, h⟩ := Option.bind_eq_some_iff.mp h
      obtain ⟨rfl, rfl, -⟩ := Taken.mk.inj (Option.some.inj h)
      have hends := keyword_twins (k := .end) htwin hpos
      rw [hend] at hends
      obtain ⟨after', hend', i, -, -, hafter⟩ := hends.of_some
      rw [hend', hafter.reached.2]
      exact ⟨_, rfl⟩
  | some rest =>
      rw [helse] at helses
      obtain ⟨rest', helse', i, hi, -, hrest⟩ := helses.of_some
      rw [closing_else helse] at h
      rw [closing_else helse']
      obtain ⟨u, hu, h⟩ := Option.bind_eq_some_iff.mp h
      obtain ⟨after, hend, h⟩ := Option.bind_eq_some_iff.mp h
      obtain ⟨rfl, rfl, -⟩ := Taken.mk.inj (Option.some.inj h)
      obtain ⟨uRest', l, n, hsum, -, hendTwin, huTwin, -⟩ :=
        hrest.taken fullExpr_takes hu (Nat.le_of_lt ((keyword_shorter hend).symm ▸ Nat.lt_succ_self _))
      have hends := keyword_twins (k := .end) hendTwin (fun hz => by
        have hlength := hendTwin.length.1
        rw [keyword_shorter hend] at hlength
        omega)
      rw [hend] at hends
      obtain ⟨after', hend', i', -, -, hafter⟩ := hends.of_some
      obtain ⟨t, ht, hkind⟩ := keyword_some hend
      obtain ⟨t', ht', hkind'⟩ := keyword_some hend'
      obtain ⟨o', hu'⟩ := inner_carried_word hexpr huTwin (by omega) (.inr rfl) hkind hkind' ht ht' hu
      rw [hu', Option.bind_some, hend', hafter.reached.2]
      exact ⟨_, rfl⟩

/-- A branch is carried over if what comes next can be, as the end of a result. -/
theorem branch_carried (hR : Calm 0 R) (hR' : Calm 0 R')
    (hbranches : caseTail fullExpr R = none → caseTail fullExpr R' = none) {b : Expr × Expr}
    {o : Bool} (h : branch fullExpr us = some ⟨b, R, o⟩) :
    ∃ o', branch fullExpr us' = some ⟨b, R', o'⟩ := by
  rw [branch_eq] at h ⊢
  obtain ⟨rest, hwhen, h⟩ := Option.bind_eq_some_iff.mp h
  obtain ⟨c, hc, h⟩ := Option.bind_eq_some_iff.mp h
  obtain ⟨behind, hthen, h⟩ := Option.bind_eq_some_iff.mp h
  obtain ⟨r, hr, h⟩ := Option.bind_eq_some_iff.mp h
  obtain ⟨rfl, rfl, -⟩ := Taken.mk.inj (Option.some.inj h)
  have hrShorter := fullExpr_takes.shorter _ _ hr
  have hthenLength := keyword_shorter hthen
  have hcShorter := fullExpr_takes.shorter _ _ hc
  have hsize := htwin.length.1
  rw [keyword_shorter hwhen] at hsize
  have hwhens := keyword_twins (k := .when) htwin (fun hz => by omega)
  rw [hwhen] at hwhens
  obtain ⟨rest', hwhen', i, hi, -, hrest⟩ := hwhens.of_some
  -- the condition ends at the THEN on both sides, and the result goes up to the rest
  obtain ⟨cRest', l, n, hsum, -, hthenTwin, hcTwin, -⟩ := hrest.taken fullExpr_takes hc (by omega)
  have hthenSize := hthenTwin.length.1
  have hthens := keyword_twins (k := .then) hthenTwin (fun hz => by omega)
  rw [hthen] at hthens
  obtain ⟨behind', hthen', i', hi', -, hbehind⟩ := hthens.of_some
  obtain ⟨t, ht, hkind⟩ := keyword_some hthen
  obtain ⟨t', ht', hkind'⟩ := keyword_some hthen'
  obtain ⟨o', hc'⟩ := inner_carried_word hexpr hcTwin (by omega) (.inl rfl) hkind hkind' ht ht' hc
  obtain ⟨o'', hr'⟩ := inner_carried hexpr hbehind (by omega) hR hR' hbranches hr
  rw [hwhen', Option.bind_some, hc', Option.bind_some, hthen', Option.bind_some, hr']
  exact ⟨_, rfl⟩

/-- Branches are carried over with what closes them. -/
theorem branches_carried {Q : List Token} {bs : List (Expr × Expr)}
    (h : Repeats (branch fullExpr) Q us bs) {e : Option Expr} {o : Bool}
    (hlast : closing fullExpr Q = some ⟨e, R, o⟩) :
    ∃ Q' o', Repeats (branch fullExpr) Q' us' bs ∧ closing fullExpr Q' = some ⟨e, R', o'⟩ := by
  have htakes := branch_takes fullExpr_takes
  induction h generalizing j us' with
  | done _ =>
      obtain ⟨o', hlast'⟩ := closing_carried hexpr htwin hj hlast
      exact ⟨us', o', .done (branch_other (when_of_closing hlast')), hlast'⟩
  | @next us more b bs o hfirst hmore ih =>
      have hlength := hmore.length_le htakes.shorter
      have hlastLength := closing_shorter fullExpr_takes hlast
      dsimp only at hlastLength
      obtain ⟨more', i, l, hsum, -, hmoreTwin, hfirstTwin, -⟩ :=
        htwin.taken htakes hfirst (show R.length ≤ more.length by omega)
      obtain ⟨Q', o', hbehind, hlast'⟩ := ih hmoreTwin (by omega)
      obtain ⟨o'', hfirst'⟩ := branch_carried hexpr hfirstTwin (by omega)
        (hmore.calm_branches hlast) (hbehind.calm_branches hlast')
        (hmore.no_tail fullExpr_takes hlast hbehind hlast') hfirst
      exact ⟨Q', o', .next hfirst' hbehind, hlast'⟩

/-- A tail of CASE is carried over. -/
theorem caseTail_carried {v : List (Expr × Expr) × Option Expr} {o : Bool}
    (h : caseTail fullExpr us = some ⟨v, R, o⟩) :
    ∃ o', caseTail fullExpr us' = some ⟨v, R', o'⟩ := by
  obtain ⟨b, bs, Q, ⟨e, rest, o'⟩, rfl, hbranches, hlast, rfl⟩ := caseTail_some fullExpr_takes h
  obtain ⟨Q', o'', hbranches', hlast'⟩ := branches_carried hexpr htwin hj hbranches hlast
  exact ⟨false, caseTail_of_repeats fullExpr_takes hbranches' hlast'⟩

/-- A CASE is carried over. -/
theorem case_carried (hR : symbol .openParen R = none) (hR' : symbol .openParen R' = none)
    {v : Expr} {o : Bool} (h : ExprParser.case fullExpr us = some ⟨v, R, o⟩) :
    ∃ o', ExprParser.case fullExpr us' = some ⟨v, R', o'⟩ := by
  have hpos := htwin.pos_of_taken (case_takes fullExpr_takes) h (Nat.le_refl _)
  obtain ⟨rest, hcase⟩ := keyword_of_case h
  have hcases := keyword_twins (k := .case) htwin (fun hz => absurd hpos (by omega))
  rw [hcase] at hcases
  obtain ⟨rest', hcase', i, hi, hopen, hrest⟩ := hcases.of_some
  have hi0 : 0 < i := hopen rfl
  cases hoperand : fullExpr rest with
  | none =>
      rw [case_without_operand hcase hoperand] at h
      obtain ⟨w, htail, h⟩ := Option.bind_eq_some_iff.mp h
      obtain ⟨rfl, rfl, -⟩ := Taken.mk.inj (Option.some.inj h)
      obtain ⟨o', htail'⟩ := caseTail_carried hexpr hrest (by omega) htail
      -- WHEN is an operand in both or in neither
      obtain ⟨t, more, rfl, ht⟩ := when_of_tail htail
      obtain ⟨t', more', rfl, ht'⟩ := when_of_tail htail'
      have hcalls := call_twins_inside hi0 hR hR' hrest
      rw [(fullExpr_when ht more).mp hoperand] at hcalls
      rw [case_without_operand hcase' ((fullExpr_when ht' more').mpr hcalls.of_none), htail']
      exact ⟨_, rfl⟩
  | some e =>
      rw [case_behind_operand hcase hoperand] at h
      obtain ⟨w, htail, h⟩ := Option.bind_eq_some_iff.mp h
      obtain ⟨rfl, rfl, -⟩ := Taken.mk.inj (Option.some.inj h)
      obtain ⟨left', l, n, hsum, -, htailTwin, hoperandTwin, -⟩ :=
        hrest.taken fullExpr_takes hoperand (Nat.le_of_lt (caseTail_shorter fullExpr_takes htail))
      obtain ⟨o', htail'⟩ := caseTail_carried hexpr htailTwin (by omega) htail
      obtain ⟨t, more, hmore, ht⟩ := when_of_tail htail
      obtain ⟨t', more', rfl, ht'⟩ := when_of_tail htail'
      obtain ⟨o'', hoperand'⟩ := inner_carried hexpr hoperandTwin (by omega)
        (hmore ▸ calm_keyword ht rfl more) (calm_keyword ht' rfl more')
        (fun hnone => nomatch htail.symm.trans hnone) hoperand
      rw [case_behind_operand hcase' hoperand', htail']
      exact ⟨_, rfl⟩

end Carried

/-! ## A call of a function named CASE -/

/-- What CASE is in front of parentheses when a function may be named so. -/
theorem case_of_parens {t p : Token} {inside R : List Token} (ht : t.kind = .keyword .case)
    (hp : p.kind = .symbol .openParen) {v : Expr} {o : Bool}
    (hcall : call fullExpr (t :: p :: inside) = some ⟨v, R, o⟩) :
    (inParens fullExpr (p :: inside) = none ∧ ExprParser.case fullExpr (t :: p :: inside) = none)
      ∨ ((∃ w, inParens fullExpr (p :: inside) = some w)
        ∧ ∃ e, ExprParser.case fullExpr (t :: p :: inside)
          = (caseTail fullExpr (haltOf fullExpr 7 R)).bind fun u =>
            some ⟨.case (some e) u.value.1 u.value.2, u.rest, false⟩) := by
  have hcase : keyword .case (t :: p :: inside) = some (p :: inside) := if_pos (beq_iff_eq.mpr ht)
  have hwhole := fullExpr_open hp inside
  cases hparens : inParens fullExpr (p :: inside) with
  | none =>
      rw [remainder_none.mpr hparens, Option.map_none] at hwhole
      refine .inl ⟨rfl, ?_⟩
      rw [case_without_operand hcase (remainder_none.mp hwhole),
        caseTail_other (keyword_other (by rw [hp]; decide) inside), Option.bind_none]
  | some w =>
      rw [remainder_of_some hparens, call_rest fullExpr_takes hcall hparens] at hwhole
      obtain ⟨e, o, he⟩ := remainder_some hwhole
      refine .inr ⟨⟨w, rfl⟩, e, ?_⟩
      rw [case_behind_operand hcase he]

/-- If no CASE is read in front of `R` but a call, then one in front of `R'` has
    its branches there. -/
theorem case_none_carried {S : Prop} {m : Nat} {R R' ts ts' : List Token}
    (htwin : Twin R R' 0 m ts ts') (hR : symbol .openParen R = none)
    (hR' : symbol .openParen R' = none) (hdetached : Detached S 7 R R' ts)
    (hcase : ExprParser.case fullExpr ts = none) {v : Expr} {o : Bool}
    (hcall : call fullExpr ts = some ⟨v, R, o⟩) : ExprParser.case fullExpr ts' = none
      ∨ S ∧ ∃ w o, ExprParser.case fullExpr ts' = some ⟨w, [], o⟩ := by
  cases hread : ExprParser.case fullExpr ts' with
  | none => exact .inl rfl
  | some u =>
      have hm := htwin.pos_of_taken (call_takes fullExpr_takes) hcall (Nat.le_refl _)
      have hcalls := call_twins_inside hm hR hR' htwin
      rw [hcall] at hcalls
      obtain ⟨⟨v', left, o'⟩, hcall', -, i, -, -, hleft⟩ := hcalls.of_some
      obtain ⟨-, rfl⟩ := hleft.reached
      obtain ⟨rest', hrest'⟩ := keyword_of_case hread
      have hcases := keyword_twins (k := .case) htwin.symm fun hz => absurd hm (by omega)
      rw [hrest'] at hcases
      obtain ⟨rest, hrest, j, -, hopen, hinner⟩ := hcases.of_some
      obtain ⟨t, rfl, ht⟩ := keyword_some hrest
      obtain ⟨t', rfl, ht'⟩ := keyword_some hrest'
      obtain ⟨p, inside, rfl, hp⟩ := call_open hcall
      obtain ⟨p', inside', rfl, hp'⟩ := call_open hcall'
      -- CASE is the name of the call, so the parentheses behind it hold the same operand on both
      -- sides
      have hparens := inParens_twins fullExpr_enclosable (hopen rfl) hinner
      -- a CASE on the other side needs branches behind the parentheses, which stand in the rest
      rcases case_of_parens ht' hp' hcall' with ⟨-, hnone⟩ | ⟨⟨w, hw⟩, e, he⟩
      · exact nomatch hread.symm.trans hnone
      · rw [hw] at hparens
        obtain ⟨w', hw', -⟩ := hparens.of_some
        rcases case_of_parens ht hp hcall with ⟨hnone, -⟩ | ⟨-, e', he'⟩
        · exact nomatch hnone.symm.trans hw'
        · rcases hdetached with hfree | hbranches
          · obtain ⟨_, us, c, hbehind, -⟩ := inParens_some fullExpr_takes.balances hw'
            have hend : w'.rest = R := call_rest fullExpr_takes hcall hw'
            refine absurd hp (hfree t p inside (List.suffix_refl _) ?_ ht)
            rw [← hend, (List.cons.inj hbehind).2, List.length_append, List.length_cons]
            omega
          · rw [hcase] at he'
            rw [hread] at he
            have hnone : caseTail fullExpr (haltOf fullExpr 7 R) = none := by
              cases htail : caseTail fullExpr (haltOf fullExpr 7 R) with
              | none => rfl
              | some u => rw [htail] at he'; exact nomatch he'
            rcases hbranches hnone with hnone | ⟨hS, w, o, hsome⟩
            · rw [hnone, Option.bind_none] at he
              exact nomatch he
            · rw [hsome, Option.bind_some] at he
              exact .inr ⟨hS, _, _, he⟩

/-! ## Every place -/

/-- Primaries are carried over if shorter expressions are. -/
theorem carries_primary {S : Prop} {m : Nat} (hexpr : ∀ j < m, Carries False 0 j) :
    Carries S 7 m := by
  intro R R' ts ts' v o htwin hR hR' hdetached h
  have hm := htwin.pos_of_taken (primary_takes fullExpr_takes) h (Nat.le_refl _)
  have hpos : m = 0 → False := fun hz => absurd hm (hz ▸ Nat.lt_irrefl 0)
  have hcalls := call_twins_inside hm hR.unopened hR'.unopened htwin
  have hcolumns := column_twins (fun _ => hR.halts.qualifiedRest _)
    (fun _ => hR'.halts.qualifiedRest _) 0 m _ _ (Nat.lt_succ_self m) hpos htwin
  -- literals, calls, columns and parentheses are closed by their own tokens; only CASE can come
  -- apart
  refine Carried.orElse (literal_twins 0 m _ _ (Nat.lt_succ_self m) hpos htwin) (fun h => ?_) h
  cases hcase : ExprParser.case fullExpr ts with
  | some u =>
      rw [orElse_some hcase] at h
      obtain rfl := Option.some.inj h
      obtain ⟨o', hcase'⟩ :=
        case_carried hexpr htwin (Nat.le_refl m) hR.unopened hR'.unopened hcase
      rw [orElse_some hcase']
      exact .inl ⟨o', rfl⟩
  | none =>
      rw [orElse_none hcase] at h
      -- no CASE here, and so none there unless the rest lends it branches
      have hnone : ExprParser.case fullExpr ts' = none
          ∨ S ∧ ∃ w o, ExprParser.case fullExpr ts' = some ⟨w, [], o⟩ := by
        cases hk : keyword .case ts with
        | none =>
            have hcases := keyword_twins (k := .case) htwin fun hz => (hpos hz).elim
            rw [hk] at hcases
            exact .inl (case_other hcases.of_none)
        | some rest =>
            obtain ⟨t, rfl, ht⟩ := keyword_some hk
            rw [call_of_word ht rest] at h
            exact case_none_carried htwin hR.unopened hR'.unopened hdetached hcase h
      rcases hnone with hcase' | ⟨hS, w, o', hcase'⟩
      · rw [orElse_none hcase']
        exact Carried.orElse hcalls (Carried.orElse hcolumns fun h => by
          have hparens := inParens_twins fullExpr_enclosable hm htwin
          rw [show inParens fullExpr ts = _ from h] at hparens
          obtain ⟨⟨w, left, o'⟩, hread, hvalue, i, -, -, hleft⟩ := hparens.of_some
          obtain rfl : v = w := hvalue
          obtain ⟨-, rfl⟩ := hleft.reached
          exact .inl ⟨o', hread⟩) h
      · rw [orElse_some hcase']
        exact .inr ⟨hS, w, [], o', rfl, .inl rfl⟩

/-- Expressions of every place and size are carried over. -/
theorem carries (S : Prop) (m : Nat) {place : Nat} (hplace : place ≤ 7) : Carries S place m := by
  induction m using Nat.strong_induction_on generalizing S place with
  | _ m ih =>
      have hprimary : ∀ j ≤ m, Carries S 7 j := fun j hj =>
        carries_primary fun i hi => ih i (Nat.lt_of_lt_of_le hi hj) False (Nat.zero_le 7)
      have hsigned : ∀ j ≤ m, Carries S 6 j := fun j hj =>
        carries_signed fun i hi => hprimary i (Nat.le_trans hi hj)
      have hproduct : ∀ j ≤ m, Carries S 5 j := fun j hj =>
        carries_chain rfl fun i hi => hsigned i (Nat.le_trans hi hj)
      have hsum : ∀ j ≤ m, Carries S 4 j := fun j hj =>
        carries_chain rfl fun i hi => hproduct i (Nat.le_trans hi hj)
      have hpredicate : ∀ j ≤ m, Carries S 3 j := fun j hj =>
        carries_predicate fun i hi => hsum i (Nat.le_trans hi hj)
      have hnegation : ∀ j ≤ m, Carries S 2 j := fun j hj =>
        carries_negation fun i hi => hpredicate i (Nat.le_trans hi hj)
      have hconjunction : ∀ j ≤ m, Carries S 1 j := fun j hj =>
        carries_chain rfl fun i hi => hnegation i (Nat.le_trans hi hj)
      have hdisjunction : Carries S 0 m := carries_chain rfl hconjunction
      match place with
      | 0 => exact @hdisjunction
      | 1 => exact @hconjunction m (Nat.le_refl m)
      | 2 => exact @hnegation m (Nat.le_refl m)
      | 3 => exact @hpredicate m (Nat.le_refl m)
      | 4 => exact @hsum m (Nat.le_refl m)
      | 5 => exact @hproduct m (Nat.le_refl m)
      | 6 => exact @hsigned m (Nat.le_refl m)
      | 7 => exact @hprimary m (Nat.le_refl m)

end QueryReplay.Sql
