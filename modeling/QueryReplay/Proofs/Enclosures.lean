import QueryReplay.Proofs.Depths
import QueryReplay.Proofs.Lockstep

/-! # Enclosures — what stands between parentheses

    What is read between parentheses depends on nothing behind the closing one
    (`Enclosable`), since a closing parenthesis stops an expression.  So a
    parenthesis or a call that is opened in front of `R` is read in front of `R'`
    as well, or in front of neither (`inParens_twins`, `call_twins_inside`),
    though `R` and `R'` may go on with an expression.  Where it is closed is
    told by the levels of parentheses alone (`enclosed_unique`). -/

namespace QueryReplay.Sql

open QueryReplay.Sql.Parser QueryReplay.Sql.ExprParser

/-! ## Other tokens -/

/-- Another token is not the keyword. -/
theorem keyword_other {t : Token} {k : Keyword} (h : t.kind ≠ .keyword k) (rest : List Token) :
    keyword k (t :: rest) = none := if_neg fun hk => h (beq_iff_eq.mp hk)

/-- Another token is not the symbol. -/
theorem symbol_other {t : Token} {s : Symbol} (h : t.kind ≠ .symbol s) (rest : List Token) :
    symbol s (t :: rest) = none := if_neg fun hk => h (beq_iff_eq.mp hk)

/-! ## Runs that fail together -/

/-- What fails together with a failure fails. -/
theorem Together.of_none {σ τ : Type} {r : σ → τ → Prop} {b : Option τ} (h : Together r none b) :
    b = none := by
  cases h
  rfl

/-- What succeeds together with a success succeeds, and is related to it. -/
theorem Together.of_some {σ τ : Type} {r : σ → τ → Prop} {x : σ} {b : Option τ}
    (h : Together r (some x) b) : ∃ y, b = some y ∧ r x y := by
  cases h with
  | done h => exact ⟨_, rfl, h⟩

/-- Two runs fail together when each succeeds with the other. -/
theorem Together.of_success {σ τ : Type} {r : σ → τ → Prop} {a : Option σ} {b : Option τ}
    (h : ∀ x, a = some x → ∃ y, b = some y ∧ r x y) (h' : ∀ y, b = some y → ∃ x, a = some x) :
    Together r a b := by
  cases a with
  | some x =>
      obtain ⟨y, rfl, hr⟩ := h x rfl
      exact .done hr
  | none =>
      cases b with
      | none => exact .fail
      | some y =>
          obtain ⟨x, hx⟩ := h' y rfl
          exact nomatch hx

/-! ## Levels -/

/-- One level further in everything is one level further in. -/
theorem Token.level_succ {t : Token} {n m : Nat} (h : t.level? n = some m) :
    t.level? (n + 1) = some (m + 1) := by
  unfold level? at h ⊢
  split at h
  · rw [if_pos (by assumption), ← Option.some.inj h]
  · rw [if_neg (by assumption)]
    split at h
    · rw [if_pos (by assumption)]
      split at h
      · exact nomatch h
      · obtain rfl := Option.some.inj h
        rw [if_neg (Nat.succ_ne_zero n)]
        exact congrArg some (by omega)
    · rw [if_neg (by assumption), ← Option.some.inj h]

/-- A parenthesis that closes too many has no level. -/
theorem level_of_close {t : Token} (h : t.kind = .symbol .closeParen) (ts : List Token) :
    level? (t :: ts) 0 = none := by
  have hlevel : t.level? 0 = none := by
    rw [Token.level?, Token.isSymbol, Token.isSymbol, h]
    rfl
  show (t.level? 0).bind (level? ts) = none
  rw [hlevel, Option.bind_none]

/-- The first parenthesis that closes too many ends what is enclosed. -/
theorem enclosed_unique {us vs R R' : List Token} {c d : Token} (hus : level? us 0 = some 0)
    (hvs : level? vs 0 = some 0) (hc : c.kind = .symbol .closeParen)
    (hd : d.kind = .symbol .closeParen) (h : us ++ c :: R = vs ++ d :: R') : R = R' := by
  have hshort : ∀ {us vs R R' more : List Token} {c d : Token}, level? us 0 = some 0 →
      level? vs 0 = some 0 → c.kind = .symbol .closeParen → vs = us ++ more →
      c :: R = more ++ d :: R' → R = R' := by
    intro us vs R R' more c d hus hvs hc hmore hrest
    cases more with
    | nil => exact (List.cons.inj hrest).2
    | cons m more =>
        obtain ⟨rfl, -⟩ := List.cons.inj hrest
        rw [hmore, level_append, hus, Option.bind_some, level_of_close hc] at hvs
        exact nomatch hvs
  rcases List.append_eq_append_iff.mp h with ⟨more, hmore, hrest⟩ | ⟨more, hmore, hrest⟩
  · exact hshort hus hvs hc hmore hrest
  · exact (hshort hvs hus hd hmore hrest).symm

/-! ## Twins -/

section Twins

variable {R R' : List Token} {n m : Nat} {ts ts' us vs : List Token}

/-- Twins go both ways. -/
theorem Twin.symm (h : Twin R R' n m ts ts') : Twin R' R n m ts' ts := by
  induction h with
  | done => exact .done
  | @last n t t' hkind hlexeme hends hlevel =>
      refine .last hkind.symm hlexeme.symm ?_ ?_
      · rw [Token.endsPhrase, hkind]
        exact hends
      · rw [Token.level?, Token.isSymbol, Token.isSymbol, hkind]
        exact hlevel
  | more hlevel _ ih => exact .more hlevel ih

/-- Twins of which tokens are left begin alike, and go on with twins. -/
theorem Twin.tail {t : Token} {rest : List Token} (h : Twin R R' n m (t :: rest) ts') (hm : 0 < m) :
    ∃ j t' rest' n', m = j + 1 ∧ ts' = t' :: rest' ∧ t'.kind = t.kind ∧ t'.lexeme = t.lexeme
      ∧ t.level? n = some n' ∧ Twin R R' n' j rest rest' ∧ (t.endsPhrase = false → 0 < j)
      ∧ (0 < j → t' = t) := by
  obtain ⟨j, rfl⟩ := Nat.exists_eq_add_one_of_ne_zero (Nat.ne_of_gt hm)
  obtain ⟨t, t', rest, rest', n', hcons, rfl, hstep⟩ := h.uncons
  obtain ⟨rfl, rfl⟩ := List.cons.inj hcons
  exact ⟨j, t', rest', n', rfl, rfl, hstep⟩

/-- Twins go on with twins behind tokens that end like a phrase, and these are
    twins in front of the others. -/
theorem Twin.split {n' k : Nat} (h : Twin R R' n m (us ++ vs) ts') (hn : level? us n = some n')
    (hk : level? us k = some 0) (hends : ∀ t ∈ us.getLast?, t.endsPhrase = true)
    (hm : us.length ≤ m) :
    ∃ vs', Twin R R' n' (m - us.length) vs vs' ∧ Twin vs vs' k us.length (us ++ vs) ts' := by
  -- Token by token: the levels of the part come back to zero behind its last token, which ends a
  -- phrase.
  induction us generalizing n k m ts' with
  | nil =>
      obtain rfl := Option.some.inj hn
      obtain rfl := Option.some.inj hk
      exact ⟨ts', h, .done⟩
  | cons t us ih =>
      obtain ⟨m, t', rest', n₁, rfl, rfl, hkind, hlexeme, hlevel, hrest, -, hsame⟩ :=
        Twin.tail (show Twin R R' n m (t :: (us ++ vs)) ts' from h)
          (Nat.lt_of_lt_of_le (Nat.succ_pos us.length) hm)
      obtain ⟨k₁, hk₁, hk⟩ := Option.bind_eq_some_iff.mp
        (show (t.level? k).bind (level? us) = some 0 from hk)
      have hn : (t.level? n).bind (level? us) = some n' := hn
      rw [hlevel, Option.bind_some] at hn
      rw [List.length_cons] at hm ⊢
      rw [Nat.add_sub_add_right]
      cases us with
      | nil =>
          obtain rfl := Option.some.inj hn
          obtain rfl := Option.some.inj hk
          exact ⟨rest', hrest, .last hkind hlexeme (hends t rfl) hk₁⟩
      | cons u us =>
          have hends : ∀ t ∈ (u :: us).getLast?, t.endsPhrase = true := by
            rwa [List.getLast?_cons_cons] at hends
          rw [List.length_cons] at hm
          obtain ⟨vs', hvs, hus⟩ := ih hrest hn hk hends (by rw [List.length_cons]; omega)
          obtain rfl := hsame (by omega)
          exact ⟨vs', hvs, .more hk₁ hus⟩

/-- The same for a phrase. -/
theorem Twin.phrase (h : Twin R R' n m (us ++ vs) ts') (hus : Phrase us) (hm : us.length ≤ m) :
    ∃ vs', Twin R R' n (m - us.length) vs vs' ∧ Twin vs vs' 0 us.length (us ++ vs) ts' := by
  refine h.split (hus.balanced n) (hus.balanced 0) (fun t ht => ?_) hm
  obtain ⟨front, u, rfl, hu⟩ := hus.ends
  rw [List.getLast?_concat] at ht
  exact Option.some.inj ht ▸ hu

/-- Twins inside parentheses reach beyond balanced tokens. -/
theorem Twin.inside {j k : Nat} (h : Twin R R' n m (us ++ vs) ts') (hn : k < n)
    (hus : level? us k = some j) : us.length < m := by
  induction us generalizing n k m ts' with
  | nil =>
      obtain ⟨n, rfl⟩ := Nat.exists_eq_add_one_of_ne_zero (Nat.ne_zero_of_lt hn)
      exact h.pos
  | cons t us ih =>
      obtain ⟨k₁, hk₁, hus⟩ := Option.bind_eq_some_iff.mp
        (show (t.level? k).bind (level? us) = some j from hus)
      have hm : 0 < m := by
        refine Nat.pos_of_ne_zero fun hz => ?_
        subst hz
        exact absurd h.eq_zero.1 (Nat.ne_zero_of_lt hn)
      obtain ⟨m, t', rest', n₁, rfl, rfl, -, -, hlevel, hrest, -, -⟩ :=
        Twin.tail (show Twin R R' n m (t :: (us ++ vs)) ts' from h) hm
      have hup : ∀ d, t.level? (k + d) = some (k₁ + d) := by
        intro d
        induction d with
        | zero => exact hk₁
        | succ d ihd => exact Token.level_succ ihd
      obtain ⟨d, rfl⟩ := Nat.exists_eq_add_of_lt hn
      obtain rfl := Option.some.inj ((hup (d + 1)).symm.trans hlevel)
      exact Nat.succ_lt_succ (ih hrest (by omega) hus)

end Twins

/-! ## In parentheses -/

section Enclosed

variable {α : Type}

/-- What a parser reads, in parentheses. -/
def inParens (p : Parser α) : Parser α := fun ts =>
  (symbol .openParen ts).bind fun inside => (p inside).bind fun t =>
    (symbol .closeParen t.rest).bind fun after => some ⟨t.value, after, false⟩

/-- What the parser takes is balanced. -/
def Balances (p : Parser α) : Prop :=
  ∀ ts t, p ts = some t → ∃ used, ts = used ++ t.rest ∧ level? used 0 = some 0

/-- What is read up to a closing parenthesis is read there whatever is behind it. -/
def Enclosable (p : Parser α) : Prop :=
  ∀ {R R' : List Token} {m : Nat} {ts ts' : List Token} {t : Taken α} {after : List Token},
    Twin R R' 1 m ts ts' → p ts = some t → symbol .closeParen t.rest = some after →
    ∃ t' after', p ts' = some t' ∧ t'.value = t.value
      ∧ symbol .closeParen t'.rest = some after' ∧ ∃ j < m, Twin R R' 0 j after after'

/-- What takes phrases takes balanced tokens. -/
theorem Takes.balances {p : Parser α} (h : Takes p) : Balances p := by
  intro ts t ht
  obtain ⟨used, hused, hphrase⟩ := h ts t ht
  exact ⟨used, hused, hphrase.balanced 0⟩

/-- Between its parentheses the tokens are balanced and never close what is around them. -/
theorem inParens_some {p : Parser α} (h : Balances p) {ts : List Token} {t : Taken α}
    (ht : inParens p ts = some t) : ∃ o us c, ts = o :: (us ++ c :: t.rest)
      ∧ o.kind = .symbol .openParen ∧ c.kind = .symbol .closeParen ∧ level? us 0 = some 0 := by
  obtain ⟨inside, hopen, ht⟩ := Option.bind_eq_some_iff.mp ht
  obtain ⟨u, hu, ht⟩ := Option.bind_eq_some_iff.mp ht
  obtain ⟨after, hclose, ht⟩ := Option.bind_eq_some_iff.mp ht
  obtain rfl := Option.some.inj ht
  obtain ⟨o, rfl, ho⟩ := symbol_some hopen
  obtain ⟨us, rfl, hus⟩ := h inside u hu
  obtain ⟨c, hrest, hc⟩ := symbol_some hclose
  exact ⟨o, us, c, by rw [hrest], ho, hc, hus⟩

/-- A closing parenthesis behind balanced tokens is there in both. -/
theorem close_behind {R R' : List Token} {m : Nat} {vs vs' after : List Token}
    (h : Twin R R' 1 m vs vs') (hclose : symbol .closeParen vs = some after) :
    ∃ after', symbol .closeParen vs' = some after' ∧ ∃ j < m, Twin R R' 0 j after after' := by
  have hread := close_twins h
  rw [hclose] at hread
  obtain ⟨after', hclose', j, hj, -, hafter⟩ := hread.of_some
  exact ⟨after', hclose', j, hj, hafter⟩

/-- A closing parenthesis stops an expression. -/
theorem stop_of_close {ts after : List Token} (h : symbol .closeParen ts = some after) : Stop ts := by
  obtain ⟨c, rfl, hc⟩ := symbol_some h
  rintro t ht
  obtain rfl : c = t := Option.some.inj ht
  rw [Token.continues, hc]
  rfl

/-- What agrees in front of any two closing parentheses does not see what is behind them. -/
theorem Enclosable.of_agrees {p : Parser α} (htakes : Takes p)
    (h : ∀ {R R' : List Token} {m : Nat} {ts ts' after after' : List Token},
      symbol .closeParen R = some after → symbol .closeParen R' = some after' → 0 < m →
      Twin R R' 0 m ts ts' → Together (Alike R R' id 0 m) (p ts) (p ts')) : Enclosable p := by
  intro R R' m ts ts' t after htwin ht hclose
  obtain ⟨used, rfl, hphrase⟩ := htakes ts t ht
  have hm := htwin.inside Nat.zero_lt_one (hphrase.balanced 0)
  obtain ⟨vs', hvs, hused⟩ := htwin.phrase hphrase (Nat.le_of_lt hm)
  obtain ⟨after', hclose', j, hj, hafter⟩ := close_behind hvs hclose
  obtain ⟨front, u, hfront, -⟩ := hphrase.ends
  have hread := h hclose hclose' (by rw [hfront, List.length_append]; exact Nat.succ_pos _) hused
  rw [ht] at hread
  obtain ⟨t', ht', hvalue, i, -, -, hrest⟩ := hread.of_some
  obtain ⟨-, hrest⟩ := hrest.reached
  exact ⟨t', after', ht', hvalue.symm, by rw [hrest]; exact hclose', j, by omega, hafter⟩

/-- What is in parentheses is read in front of `R` and in front of `R'`, or in
    front of neither. -/
theorem inParens_twins {p : Parser α} (hp : Enclosable p) {R R' : List Token} {m : Nat}
    {ts ts' : List Token} (hm : 0 < m) (h : Twin R R' 0 m ts ts') :
    Together (Alike R R' id 0 m) (inParens p ts) (inParens p ts') := by
  have hstep : ∀ {R R' : List Token} {m : Nat} {ts ts' : List Token} {t : Taken α}, 0 < m →
      Twin R R' 0 m ts ts' → inParens p ts = some t →
      ∃ t', inParens p ts' = some t' ∧ Alike R R' id 0 m t t' := by
    intro R R' m ts ts' t hm htwin ht
    obtain ⟨inside, hopen, ht⟩ := Option.bind_eq_some_iff.mp ht
    obtain ⟨u, hu, ht⟩ := Option.bind_eq_some_iff.mp ht
    obtain ⟨after, hclose, ht⟩ := Option.bind_eq_some_iff.mp ht
    obtain rfl := Option.some.inj ht
    obtain ⟨o, rfl, ho⟩ := symbol_some hopen
    obtain ⟨m, o', inside', n', rfl, rfl, hkind, -, hlevel, hinside, -, -⟩ := htwin.tail hm
    obtain rfl := Option.some.inj ((Token.level_open ho 0).symm.trans hlevel)
    obtain ⟨u', after', hu', hvalue, hclose', j, hj, hafter⟩ := hp hinside hu hclose
    have hopen' : symbol .openParen (o' :: inside') = some inside' :=
      if_pos (beq_iff_eq.mpr (hkind.trans ho))
    refine ⟨⟨u'.value, after', false⟩, ?_, hvalue.symm, j, by omega, nofun, hafter⟩
    rw [inParens, hopen', Option.bind_some, hu', Option.bind_some, hclose', Option.bind_some]
  refine .of_success (fun t ht => hstep hm h ht) fun t' ht' => ?_
  obtain ⟨t, ht, -⟩ := hstep hm h.symm ht'
  exact ⟨t, ht⟩

end Enclosed

/-! ## Expressions, lists and arguments -/

/-- Expressions of any depth agree in front of two stops. -/
theorem fullExpr_agrees {R R' : List Token} (hR : Stop R) (hR' : Stop R') (M : Nat) :
    Agrees R R' False M id fullExpr fullExpr := by
  intro n m ts ts' hm hpos htwin
  have hread := expr_agrees hR hR' M (M + ts.length + ts'.length + 1)
    (M + ts.length + ts'.length + 1) (by omega) (by omega) n m ts ts' hm hpos htwin
  rwa [expr_eq_fullExpr (by omega), expr_eq_fullExpr (by omega)] at hread

/-- So an expression may be enclosed. -/
theorem fullExpr_enclosable : Enclosable fullExpr :=
  Enclosable.of_agrees fullExpr_takes fun hclose hclose' hm htwin =>
    fullExpr_agrees (stop_of_close hclose) (stop_of_close hclose') _ _ _ _ _ (Nat.lt_succ_self _)
      (fun hz => absurd hm (by omega)) htwin

/-- A closing parenthesis is no comma. -/
theorem no_comma_of_close {ts after : List Token} (h : symbol .closeParen ts = some after) :
    symbol .comma ts = none := by
  obtain ⟨c, rfl, hc⟩ := symbol_some h
  exact symbol_other (by rw [hc]; decide) after

/-- So may a list of expressions. -/
theorem list_enclosable : Enclosable (commaList fullExpr) :=
  Enclosable.of_agrees fullExpr_takes.commaList fun hclose hclose' hm htwin =>
    (commaList_twins (fullExpr_agrees (stop_of_close hclose) (stop_of_close hclose') _)
      (fun _ => ⟨no_comma_of_close hclose, no_comma_of_close hclose'⟩) hm (Nat.lt_succ_self _)
      htwin).mono fun t t' h => ⟨by rw [← List.map_id t.value, ← List.map_id t'.value]; exact h.1, h.2⟩

/-- The arguments of a call as a parser that never fails. -/
def argumentList (nested : Parser Expr) : Parser Arguments := fun ts =>
  some ⟨(arguments nested ts).1, (arguments nested ts).2, false⟩

section Arguments

variable {nested : Parser Expr} {ts rest : List Token}

theorem arguments_of_star (h : symbol .star ts = some rest) :
    arguments nested ts = ({ star := true }, rest) := by
  unfold arguments
  rw [h]

theorem arguments_of_list (hstar : symbol .star ts = none) {list : Taken (List Expr)}
    (hlist : commaList nested (optKeyword .distinct ts).2 = some list) : arguments nested ts
      = ({ args := list.value, distinct := (optKeyword .distinct ts).1 }, list.rest) := by
  unfold arguments
  rw [hstar]
  dsimp only
  rw [hlist]

/-- There are no arguments in front of a closing parenthesis. -/
theorem arguments_of_close (htakes : Takes nested) (h : symbol .closeParen ts = some rest) :
    arguments nested ts = ({}, ts) := by
  obtain ⟨c, rfl, hc⟩ := symbol_some h
  have hstar : symbol .star (c :: rest) = none := symbol_other (by rw [hc]; decide) rest
  have hdistinct : keyword .distinct (c :: rest) = none := keyword_other (by rw [hc]; decide) rest
  unfold arguments optKeyword
  rw [hstar, hdistinct]
  dsimp only
  rw [htakes.commaList.closeParen hc]

/-- Arguments are a star, a list behind DISTINCT or not, or nothing. -/
theorem arguments_cases (nested : Parser Expr) (ts : List Token) :
    (∃ rest, symbol .star ts = some rest)
      ∨ (symbol .star ts = none ∧ ∃ list, commaList nested (optKeyword .distinct ts).2 = some list)
      ∨ arguments nested ts = ({}, ts) := by
  cases hstar : symbol .star ts with
  | some rest => exact .inl ⟨rest, rfl⟩
  | none =>
      cases hlist : commaList nested (optKeyword .distinct ts).2 with
      | some list => exact .inr (.inl ⟨rfl, list, rfl⟩)
      | none =>
          refine .inr (.inr ?_)
          unfold arguments
          rw [hstar]
          dsimp only
          rw [hlist]

end Arguments

/-- Arguments are balanced, whichever of the three forms they have. -/
theorem argumentList_balances {nested : Parser Expr} (htakes : Takes nested) :
    Balances (argumentList nested) := by
  intro ts t ht
  obtain rfl := Option.some.inj ht
  dsimp only
  rcases arguments_cases nested ts with ⟨rest, hstar⟩ | ⟨hstar, list, hlist⟩ | hnone
  · obtain ⟨s, rfl, hs⟩ := symbol_some hstar
    rw [arguments_of_star hstar]
    refine ⟨[s], rfl, ?_⟩
    show (s.level? 0).bind (level? []) = some 0
    rw [Token.level_other (by rw [hs]; decide) (by rw [hs]; decide)]
    rfl
  · obtain ⟨words, hwords, hrun⟩ := optKeyword_run .distinct ts
    obtain ⟨used, hused, hphrase⟩ := htakes.commaList _ _ hlist
    rw [arguments_of_list hstar hlist]
    refine ⟨words ++ used, ?_, (hrun.append hphrase.toRun).balanced 0⟩
    rw [List.append_assoc, ← hused, ← hwords]
  · rw [hnone]
    exact ⟨[], rfl, rfl⟩

/-- Arguments may be enclosed, and with them calls. -/
theorem argumentList_enclosable : Enclosable (argumentList fullExpr) := by
  intro R R' m ts ts' t after htwin ht hclose
  obtain rfl := Option.some.inj ht
  have hread : ∀ {a : Arguments} {rest rest' after' : List Token},
      arguments fullExpr ts = (a, rest) → arguments fullExpr ts' = (a, rest') →
      symbol .closeParen rest' = some after' → (∃ j < m, Twin R R' 0 j after after') →
      ∃ t' after', argumentList fullExpr ts' = some t' ∧ t'.value = (arguments fullExpr ts).1
        ∧ symbol .closeParen t'.rest = some after' ∧ ∃ j < m, Twin R R' 0 j after after' := by
    intro a rest rest' after' hts hts' hclose' hafter
    refine ⟨⟨a, rest', false⟩, after', ?_, by rw [hts], hclose', hafter⟩
    rw [argumentList, hts']
  dsimp only at hclose
  have hpos : ∀ {P : Prop}, m = 0 → P := fun hz => absurd htwin.pos (hz ▸ Nat.lt_irrefl 0)
  have hstars := symbol_twins htwin hpos (show Symbol.star ≠ .openParen by decide) (by decide)
  -- whatever stands between the parentheses, the closing one ends it on both sides
  rcases arguments_cases fullExpr ts with ⟨rest, hstar⟩ | ⟨hstar, list, hlist⟩ | hnone
  · rw [arguments_of_star hstar] at hclose
    rw [hstar] at hstars
    obtain ⟨rest', hstar', i, hi, -, hrest⟩ := hstars.of_some
    obtain ⟨after', hclose', j, hj, hafter⟩ := close_behind hrest hclose
    exact hread (arguments_of_star hstar) (arguments_of_star hstar') hclose'
      ⟨j, Nat.lt_trans hj hi, hafter⟩
  · rw [arguments_of_list hstar hlist] at hclose
    rw [hstar] at hstars
    obtain ⟨hdistinct, i, hi, -, hinside⟩ := optKeyword_twins (k := .distinct) htwin hpos rfl
    obtain ⟨list', after', hlist', hvalue, hclose', j, hj, hafter⟩ :=
      list_enclosable hinside hlist hclose
    refine hread (arguments_of_list hstar hlist) ?_ hclose' ⟨j, Nat.lt_of_lt_of_le hj hi, hafter⟩
    rw [arguments_of_list hstars.of_none hlist', hvalue, hdistinct]
  · rw [hnone] at hclose
    obtain ⟨after', hclose', hafter⟩ := close_behind htwin hclose
    exact hread hnone (arguments_of_close fullExpr_takes hclose') hclose' hafter

/-! ## Calls and parentheses -/

theorem call_eq (nested : Parser Expr) (t : Token) (rest : List Token) :
    call nested (t :: rest) = t.functionName?.bind fun name =>
      (inParens (argumentList nested) rest).bind fun u =>
        some ⟨.call name u.value.args u.value.distinct u.value.star
          (sourceOf false (tokensBefore (t :: rest) u.rest)), u.rest, false⟩ := by
  rw [call_cons]
  refine congrArg _ (funext fun name => ?_)
  unfold inParens argumentList
  cases symbol .openParen rest with
  | none => rfl
  | some inside =>
      simp only [Option.bind_some]
      cases symbol .closeParen (arguments nested inside).2 with
      | none => rfl
      | some after => rfl

/-- A call is read in front of `R` and in front of `R'`, or in front of neither,
    unless a parenthesis is opened only there. -/
theorem call_twins_inside {R R' : List Token} {m : Nat} {ts ts' : List Token} (hm : 0 < m)
    (hR : symbol .openParen R = none) (hR' : symbol .openParen R' = none)
    (h : Twin R R' 0 m ts ts') :
    Together (Alike R R' id 0 m) (call fullExpr ts) (call fullExpr ts') := by
  obtain ⟨m, rfl⟩ := Nat.exists_eq_add_one_of_ne_zero (Nat.ne_of_gt hm)
  obtain ⟨t, t', rest, rest', n', rfl, rfl, hkind, hlexeme, hlevel, hrest, -, -⟩ := h.uncons
  rw [call_eq, call_eq, Token.functionName_congr hkind hlexeme]
  cases hname : t.functionName? with
  | none => exact .fail
  | some name =>
      obtain rfl := (Token.plain_functionName hname).level hlevel
      rw [Option.bind_some, Option.bind_some]
      rcases Nat.eq_zero_or_pos m with rfl | hpos
      · obtain ⟨-, rfl, rfl⟩ := hrest.eq_zero
        unfold inParens
        rw [hR, hR']
        exact .fail
      · refine (inParens_twins argumentList_enclosable hpos hrest).bind ?_
        rintro u u' ⟨hvalue, hleft⟩
        have hleft : Left R R' true 0 (m + 1) u.rest u'.rest := hleft.mono (Nat.le_succ m)
        refine .done ⟨?_, hleft⟩
        rw [show u.value = u'.value from hvalue, h.source_before hleft]

end QueryReplay.Sql
