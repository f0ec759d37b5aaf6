import QueryReplay.Proofs.Phrases

/-! # Lockstep — the same tokens in front of something else

    A phrase is read the same way whatever stands behind it, as long as what
    stands there cannot go on with an expression (`Stop`).  Two runs of a parser
    are compared: one on the phrase in front of `R`, one on the phrase in front
    of `R'`, where the gap behind its last token may differ.  The route:

    * the two token lists are **twins** (`Twin`): they reach `R` and `R'` at the
      same time, at level 0 of parentheses and behind a token that ends a phrase;
    * the two runs fail together, or succeed with the same value and leave twins
      of the same level (`Agrees`).  Failures matter, since choices are ordered;
    * every parser of expressions agrees if those below it do, and `expr_agrees`
      ties the knot by induction on the size of the twins. -/

namespace QueryReplay.Sql

open QueryReplay.Sql.Parser QueryReplay.Sql.ExprParser

/-! ## Tokens that go on with an expression -/

/-- Keywords that go on with an expression. -/
def Keyword.continues (k : Keyword) : Bool :=
  k == .is || k == .not || k == .in || k == .between || k == .like || k == .and || k == .or
    || k == .case || k == .when || k == .then || k == .else || k == .end

/-- Operators and marks that go on with an expression. -/
def Symbol.continues (s : Symbol) : Bool :=
  s != .comma && s != .semicolon && s != .closeParen

/-- A token that can go on with an expression. -/
def Token.continues (t : Token) : Bool :=
  match t.kind with
  | .keyword k => k.continues
  | .symbol s => s.continues
  | _ => false

/-- The tokens do not go on with an expression. -/
def Stop (ts : List Token) : Prop := ∀ t ∈ ts.head?, t.continues = false

/-- No keyword that goes on with an expression stands at a stop. -/
theorem Stop.keyword {ts : List Token} (h : Stop ts) {k : Keyword} (hk : k.continues = true) :
    keyword k ts = none := by
  cases hread : Parser.keyword k ts with
  | none => rfl
  | some rest =>
      obtain ⟨t, rfl, ht⟩ := keyword_some hread
      have hstop := h t rfl
      rw [Token.continues, ht] at hstop
      exact nomatch hk.symm.trans hstop

/-- Neither does such a symbol. -/
theorem Stop.symbol {ts : List Token} (h : Stop ts) {s : Symbol} (hs : s.continues = true) :
    symbol s ts = none := by
  cases hread : Parser.symbol s ts with
  | none => rfl
  | some rest =>
      obtain ⟨t, rfl, ht⟩ := symbol_some hread
      have hstop := h t rfl
      rw [Token.continues, ht] at hstop
      exact nomatch hs.symm.trans hstop

/-! ## Runs that fail together -/

/-- Both results are absent, or both are there and related. -/
inductive Together {σ τ : Type} (r : σ → τ → Prop) : Option σ → Option τ → Prop
  | fail : Together r none none
  | done {x : σ} {y : τ} (h : r x y) : Together r (some x) (some y)

section Together

variable {σ τ σ' τ' : Type} {r : σ → τ → Prop} {s : σ' → τ' → Prop}

/-- Two steps fail together if each does. -/
theorem Together.bind {a : Option σ} {b : Option τ} {f : σ → Option σ'} {g : τ → Option τ'}
    (h : Together r a b) (hf : ∀ x y, r x y → Together s (f x) (g y)) :
    Together s (a.bind f) (b.bind g) := by
  cases h with
  | fail => exact .fail
  | done hxy => exact hf _ _ hxy

theorem Together.map {a : Option σ} {b : Option τ} {f : σ → σ'} {g : τ → τ'}
    (h : Together r a b) (hf : ∀ x y, r x y → s (f x) (g y)) :
    Together s (a.map f) (b.map g) := by
  cases h with
  | fail => exact .fail
  | done hxy => exact .done (hf _ _ hxy)

/-- What is related more closely is related. -/
theorem Together.mono {r' : σ → τ → Prop} {a : Option σ} {b : Option τ} (h : Together r a b)
    (hr : ∀ x y, r x y → r' x y) : Together r' a b := by
  cases h with
  | fail => exact .fail
  | done hxy => exact .done (hr _ _ hxy)

end Together

/-! ## Twins -/

section Twins

variable (R R' : List Token)

/-- The same tokens in front of `R` and of `R'`, at a level of parentheses and
    of a size; only the gap behind the last token may differ. -/
inductive Twin : Nat → Nat → List Token → List Token → Prop
  | done : Twin 0 0 R R'
  | last {n : Nat} {t t' : Token} (hkind : t'.kind = t.kind) (hlexeme : t'.lexeme = t.lexeme)
      (hends : t.endsPhrase = true) (hlevel : t.level? n = some 0) :
      Twin n 1 (t :: R) (t' :: R')
  | more {n n' m : Nat} {t : Token} {ts ts' : List Token} (hlevel : t.level? n = some n')
      (h : Twin n' (m + 1) ts ts') : Twin n (m + 2) (t :: ts) (t :: ts')

/-- Smaller twins, with a token left unless the last one is used up. -/
def Left (ended : Bool) (n m : Nat) (ts ts' : List Token) : Prop :=
  ∃ j < m, (ended = false → 0 < j) ∧ Twin R R' n j ts ts'

/-- The same value was taken, as `view` sees it, and twins are left. -/
def Alike {α β : Type} (view : α → β) (n m : Nat) (t t' : Taken α) : Prop :=
  view t.value = view t'.value ∧ Left R R' true n m t.rest t'.rest

/-- Two parsers fail together on twins, or take the same value and leave twins.
    The twins are smaller than `M`, and nothing is left of them only if `B`. -/
def Agrees {α β : Type} (B : Prop) (M : Nat) (view : α → β) (p p' : Parser α) : Prop :=
  ∀ n m ts ts', m < M → (m = 0 → B) → Twin R R' n m ts ts' →
    Together (Alike R R' view n m) (p ts) (p' ts')

variable {R R'} {n m : Nat} {ts ts' : List Token}

theorem Left.mono {e : Bool} {j : Nat} (h : Left R R' e n j ts ts') (hle : j ≤ m) :
    Left R R' true n m ts ts' := by
  obtain ⟨i, hi, -, htwin⟩ := h
  exact ⟨i, Nat.lt_of_lt_of_le hi hle, nofun, htwin⟩

/-- The first token of twins, and the twins behind it. -/
theorem Twin.uncons (h : Twin R R' n (m + 1) ts ts') :
    ∃ t t' rest rest' n', ts = t :: rest ∧ ts' = t' :: rest' ∧ t'.kind = t.kind
      ∧ t'.lexeme = t.lexeme ∧ t.level? n = some n' ∧ Twin R R' n' m rest rest'
      ∧ (t.endsPhrase = false → 0 < m) ∧ (0 < m → t' = t) := by
  cases h with
  | @last _ t t' hkind hlexeme hends hlevel =>
      refine ⟨t, t', R, R', 0, rfl, rfl, hkind, hlexeme, hlevel, .done, fun hopen => ?_,
        fun h => absurd h (Nat.lt_irrefl 0)⟩
      rw [hends] at hopen
      exact nomatch hopen
  | @more _ n' m t ts ts' hlevel h =>
      exact ⟨t, t, ts, ts', n', rfl, rfl, rfl, rfl, hlevel, h,
        fun _ => Nat.succ_pos m, fun _ => rfl⟩

/-- Twins inside parentheses have a token left. -/
theorem Twin.pos (h : Twin R R' (n + 1) m ts ts') : 0 < m := by
  cases h with
  | last _ _ _ _ => exact Nat.one_pos
  | more _ _ => exact Nat.succ_pos _

/-- What is left of twins is as long as what is behind them asks for. -/
theorem Twin.length (h : Twin R R' n m ts ts') :
    ts.length = m + R.length ∧ ts'.length = m + R'.length := by
  induction h with
  | done => exact ⟨(Nat.zero_add _).symm, (Nat.zero_add _).symm⟩
  | last _ _ _ _ => exact ⟨Nat.add_comm _ _, Nat.add_comm _ _⟩
  | more _ _ ih =>
      refine ⟨?_, ?_⟩
      · rw [List.length_cons, ih.1]
        omega
      · rw [List.length_cons, ih.2]
        omega

/-- Twins of which nothing is left. -/
theorem Twin.eq_zero (h : Twin R R' n 0 ts ts') : n = 0 ∧ ts = R ∧ ts' = R' := by
  cases h with
  | done => exact ⟨rfl, rfl, rfl⟩

/-- Twins that have reached `R` have reached `R'`. -/
theorem Twin.reached (h : Twin R R' n m R ts') : m = 0 ∧ ts' = R' := by
  have hm : m = 0 := by
    have hlen := h.length.1
    omega
  subst hm
  exact ⟨rfl, h.eq_zero.2.2⟩

/-- Tokens that reach level 0 in front of `R` and of `R'` are twins. -/
theorem twin_of_level {front : List Token} {t t' : Token} (hkind : t'.kind = t.kind)
    (hlexeme : t'.lexeme = t.lexeme) (hends : t.endsPhrase = true)
    (h : level? (front ++ [t]) n = some 0) :
    Twin R R' n (front.length + 1) (front ++ t :: R) (front ++ t' :: R') := by
  induction front generalizing n with
  | nil =>
      obtain ⟨n', hn', hzero⟩ := Option.bind_eq_some_iff.mp
        (show (t.level? n).bind (level? []) = some 0 from h)
      obtain rfl : n' = 0 := Option.some.inj hzero
      exact .last hkind hlexeme hends hn'
  | cons u front ih =>
      obtain ⟨n', hn', hrest⟩ := Option.bind_eq_some_iff.mp
        (show (u.level? n).bind (level? (front ++ [t])) = some 0 from h)
      exact .more hn' (ih hrest)

/-- The first tokens of twins have the same text, up to the gap behind the last. -/
theorem Twin.source (h : Twin R R' n m ts ts') : ∀ i ≤ m,
    sourceOf false (ts.take i) = sourceOf false (ts'.take i) := by
  -- the gap of the last token may differ, but no text reaches over it
  induction h with
  | done =>
      intro i hi
      obtain rfl := Nat.le_zero.mp hi
      rfl
  | @last n t t' _ hlexeme _ _ =>
      intro i hi
      rcases Nat.le_one_iff_eq_zero_or_eq_one.mp hi with rfl | rfl
      · rfl
      · show t.lexeme = t'.lexeme
        exact hlexeme.symm
  | @more n n' m t ts ts' _ h ih =>
      intro i hi
      cases i with
      | zero => rfl
      | succ i =>
          cases i with
          | zero => rfl
          | succ i =>
              have hrest := ih (i + 1) (by omega)
              have hlen := h.length
              cases ts with
              | nil => simp at hlen; omega
              | cons u us =>
                  cases ts' with
                  | nil => simp at hlen; omega
                  | cons u' us' =>
                      show t.source ++ sourceOf false ((u :: us).take (i + 1))
                        = t.source ++ sourceOf false ((u' :: us').take (i + 1))
                      rw [hrest]

/-- What was taken off the front of twins has the same text. -/
theorem Twin.source_before (h : Twin R R' n m ts ts') {rest rest' : List Token}
    {e : Bool} (hrest : Left R R' e n m rest rest') :
    sourceOf false (tokensBefore ts rest) = sourceOf false (tokensBefore ts' rest') := by
  obtain ⟨j, hj, -, htwin⟩ := hrest
  have hts := h.length
  have hrests := htwin.length
  have hcount : ts.length - rest.length = m - j := by omega
  have hcount' : ts'.length - rest'.length = m - j := by omega
  rw [tokensBefore, tokensBefore, hcount, hcount']
  exact h.source (m - j) (Nat.sub_le m j)

/-! ## Keywords and marks -/

/-- Drops a token that must be of the given kind. -/
def ofKind (k : TokenKind) : List Token → Option (List Token)
  | t :: rest => if t.kind == k then some rest else none
  | [] => none

theorem keyword_eq (k : Keyword) (ts : List Token) : keyword k ts = ofKind (.keyword k) ts := by
  cases ts <;> rfl

theorem symbol_eq (s : Symbol) (ts : List Token) : symbol s ts = ofKind (.symbol s) ts := by
  cases ts <;> rfl

/-- A token that comes next comes next in both, unless it comes only behind. -/
theorem ofKind_twins {k : TokenKind} (h : Twin R R' n m ts ts')
    (hbehind : m = 0 → ofKind k R = none ∧ ofKind k R' = none) :
    Together (fun rest rest' => ∃ (t : Token) (n' j : Nat), t.kind = k ∧ t.level? n = some n' ∧ j < m
      ∧ (t.endsPhrase = false → 0 < j) ∧ Twin R R' n' j rest rest') (ofKind k ts) (ofKind k ts') := by
  cases m with
  | zero =>
      obtain ⟨-, rfl, rfl⟩ := h.eq_zero
      rw [(hbehind rfl).1, (hbehind rfl).2]
      exact .fail
  | succ m =>
      obtain ⟨t, t', rest, rest', n', rfl, rfl, hkind, -, hlevel, hrest, hpos, -⟩ := h.uncons
      show Together _ (if t.kind == k then some rest else none)
        (if t'.kind == k then some rest' else none)
      rw [hkind]
      by_cases hk : (t.kind == k) = true
      · rw [if_pos hk, if_pos hk]
        exact .done ⟨t, n', m, beq_iff_eq.mp hk, hlevel, Nat.lt_succ_self m, hpos, hrest⟩
      · rw [if_neg hk, if_neg hk]
        exact .fail

/-- A keyword is read in both or in neither; at the very end of the twins it must be missing in
what is behind. -/
theorem keyword_twins {k : Keyword} (h : Twin R R' n m ts ts')
    (hbehind : m = 0 → keyword k R = none ∧ keyword k R' = none) :
    Together (Left R R' k.endsPhrase n m) (keyword k ts) (keyword k ts') := by
  simp only [keyword_eq] at hbehind ⊢
  refine (ofKind_twins h hbehind).mono ?_
  rintro rest rest' ⟨t, n', j, hk, hlevel, hj, hpos, hrest⟩
  have hplain := Token.plain_keyword hk
  obtain rfl := Option.some.inj ((Token.level_other hplain.1 hplain.2.1 n).symm.trans hlevel)
  refine ⟨j, hj, fun hends => hpos ?_, hrest⟩
  rw [Token.endsPhrase, hk]
  exact hends

/-- A mark other than a parenthesis. -/
theorem symbol_twins {s : Symbol} (h : Twin R R' n m ts ts')
    (hbehind : m = 0 → symbol s R = none ∧ symbol s R' = none) (hopen : s ≠ .openParen)
    (hclose : s ≠ .closeParen) :
    Together (Left R R' false n m) (symbol s ts) (symbol s ts') := by
  simp only [symbol_eq] at hbehind ⊢
  refine (ofKind_twins h hbehind).mono ?_
  rintro rest rest' ⟨t, n', j, hk, hlevel, hj, hpos, hrest⟩
  have hother : t.level? n = some n := by
    refine Token.level_other ?_ ?_ n <;> rw [hk] <;> intro h
    · exact hopen (TokenKind.symbol.inj h)
    · exact hclose (TokenKind.symbol.inj h)
  obtain rfl := Option.some.inj (hother.symm.trans hlevel)
  refine ⟨j, hj, fun _ => hpos ?_, hrest⟩
  rw [Token.endsPhrase, hk]
  exact beq_false_of_ne hclose

/-- A parenthesis opens in both, one level further in. -/
theorem open_twins (h : Twin R R' n m ts ts') (hR : Stop R) (hR' : Stop R') :
    Together (Left R R' false (n + 1) m) (symbol .openParen ts) (symbol .openParen ts') := by
  have hbehind : m = 0 → symbol .openParen R = none ∧ symbol .openParen R' = none :=
    fun _ => ⟨hR.symbol rfl, hR'.symbol rfl⟩
  simp only [symbol_eq] at hbehind ⊢
  refine (ofKind_twins h hbehind).mono ?_
  rintro rest rest' ⟨t, n', j, hk, hlevel, hj, hpos, hrest⟩
  obtain rfl := Option.some.inj ((Token.level_open hk n).symm.trans hlevel)
  refine ⟨j, hj, fun _ => hpos ?_, hrest⟩
  rw [Token.endsPhrase, hk]
  rfl

/-- Inside parentheses the twins cannot be at their end, so the closing one is read in both. -/
theorem close_twins (h : Twin R R' (n + 1) m ts ts') :
    Together (Left R R' true n m) (symbol .closeParen ts) (symbol .closeParen ts') := by
  have hbehind : m = 0 → ofKind (.symbol .closeParen) R = none
      ∧ ofKind (.symbol .closeParen) R' = none :=
    fun hm => absurd h.pos (hm ▸ Nat.lt_irrefl 0)
  simp only [symbol_eq]
  refine (ofKind_twins h hbehind).mono ?_
  rintro rest rest' ⟨t, n', j, hk, hlevel, hj, -, hrest⟩
  obtain rfl := Option.some.inj ((Token.level_close hk n).symm.trans hlevel)
  exact ⟨j, hj, nofun, hrest⟩

/-- An optional keyword is there in both or in neither. -/
theorem optKeyword_twins {k : Keyword} (h : Twin R R' n m ts ts')
    (hbehind : m = 0 → keyword k R = none ∧ keyword k R' = none) (hends : k.endsPhrase = false) :
    (optKeyword k ts).1 = (optKeyword k ts').1 ∧ ∃ j ≤ m, (0 < m → 0 < j)
      ∧ Twin R R' n j (optKeyword k ts).2 (optKeyword k ts').2 := by
  have hread := keyword_twins h hbehind
  unfold optKeyword
  generalize keyword k ts = a at hread ⊢
  generalize keyword k ts' = b at hread ⊢
  cases hread with
  | fail => exact ⟨rfl, m, Nat.le_refl m, fun h => h, h⟩
  | done hrest =>
      obtain ⟨j, hj, hpos, htwin⟩ := hrest
      exact ⟨rfl, j, Nat.le_of_lt hj, fun _ => hpos hends, htwin⟩

/-! ## Combinators -/

section Combinators

variable {α β γ δ : Type} {B : Prop} {M : Nat} {view : α → β} {p q p' q' : Parser α}

theorem Agrees.map {view' : γ → δ} {f : α → γ} (h : Agrees R R' B M view p p')
    (hf : ∀ x y, view x = view y → view' (f x) = view' (f y)) :
    Agrees R R' B M view' (p.map f) (p'.map f) := by
  intro n m ts ts' hm hB htwin
  refine (h n m ts ts' hm hB htwin).map ?_
  rintro t t' ⟨hvalue, hrest⟩
  exact ⟨hf _ _ hvalue, hrest⟩

/-- Ordered choice agrees, since failures agree. -/
theorem Agrees.orElse (hp : Agrees R R' B M view p p') (hq : Agrees R R' B M view q q') :
    Agrees R R' B M view (p.orElse q) (p'.orElse q') := by
  intro n m ts ts' hm hB htwin
  have hread := hp n m ts ts' hm hB htwin
  unfold Parser.orElse
  generalize p ts = a at hread ⊢
  generalize p' ts' = b at hread ⊢
  cases hread with
  | fail => exact hq n m ts ts' hm hB htwin
  | done h => exact .done h

/-- A parser that also agrees when nothing is left agrees when something is. -/
theorem Agrees.weaken (h : Agrees R R' True M view p p') : Agrees R R' False M view p p' :=
  fun n m ts ts' hm _ htwin => h n m ts ts' hm (fun _ => trivial) htwin

/-- What is there or not is there in both or in neither. -/
theorem optional_twins (h : Together (Alike R R' view n m) (p ts) (p' ts'))
    (htwin : Twin R R' n m ts ts') :
    (ExprParser.optional p ts).1.map view = (ExprParser.optional p' ts').1.map view
      ∧ ∃ j ≤ m, Twin R R' n j (ExprParser.optional p ts).2 (ExprParser.optional p' ts').2 := by
  unfold ExprParser.optional
  generalize p ts = a at h ⊢
  generalize p' ts' = b at h ⊢
  cases h with
  | fail => exact ⟨rfl, m, Nat.le_refl m, htwin⟩
  | done ht =>
      obtain ⟨hvalue, j, hj, -, hrest⟩ := ht
      exact ⟨congrArg some hvalue, j, Nat.le_of_lt hj, hrest⟩

/-- Repetitions take the same values, also when their fuel differs. -/
theorem manyUpTo_twins (hp : ∀ m ts ts', 0 < m → m < M → Twin R R' n m ts ts' →
      Together (Alike R R' view n m) (p ts) (p' ts'))
    (hbehind : n = 0 → p R = none ∧ p' R' = none) :
    ∀ (fuel fuel' m : Nat) (gone gone' : List α) (o o' : Bool) (ts ts' : List Token),
      m < M → m ≤ fuel → m ≤ fuel' → gone.map view = gone'.map view → Twin R R' n m ts ts' →
      (manyUpTo p fuel gone o ts).value.map view = (manyUpTo p' fuel' gone' o' ts').value.map view
        ∧ ∃ j ≤ m, Twin R R' n j (manyUpTo p fuel gone o ts).rest
            (manyUpTo p' fuel' gone' o' ts').rest := by
  have hreverse : ∀ gone gone' : List α, gone.map view = gone'.map view →
      gone.reverse.map view = gone'.reverse.map view := by
    intro gone gone' h
    rw [List.map_reverse, List.map_reverse, h]
  have hstop : ∀ (p : Parser α) (fuel : Nat) (gone : List α) (o : Bool) (ts : List Token),
      p ts = none → manyUpTo p fuel gone o ts = ⟨gone.reverse, ts, o⟩ := by
    intro p fuel gone o ts h
    cases fuel with
    | zero => rfl
    | succ fuel => rw [manyUpTo, h]
  intro fuel
  induction fuel with
  | zero =>
      intro fuel' m gone gone' o o' ts ts' _ hfuel _ hgone htwin
      obtain rfl := Nat.le_zero.mp hfuel
      obtain ⟨rfl, rfl, rfl⟩ := htwin.eq_zero
      rw [hstop p 0 gone o _ (hbehind rfl).1, hstop p' fuel' gone' o' _ (hbehind rfl).2]
      exact ⟨hreverse gone gone' hgone, 0, Nat.le_refl 0, htwin⟩
  | succ fuel ih =>
      -- on the fuel of the first; what is left of the twins bounds both fuels, so neither runs
      -- out before the tokens do
      intro fuel' m gone gone' o o' ts ts' hm hfuel hfuel' hgone htwin
      rcases Nat.eq_zero_or_pos m with rfl | hpos
      · obtain ⟨rfl, rfl, rfl⟩ := htwin.eq_zero
        rw [hstop p _ gone o _ (hbehind rfl).1, hstop p' fuel' gone' o' _ (hbehind rfl).2]
        exact ⟨hreverse gone gone' hgone, 0, Nat.le_refl 0, htwin⟩
      · obtain ⟨fuel', rfl⟩ := Nat.exists_eq_add_one_of_ne_zero
          (Nat.ne_of_gt (Nat.lt_of_lt_of_le hpos hfuel'))
        have hread := hp m ts ts' hpos hm htwin
        rw [manyUpTo, manyUpTo]
        generalize p ts = a at hread ⊢
        generalize p' ts' = b at hread ⊢
        cases hread with
        | fail => exact ⟨hreverse gone gone' hgone, m, Nat.le_refl m, htwin⟩
        | @done t t' ht =>
            obtain ⟨hvalue, j, hj, -, hrest⟩ := ht
            obtain ⟨hvalues, i, hi, hrests⟩ := ih fuel' j (t.value :: gone) (t'.value :: gone')
              t.open? t'.open? t.rest t'.rest (by omega) (by omega) (by omega)
              (by rw [List.map_cons, List.map_cons, hvalue, hgone]) hrest
            exact ⟨hvalues, i, by omega, hrests⟩

/-- A repetition ends at the same place in both, at the latest where the twins end. -/
theorem many_twins (hp : ∀ m ts ts', 0 < m → m < M → Twin R R' n m ts ts' →
      Together (Alike R R' view n m) (p ts) (p' ts'))
    (hbehind : n = 0 → p R = none ∧ p' R' = none) (hm : m < M) (htwin : Twin R R' n m ts ts') :
    (many p ts).value.map view = (many p' ts').value.map view
      ∧ ∃ j ≤ m, Twin R R' n j (many p ts).rest (many p' ts').rest := by
  have hlen := htwin.length
  exact manyUpTo_twins hp hbehind ts.length ts'.length m [] [] true true ts ts' hm (by omega)
    (by omega) rfl htwin

/-- Lists with commas, unless a comma comes only behind. -/
theorem commaList_twins (hp : Agrees R R' False M view p p')
    (hcomma : n = 0 → symbol .comma R = none ∧ symbol .comma R' = none) (hpos : 0 < m)
    (hm : m < M) (htwin : Twin R R' n m ts ts') :
    Together (Alike R R' (List.map view) n m) (commaList p ts) (commaList p' ts') := by
  -- a comma with a part behind it is read in both, or neither is
  have hafter : ∀ m ts ts', 0 < m → m < M → Twin R R' n m ts ts' →
      Together (Alike R R' view n m) (afterComma p ts) (afterComma p' ts') := by
    intro m ts ts' hpos hm htwin
    have hread := symbol_twins htwin (fun h => absurd hpos (h ▸ Nat.lt_irrefl 0))
      (show Symbol.comma ≠ .openParen by decide) (by decide)
    unfold afterComma
    generalize symbol .comma ts = a at hread ⊢
    generalize symbol .comma ts' = b at hread ⊢
    cases hread with
    | fail => exact .fail
    | @done rest rest' h =>
        obtain ⟨j, hj, hjpos, hrest⟩ := h
        refine (hp n j rest rest' (by omega) (fun h => ?_) hrest).mono ?_
        · exact absurd (hjpos rfl) (h ▸ Nat.lt_irrefl 0)
        · rintro t t' ⟨hvalue, hrests⟩
          exact ⟨hvalue, hrests.mono (Nat.le_of_lt hj)⟩
  have hbehind : n = 0 → afterComma p R = none ∧ afterComma p' R' = none := by
    intro h
    unfold afterComma
    rw [(hcomma h).1, (hcomma h).2]
    exact ⟨rfl, rfl⟩
  have hread := hp n m ts ts' hm (fun h => absurd hpos (h ▸ Nat.lt_irrefl 0)) htwin
  unfold commaList
  generalize p ts = a at hread ⊢
  generalize p' ts' = b at hread ⊢
  cases hread with
  | fail => exact .fail
  | @done t t' ht =>
      obtain ⟨hvalue, j, hj, -, hrest⟩ := ht
      obtain ⟨hvalues, i, hi, hrests⟩ := many_twins hafter hbehind (Nat.lt_trans hj hm) hrest
      refine .done ⟨?_, i, by omega, nofun, hrests⟩
      show view t.value :: _ = view t'.value :: _
      rw [hvalue, hvalues]

end Combinators

/-! ## Primaries -/

/-- A plain token keeps the level. -/
theorem Token.IsPlain.level {t : Token} (h : t.IsPlain) {n' : Nat} (hlevel : t.level? n = some n') :
    n' = n :=
  Option.some.inj (hlevel.symm.trans (Token.level_other h.1 h.2.1 n))

section Congruence

variable {t t' : Token} (hkind : t'.kind = t.kind) (hlexeme : t'.lexeme = t.lexeme)
include hkind hlexeme

theorem Token.identifier_congr : t'.identifier? = t.identifier? := by
  unfold identifier?
  rw [hkind, hlexeme]

theorem Token.functionName_congr : t'.functionName? = t.functionName? := by
  unfold functionName?
  rw [hkind, hlexeme]

theorem literal_congr : literal? t' = literal? t := by
  unfold literal? Token.content?
  rw [hkind, hlexeme]

end Congruence

theorem literal_twins {M : Nat} : Agrees R R' False M id literal literal := by
  intro n m ts ts' _ hm htwin
  cases m with
  | zero => exact (hm rfl).elim
  | succ m =>
      obtain ⟨t, t', rest, rest', n', rfl, rfl, hkind, hlexeme, hlevel, hrest, -, -⟩ := htwin.uncons
      show Together _ ((literal? t).map fun v => (⟨.literal v, rest, false⟩ : Taken Expr))
        ((literal? t').map fun v => (⟨.literal v, rest', false⟩ : Taken Expr))
      rw [literal_congr hkind hlexeme]
      cases hv : literal? t with
      | none => exact .fail
      | some v =>
          obtain rfl := (Token.of_literal hv).1.level hlevel
          exact .done ⟨rfl, m, Nat.lt_succ_self m, nofun, hrest⟩

/-- Without a point there is no second name. -/
theorem qualifiedRest_none {first point : Token} (h : point.kind ≠ .symbol .dot)
    (ts : List Token) : qualifiedRest? first (point :: ts) = none := by
  have hdot : point.isSymbol .dot = false := beq_false_of_ne h
  cases ts with
  | nil => rfl
  | cons t ts =>
      show (if (first.gap.isEmpty && point.isSymbol .dot && point.gap.isEmpty) = true then _
        else none) = none
      rw [hdot, Bool.and_false, Bool.false_and]
      rfl

/-- No point stands at a stop, so no name is qualified there. -/
theorem Stop.qualifiedRest {first : Token} {ts : List Token} (h : Stop ts) :
    qualifiedRest? first ts = none := by
  cases ts with
  | nil => rfl
  | cons t ts =>
      refine qualifiedRest_none (fun hk => ?_) ts
      have hstop := h t rfl
      rw [Token.continues, hk] at hstop
      exact nomatch hstop

/-- A qualified name is read in both, or its point is missing in both. -/
theorem qualifiedRest_twins {t t' : Token} (hR : ∀ first, qualifiedRest? first R = none)
    (hR' : ∀ first, qualifiedRest? first R' = none) (htwin : Twin R R' n m ts ts')
    (hsame : 0 < m → t' = t) : Together (fun x y => x.1 = y.1 ∧ Left R R' true n m x.2 y.2)
      (qualifiedRest? t ts) (qualifiedRest? t' ts') := by
  cases m with
  | zero =>
      obtain ⟨rfl, rfl, rfl⟩ := htwin.eq_zero
      rw [hR, hR']
      exact .fail
  | succ m =>
      obtain rfl := hsame (Nat.succ_pos m)
      obtain ⟨point, point', rest, rest', n', rfl, rfl, hkind, -, hlevel, hrest, hpos, hpoint⟩ :=
        htwin.uncons
      by_cases hdot : point.kind = .symbol .dot
      · have hplain := Token.plain_symbol hdot (by decide)
        obtain rfl := hplain.level hlevel
        have hm := hpos (by rw [Token.endsPhrase, hdot]; rfl)
        obtain rfl := hpoint hm
        obtain ⟨m, rfl⟩ := Nat.exists_eq_add_one_of_ne_zero (Nat.ne_of_gt hm)
        obtain ⟨u, u', behind, behind', k, rfl, rfl, hukind, hulexeme, hulevel, hbehind, -, -⟩ :=
          hrest.uncons
        rw [qualifiedRest?, qualifiedRest?, Token.identifier_congr hukind hulexeme]
        split
        · cases hname : u.identifier? with
          | none => exact .fail
          | some name =>
              obtain rfl := (Token.of_identifier hname).1.level hulevel
              exact .done ⟨rfl, m, by omega, by simp, hbehind⟩
        · exact .fail
      · rw [qualifiedRest_none hdot, qualifiedRest_none (by rw [hkind]; exact hdot)]
        exact .fail

theorem column_twins {M : Nat} (hR : ∀ first, qualifiedRest? first R = none)
    (hR' : ∀ first, qualifiedRest? first R' = none) : Agrees R R' False M id column column := by
  intro n m ts ts' _ hm htwin
  cases m with
  | zero => exact (hm rfl).elim
  | succ m =>
      obtain ⟨t, t', rest, rest', n', rfl, rfl, hkind, hlexeme, hlevel, hrest, -, hsame⟩ :=
        htwin.uncons
      unfold column
      dsimp only
      rw [Token.identifier_congr hkind hlexeme]
      cases hfirst : t.identifier? with
      | none => exact .fail
      | some first =>
          obtain rfl := (Token.of_identifier hfirst).1.level hlevel
          have hread := qualifiedRest_twins hR hR' hrest hsame
          dsimp only
          generalize qualifiedRest? t rest = a at hread ⊢
          generalize qualifiedRest? t' rest' = b at hread ⊢
          cases hread with
          | fail => exact .done ⟨rfl, m, Nat.lt_succ_self m, nofun, hrest⟩
          | @done x y h =>
              obtain ⟨second, rest⟩ := x
              obtain ⟨second', rest'⟩ := y
              obtain ⟨rfl, hrests⟩ := h
              exact .done ⟨rfl, hrests.mono (Nat.le_succ m)⟩

section Nested

variable {M : Nat} {nested nested' : Parser Expr} (h : Agrees R R' False M id nested nested')
include h

/-- What stands between the parentheses of a call. -/
theorem arguments_twins (hm : m < M) (htwin : Twin R R' (n + 1) m ts ts') :
    (arguments nested ts).1 = (arguments nested' ts').1 ∧ ∃ j ≤ m,
      Twin R R' (n + 1) j (arguments nested ts).2 (arguments nested' ts').2 := by
  have hpos := htwin.pos
  have hno : ∀ {P : Prop}, m = 0 → P := fun h => absurd hpos (h ▸ Nat.lt_irrefl 0)
  have hstar := symbol_twins htwin hno (show Symbol.star ≠ .openParen by decide) (by decide)
  unfold arguments
  generalize symbol .star ts = a at hstar ⊢
  generalize symbol .star ts' = b at hstar ⊢
  -- a star, a list or nothing; the level is above that of the rests, which are never reached
  -- inside of parentheses
  cases hstar with
  | done hrest =>
      obtain ⟨j, hj, -, hrest⟩ := hrest
      exact ⟨rfl, j, Nat.le_of_lt hj, hrest⟩
  | fail =>
      obtain ⟨hdistinct, j, hj, hjpos, hrest⟩ :=
        optKeyword_twins htwin (fun h => hno h) (show Keyword.distinct.endsPhrase = false from rfl)
      have hinside : n + 1 = 0 → symbol .comma R = none ∧ symbol .comma R' = none := nofun
      have hlist := commaList_twins h hinside (hjpos hpos) (Nat.lt_of_le_of_lt hj hm) hrest
      generalize optKeyword .distinct ts = x at hdistinct hlist ⊢
      generalize optKeyword .distinct ts' = y at hdistinct hlist ⊢
      obtain ⟨distinct, rest⟩ := x
      obtain ⟨distinct', rest'⟩ := y
      obtain rfl : distinct = distinct' := hdistinct
      dsimp only at hlist ⊢
      generalize commaList nested rest = a at hlist ⊢
      generalize commaList nested' rest' = b at hlist ⊢
      cases hlist with
      | fail => exact ⟨rfl, m, Nat.le_refl m, htwin⟩
      | @done t t' ht =>
          obtain ⟨hvalue, i, hi, -, hrests⟩ := ht
          rw [List.map_id, List.map_id] at hvalue
          refine ⟨?_, i, by omega, hrests⟩
          dsimp only
          rw [hvalue]

variable (hR : Stop R) (hR' : Stop R')
include hR hR'

/-- A call reads its own text off the tokens between its parentheses, and these are the same. -/
theorem call_twins : Agrees R R' False (M + 1) id (call nested) (call nested') := by
  intro n m ts ts' hmM hm htwin
  cases m with
  | zero => exact (hm rfl).elim
  | succ m =>
      obtain ⟨t, t', rest, rest', n', rfl, rfl, hkind, hlexeme, hlevel, hrest, -, -⟩ := htwin.uncons
      have hname : Together (fun x y => x = y ∧ t.functionName? = some x)
          t.functionName? t'.functionName? := by
        rw [Token.functionName_congr hkind hlexeme]
        cases t.functionName? with
        | none => exact .fail
        | some name => exact .done ⟨rfl, rfl⟩
      refine hname.bind ?_
      rintro name name' ⟨rfl, hname⟩
      obtain rfl := (Token.plain_functionName hname).level hlevel
      refine (open_twins hrest hR hR').bind ?_
      rintro inside inside' ⟨j, hj, -, hinside⟩
      obtain ⟨hargs, i, hi, hafter⟩ := arguments_twins h (by omega) hinside
      refine (close_twins hafter).bind ?_
      intro after after' hclose
      have hleft : Left R R' true n' (m + 1) after after' := hclose.mono (by omega)
      have hvalue : Expr.call name (arguments nested inside).1.args
          (arguments nested inside).1.distinct (arguments nested inside).1.star
          (sourceOf false (tokensBefore (t :: rest) after))
        = .call name (arguments nested' inside').1.args (arguments nested' inside').1.distinct
          (arguments nested' inside').1.star
          (sourceOf false (tokensBefore (t' :: rest') after')) := by
        rw [hargs, htwin.source_before hleft]
      exact .done ⟨hvalue, hleft⟩

theorem parenthesized_twins :
    Agrees R R' False (M + 1) id (parenthesized nested) (parenthesized nested') := by
  intro n m ts ts' hmM hm htwin
  refine (open_twins htwin hR hR').bind ?_
  rintro inside inside' ⟨j, hj, hpos, hinside⟩
  refine (h (n + 1) j inside inside' (by omega) (fun hz => ?_) hinside).bind ?_
  · exact absurd (hpos rfl) (hz ▸ Nat.lt_irrefl 0)
  · rintro e e' ⟨hvalue, i, hi, -, hrest⟩
    refine (close_twins hrest).bind ?_
    intro after after' hclose
    exact .done ⟨hvalue, hclose.mono (by omega)⟩

/-- A keyword and the expression behind it. -/
theorem afterKeyword_twins {k : Keyword} (hk : k.continues = true) (hends : k.endsPhrase = false) :
    Agrees R R' True (M + 1) id (afterKeyword k nested) (afterKeyword k nested') := by
  intro n m ts ts' hmM _ htwin
  have hread := keyword_twins htwin (fun _ => ⟨hR.keyword hk, hR'.keyword hk⟩)
  unfold afterKeyword
  generalize keyword k ts = a at hread ⊢
  generalize keyword k ts' = b at hread ⊢
  cases hread with
  | fail => exact .fail
  | @done rest rest' hrest =>
      obtain ⟨j, hj, hpos, hrest⟩ := hrest
      refine (h n j rest rest' (by omega) (fun hz => ?_) hrest).mono ?_
      · exact absurd (hpos hends) (hz ▸ Nat.lt_irrefl 0)
      · rintro t t' ⟨hvalue, hrests⟩
        exact ⟨hvalue, hrests.mono (Nat.le_of_lt hj)⟩

theorem branch_twins : Agrees R R' True (M + 1) id (branch nested) (branch nested') := by
  intro n m ts ts' hmM _ htwin
  refine (afterKeyword_twins h hR hR' rfl rfl n m ts ts' hmM (fun _ => trivial) htwin).bind ?_
  rintro condition condition' ⟨hcondition, j, hj, -, hrest⟩
  refine (afterKeyword_twins h hR hR' rfl rfl n j _ _ (by omega) (fun _ => trivial) hrest).bind ?_
  rintro result result' ⟨hresult, hrests⟩
  exact .done ⟨congrArg₂ Prod.mk hcondition hresult, hrests.mono (Nat.le_of_lt hj)⟩

/-- CASE ends with END, so that nothing is read behind it. -/
theorem case_twins :
    Agrees R R' False (M + 1) id (ExprParser.case nested) (ExprParser.case nested') := by
  intro n m ts ts' hmM hm htwin
  refine (keyword_twins htwin (fun hz => (hm hz).elim)).bind ?_
  rintro rest rest' ⟨j, hj, hpos, hrest⟩
  obtain ⟨hsubject, i, hi, hbranches⟩ :=
    optional_twins (h n j rest rest' (by omega) (fun hz => absurd (hpos rfl) (by omega)) hrest) hrest
  refine (branch_twins h hR hR' n i _ _ (by omega) (fun _ => trivial) hbranches).bind ?_
  rintro first first' ⟨hfirst, i', hi', -, hmore⟩
  -- each part is read in both up to the same place, and the rests begin with no part of a CASE
  have hnobranch : branch nested R = none ∧ branch nested' R' = none := by
    unfold branch afterKeyword
    rw [hR.keyword rfl, hR'.keyword rfl]
    exact ⟨rfl, rfl⟩
  obtain ⟨hvalues, i'', hi'', helse⟩ := many_twins
    (fun m ts ts' _ hm htwin => branch_twins h hR hR' n m ts ts' hm (fun _ => trivial) htwin)
    (fun _ => hnobranch) (show i' < M + 1 by omega) hmore
  obtain ⟨hother, k, hk, hend⟩ := optional_twins
    (afterKeyword_twins (k := .else) h hR hR' rfl rfl n i'' _ _ (by omega) (fun _ => trivial) helse)
    helse
  refine (keyword_twins hend (fun _ => ⟨hR.keyword rfl, hR'.keyword rfl⟩)).bind ?_
  intro after after' hafter
  rw [Option.map_id] at hsubject hother
  rw [List.map_id, List.map_id] at hvalues
  have hvalue : Expr.case (ExprParser.optional nested rest).1
      (first.value :: (many (branch nested) first.rest).value)
      (ExprParser.optional (afterKeyword .else nested) (many (branch nested) first.rest).rest).1
    = .case (ExprParser.optional nested' rest').1
      (first'.value :: (many (branch nested') first'.rest).value)
      (ExprParser.optional (afterKeyword .else nested')
        (many (branch nested') first'.rest).rest).1 :=
    congr (congr (congrArg Expr.case hsubject) (congrArg₂ List.cons hfirst hvalues)) hother
  exact .done ⟨hvalue, hafter.mono (by omega)⟩

/-- Ordered choice of primaries. -/
theorem primary_twins : Agrees R R' False (M + 1) id (primary nested) (primary nested') :=
  literal_twins.orElse ((case_twins h hR hR').orElse ((call_twins h hR hR').orElse
    ((column_twins (fun _ => hR.qualifiedRest) fun _ => hR'.qualifiedRest).orElse (parenthesized_twins h hR hR'))))

/-! ## Operators -/

theorem signed_twins : Agrees R R' False (M + 1) id (signed nested) (signed nested') := by
  intro n m ts ts' hmM hm htwin
  have hminus := symbol_twins htwin (fun hz => (hm hz).elim)
    (show Symbol.minus ≠ .openParen by decide) (by decide)
  unfold signed
  generalize symbol .minus ts = a at hminus ⊢
  generalize symbol .minus ts' = b at hminus ⊢
  cases hminus with
  | fail => exact primary_twins h hR hR' n m ts ts' hmM hm htwin
  | @done rest rest' hrest =>
      obtain ⟨j, hj, hpos, hrest⟩ := hrest
      refine (primary_twins h hR hR' n j rest rest' (by omega) (fun hz => ?_) hrest).map ?_
      · exact absurd (hpos rfl) (hz ▸ Nat.lt_irrefl 0)
      · rintro t t' ⟨hvalue, hrests⟩
        exact ⟨congrArg (Expr.unary .neg) hvalue, hrests.mono (Nat.le_of_lt hj)⟩

end Nested

/-! ## Operators and their operands -/

/-- Which operator a token is depends on its kind, and it is one that goes on
    with an expression. -/
structure IsOperator (op? : Token → Option BinaryOp) : Prop where
  congr : ∀ t t' : Token, t'.kind = t.kind → op? t' = op? t
  continues : ∀ t op, op? t = some op → t.continues = true
  ends : ∀ t op, op? t = some op → t.endsPhrase = false
  level : ∀ t op, op? t = some op → t.kind ≠ .symbol .openParen ∧ t.kind ≠ .symbol .closeParen

section Chain

variable {M : Nat} {op? : Token → Option BinaryOp} {operand operand' : Parser Expr}
  (hop : IsOperator op?) (h : Agrees R R' False M id operand operand') (hR : Stop R)
  (hR' : Stop R')
include hop

/-- No operator stands where an expression stops. -/
theorem Stop.operator {ts : List Token} (hstop : Stop ts) (operand : Parser Expr) :
    operatorAndOperand op? operand ts = none := by
  cases ts with
  | nil => rfl
  | cons t ts =>
      rw [operator_cons]
      cases hread : op? t with
      | none => rfl
      | some op => cases (hop.continues t op hread).symm.trans (hstop t rfl)

include h hR hR'

/-- Behind an operator the phrase goes on, so its operand is there in both. -/
theorem operator_twins :
    Agrees R R' True M id (operatorAndOperand op? operand) (operatorAndOperand op? operand') := by
  intro n m ts ts' hmM _ htwin
  cases m with
  | zero =>
      obtain ⟨-, rfl, rfl⟩ := htwin.eq_zero
      rw [hR.operator hop, hR'.operator hop]
      exact .fail
  | succ m =>
      obtain ⟨t, t', rest, rest', n', rfl, rfl, hkind, -, hlevel, hrest, hpos, -⟩ := htwin.uncons
      rw [operator_cons, operator_cons, hop.congr t t' hkind]
      cases hread : op? t with
      | none => exact .fail
      | some op =>
          have hlevel' := hop.level t op hread
          obtain rfl :=
            Option.some.inj ((Token.level_other hlevel'.1 hlevel'.2 n).symm.trans hlevel)
          refine (h n m rest rest' (by omega) (fun hz => ?_) hrest).map ?_
          · exact absurd (hpos (hop.ends t op hread)) (hz ▸ Nat.lt_irrefl 0)
          · rintro e e' ⟨hvalue, hrests⟩
            exact ⟨congrArg (Prod.mk op) hvalue, hrests.mono (Nat.le_succ m)⟩

/-- A chain ends where no operator stands, within the phrase or at its stop. -/
theorem chain_twins : Agrees R R' False M id (chain op? operand) (chain op? operand') := by
  intro n m ts ts' hmM hm htwin
  have hread := h n m ts ts' hmM hm htwin
  unfold ExprParser.chain
  generalize operand ts = a at hread ⊢
  generalize operand' ts' = b at hread ⊢
  cases hread with
  | fail => exact .fail
  | @done t t' ht =>
      obtain ⟨hvalue, j, hj, -, hrest⟩ := ht
      obtain ⟨hvalues, i, hi, hrests⟩ := many_twins
        (fun m ts ts' _ hm htwin =>
          operator_twins hop h hR hR' n m ts ts' hm (fun _ => trivial) htwin)
        (fun _ => ⟨hR.operator hop operand, hR'.operator hop operand'⟩)
        (Nat.lt_trans hj hmM) hrest
      rw [List.map_id, List.map_id] at hvalues
      refine .done ⟨?_, i, by omega, nofun, hrests⟩
      show List.foldl _ t.value _ = List.foldl _ t'.value _
      rw [hvalues, show t.value = t'.value from hvalue]

end Chain

/-- Signs that go on with an expression are operators. -/
theorem IsOperator.of_symbol {op? : Token → Option BinaryOp}
    (hcongr : ∀ t t' : Token, t'.kind = t.kind → op? t' = op? t)
    (h : ∀ t op, op? t = some op →
      ∃ s : Symbol, t.kind = .symbol s ∧ s.continues = true ∧ s ≠ .openParen) :
    IsOperator op? where
  congr := hcongr
  continues t op hop := by
    obtain ⟨s, hk, hs, -⟩ := h t op hop
    rw [Token.continues, hk]
    exact hs
  ends t op hop := by
    obtain ⟨s, hk, hs, -⟩ := h t op hop
    rw [Token.endsPhrase, hk]
    refine beq_false_of_ne ?_
    rintro rfl
    cases hs
  level t op hop := by
    obtain ⟨s, hk, hs, hopen⟩ := h t op hop
    rw [hk]
    refine ⟨fun h => hopen (TokenKind.symbol.inj h), fun h => ?_⟩
    obtain rfl := TokenKind.symbol.inj h
    cases hs

theorem isOperator_multiplicative : IsOperator multiplicativeOp? := by
  refine .of_symbol (fun t t' h => by rw [multiplicativeOp?, multiplicativeOp?, h])
    fun t op h => ?_
  unfold multiplicativeOp? at h
  split at h
  case h_4 => exact nomatch h
  all_goals exact ⟨_, by assumption, rfl, by decide⟩

theorem isOperator_additive : IsOperator additiveOp? := by
  refine .of_symbol (fun t t' h => by rw [additiveOp?, additiveOp?, h]) fun t op h => ?_
  unfold additiveOp? at h
  split at h
  case h_4 => exact nomatch h
  all_goals exact ⟨_, by assumption, rfl, by decide⟩

theorem isOperator_comparison : IsOperator comparisonOp? := by
  refine .of_symbol (fun t t' h => by rw [comparisonOp?, comparisonOp?, h]) fun t op h => ?_
  unfold comparisonOp? at h
  split at h
  case h_7 => exact nomatch h
  all_goals exact ⟨_, by assumption, rfl, by decide⟩

/-- AND and OR are operators, too. -/
theorem isOperator_keyword {k : Keyword} {op : BinaryOp} (hk : k.continues = true)
    (hends : k.endsPhrase = false) :
    IsOperator fun t => if t.isKeyword k then some op else none where
  congr t t' h := by rw [Token.isKeyword, Token.isKeyword, h]
  continues t op h := by
    split at h
    · rename_i hkind
      rw [Token.continues, beq_iff_eq.mp hkind]
      exact hk
    · exact nomatch h
  ends t op h := by
    split at h
    · rename_i hkind
      rw [Token.endsPhrase, beq_iff_eq.mp hkind]
      exact hends
    · exact nomatch h
  level _ _ h := ⟨(kind_of_keywordOp h).1, (kind_of_keywordOp h).2.1⟩

/-! ## Predicates and connectives -/

section Nested

variable {M : Nat} {nested nested' : Parser Expr} (h : Agrees R R' False M id nested nested')
  (hR : Stop R) (hR' : Stop R')
include h hR hR'

theorem additive_twins : Agrees R R' False (M + 1) id (additive nested) (additive nested') :=
  chain_twins isOperator_additive
    (chain_twins isOperator_multiplicative (signed_twins h hR hR') hR hR') hR hR'

omit h in
/-- IS NULL is two or three words. -/
theorem isNullTail_twins (e : Expr) :
    Agrees R R' True (M + 1) id (isNullTail e) (isNullTail e) := by
  intro n m ts ts' _ _ htwin
  refine (keyword_twins htwin (fun _ => ⟨hR.keyword rfl, hR'.keyword rfl⟩)).bind ?_
  rintro rest rest' ⟨j, hj, hpos, hrest⟩
  obtain ⟨hnot, i, hi, hipos, hnull⟩ := optKeyword_twins (k := .not) hrest
    (fun _ => ⟨hR.keyword rfl, hR'.keyword rfl⟩) rfl
  refine (keyword_twins hnull (fun hz => ?_)).bind ?_
  · exact absurd (hipos (hpos rfl)) (hz ▸ Nat.lt_irrefl 0)
  · intro after after' hafter
    have hvalue : Expr.isNull e (optKeyword .not rest).1 = .isNull e (optKeyword .not rest').1 := by
      rw [hnot]
    exact .done ⟨hvalue, hafter.mono (by omega)⟩

/-- A list of items is closed by its own parenthesis. -/
theorem inTail_twins (e : Expr) :
    Agrees R R' True (M + 1) id (inTail nested e) (inTail nested' e) := by
  intro n m ts ts' hmM _ htwin
  obtain ⟨hnot, i, hi, -, hin⟩ := optKeyword_twins (k := .not) htwin
    (fun _ => ⟨hR.keyword rfl, hR'.keyword rfl⟩) rfl
  refine (keyword_twins hin (fun _ => ⟨hR.keyword rfl, hR'.keyword rfl⟩)).bind ?_
  rintro rest rest' ⟨j, hj, -, hrest⟩
  refine (open_twins hrest hR hR').bind ?_
  rintro inside inside' ⟨l, hl, hpos, hinside⟩
  have hcomma : n + 1 = 0 → symbol .comma R = none ∧ symbol .comma R' = none := nofun
  refine (commaList_twins h hcomma (hpos rfl) (by omega) hinside).bind ?_
  rintro items items' ⟨hitems, l', hl', -, hclose⟩
  refine (close_twins hclose).bind ?_
  intro after after' hafter
  rw [List.map_id, List.map_id] at hitems
  have hvalue : Expr.inList e items.value (optKeyword .not ts).1
      = .inList e items'.value (optKeyword .not ts').1 := by
    rw [hitems, hnot]
  exact .done ⟨hvalue, hafter.mono (by omega)⟩

/-- The AND of BETWEEN belongs to it, since sums are read on both sides of it. -/
theorem betweenTail_twins (e : Expr) :
    Agrees R R' True (M + 1) id (betweenTail nested e) (betweenTail nested' e) := by
  intro n m ts ts' hmM _ htwin
  obtain ⟨hnot, i, hi, -, hbetween⟩ := optKeyword_twins (k := .not) htwin
    (fun _ => ⟨hR.keyword rfl, hR'.keyword rfl⟩) rfl
  refine (keyword_twins hbetween (fun _ => ⟨hR.keyword rfl, hR'.keyword rfl⟩)).bind ?_
  rintro rest rest' ⟨j, hj, hpos, hrest⟩
  refine (additive_twins h hR hR' n j rest rest' (by omega) (fun hz => ?_) hrest).bind ?_
  · exact absurd (hpos rfl) (hz ▸ Nat.lt_irrefl 0)
  · rintro low low' ⟨hlow, l, hl, -, hand⟩
    refine (keyword_twins hand (fun _ => ⟨hR.keyword rfl, hR'.keyword rfl⟩)).bind ?_
    rintro behind behind' ⟨l', hl', hpos', hbehind⟩
    refine (additive_twins h hR hR' n l' behind behind' (by omega) (fun hz => ?_) hbehind).bind ?_
    · exact absurd (hpos' rfl) (hz ▸ Nat.lt_irrefl 0)
    · rintro high high' ⟨hhigh, hrests⟩
      have hvalue : Expr.between e low.value high.value (optKeyword .not ts).1
          = .between e low'.value high'.value (optKeyword .not ts').1 := by
        rw [hnot, show low.value = low'.value from hlow, show high.value = high'.value from hhigh]
      exact .done ⟨hvalue, hrests.mono (by omega)⟩

theorem likeTail_twins (e : Expr) :
    Agrees R R' True (M + 1) id (likeTail nested e) (likeTail nested' e) := by
  intro n m ts ts' hmM _ htwin
  obtain ⟨hnot, i, hi, -, hlike⟩ := optKeyword_twins (k := .not) htwin
    (fun _ => ⟨hR.keyword rfl, hR'.keyword rfl⟩) rfl
  refine (keyword_twins hlike (fun _ => ⟨hR.keyword rfl, hR'.keyword rfl⟩)).bind ?_
  rintro rest rest' ⟨j, hj, hpos, hrest⟩
  refine (additive_twins h hR hR' n j rest rest' (by omega) (fun hz => ?_) hrest).bind ?_
  · exact absurd (hpos rfl) (hz ▸ Nat.lt_irrefl 0)
  · rintro pattern pattern' ⟨hpattern, hrests⟩
    have hvalue : (if (optKeyword .not ts).1 then Expr.unary .not (.binary .like e pattern.value)
          else .binary .like e pattern.value)
        = if (optKeyword .not ts').1 then .unary .not (.binary .like e pattern'.value)
          else .binary .like e pattern'.value := by
      rw [hnot, show pattern.value = pattern'.value from hpattern]
    exact .done ⟨hvalue, hrests.mono (by omega)⟩

theorem comparisonTail_twins (e : Expr) :
    Agrees R R' True (M + 1) id (comparisonTail nested e) (comparisonTail nested' e) := by
  refine (operator_twins isOperator_comparison (additive_twins h hR hR') hR hR').map ?_
  rintro x y rfl
  rfl

theorem predicateTail_twins (e : Expr) :
    Agrees R R' True (M + 1) id (predicateTail nested e) (predicateTail nested' e) :=
  (isNullTail_twins hR hR' e).orElse ((inTail_twins h hR hR' e).orElse
    ((betweenTail_twins h hR hR' e).orElse ((likeTail_twins h hR hR' e).orElse
      (comparisonTail_twins h hR hR' e))))

/-- A predicate is a sum, with a tail in both or in neither. -/
theorem predicate_twins : Agrees R R' False (M + 1) id (predicate nested) (predicate nested') := by
  intro n m ts ts' hmM hm htwin
  rw [predicate_eq, predicate_eq]
  refine (additive_twins h hR hR' n m ts ts' hmM hm htwin).bind ?_
  rintro subject subject' ⟨hsubject, j, hj, -, hrest⟩
  have htail := predicateTail_twins h hR hR' subject'.value n j subject.rest subject'.rest
    (by omega) (fun _ => trivial) hrest
  rw [show subject.value = subject'.value from hsubject]
  generalize predicateTail nested subject'.value subject.rest = a at htail ⊢
  generalize predicateTail nested' subject'.value subject'.rest = b at htail ⊢
  cases htail with
  | fail => exact .done ⟨rfl, j, hj, nofun, hrest⟩
  | done ht => exact .done ⟨ht.1, ht.2.mono (Nat.le_of_lt hj)⟩

/-- The induction is on the size of the twins, as NOT may be repeated. -/
theorem negation_twins : Agrees R R' False (M + 1) id (negation nested) (negation nested') := by
  intro n m
  induction m generalizing n with
  | zero => intro ts ts' _ hm _; exact (hm rfl).elim
  | succ m ih =>
      intro ts ts' hmM hm htwin
      have hpredicate := predicate_twins h hR hR' n (m + 1) ts ts' hmM hm htwin
      obtain ⟨t, t', rest, rest', n', rfl, rfl, hkind, -, hlevel, hrest, hpos, -⟩ := htwin.uncons
      have hsame : t'.isKeyword .not = t.isKeyword .not := by
        rw [Token.isKeyword, Token.isKeyword, hkind]
      rw [negation, negation, hsame]
      by_cases hnot : t.isKeyword .not = true
      · have hk := beq_iff_eq.mp hnot
        obtain rfl := (Token.plain_keyword hk).level hlevel
        have hmpos : 0 < m := hpos (by rw [Token.endsPhrase, hk]; rfl)
        have hread := ih n' rest rest' (by omega) (fun hz => absurd hmpos (by omega)) hrest
        rw [if_pos hnot, if_pos hnot]
        generalize negation nested rest = a at hread ⊢
        generalize negation nested' rest' = b at hread ⊢
        cases hread with
        | fail => exact hpredicate
        | done he =>
            exact .done ⟨congrArg (Expr.unary .not) he.1, he.2.mono (Nat.le_succ m)⟩
      · rw [if_neg hnot, if_neg hnot]
        exact hpredicate

/-- A level of expressions agrees if the one below it does. This is the step of `expr_agrees`. -/
theorem disjunction_twins :
    Agrees R R' False (M + 1) id (disjunction nested) (disjunction nested') :=
  chain_twins (isOperator_keyword rfl rfl)
    (chain_twins (isOperator_keyword rfl rfl) (negation_twins h hR hR') hR hR') hR hR'

end Nested

/-- Expressions in front of `R` and of `R'` are read the same way, however deep
    they may nest. -/
theorem expr_agrees (hR : Stop R) (hR' : Stop R') : ∀ M depth depth', M ≤ depth → M ≤ depth' →
    Agrees R R' False M id (expr depth) (expr depth') := by
  intro M
  induction M with
  | zero => intro _ _ _ _ n m ts ts' hm; exact absurd hm (Nat.not_lt_zero m)
  | succ M ih =>
      intro depth depth' hdepth hdepth'
      cases depth with
      | zero => exact absurd hdepth (Nat.not_succ_le_zero M)
      | succ depth =>
          cases depth' with
          | zero => exact absurd hdepth' (Nat.not_succ_le_zero M)
          | succ depth' =>
              exact disjunction_twins (ih depth depth' (Nat.le_of_succ_le_succ hdepth)
                (Nat.le_of_succ_le_succ hdepth')) hR hR'

end Twins

end QueryReplay.Sql
