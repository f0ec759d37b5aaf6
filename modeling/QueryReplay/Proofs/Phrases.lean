import Mathlib.Data.List.Chain
import QueryReplay.Proofs.Spelling
import QueryReplay.Sql.Statement.Parser

/-! # Phrases — what the parsers of expressions take

    A parser of expressions takes a phrase off the front of the tokens: its
    parentheses are balanced, it begins with no star, it ends in a token that
    can end an expression, and it has no slash with a star behind it and no
    semicolon.  Each parser is shown to take phrases from the fact that those
    below it do (`Takes`), and `expr_takes` ties the knot. -/

namespace QueryReplay.Sql

open QueryReplay.Sql.Parser QueryReplay.Sql.ExprParser
open Lexer (Apart IsFinal)

/-! ## Levels of parentheses -/

/-- The level of parentheses behind a token; none behind one that closes too many. -/
def Token.level? (t : Token) (n : Nat) : Option Nat :=
  if t.isSymbol .openParen then some (n + 1)
  else if t.isSymbol .closeParen then (if n = 0 then none else some (n - 1))
  else some n

/-- The level of parentheses behind tokens. -/
def level? : List Token → Nat → Option Nat
  | [], n => some n
  | t :: ts, n => (t.level? n).bind (level? ts)

/-- The level behind two parts is that of the second one, begun where the first one ended. -/
theorem level_append (ts us : List Token) (n : Nat) :
    level? (ts ++ us) n = (level? ts n).bind (level? us) := by
  induction ts generalizing n with
  | nil => rfl
  | cons t ts ih =>
      show (t.level? n).bind (level? (ts ++ us)) = ((t.level? n).bind (level? ts)).bind (level? us)
      rw [Option.bind_assoc]
      exact congrArg _ (funext ih)

/-- A token that is no parenthesis keeps the level. -/
theorem Token.level_other {t : Token} (hopen : t.kind ≠ .symbol .openParen)
    (hclose : t.kind ≠ .symbol .closeParen) (n : Nat) : t.level? n = some n := by
  have hopen' : t.isSymbol .openParen = false := beq_false_of_ne hopen
  have hclose' : t.isSymbol .closeParen = false := beq_false_of_ne hclose
  rw [level?, hopen', hclose']
  rfl

theorem Token.level_open {t : Token} (h : t.kind = .symbol .openParen) (n : Nat) :
    t.level? n = some (n + 1) := by
  rw [level?, if_pos (show t.isSymbol .openParen = true from beq_iff_eq.mpr h)]

theorem Token.level_close {t : Token} (h : t.kind = .symbol .closeParen) (n : Nat) :
    t.level? (n + 1) = some n := by
  have hopen : t.isSymbol .openParen = false := by
    refine beq_false_of_ne ?_
    rw [h]
    decide
  rw [level?, hopen, if_pos (show t.isSymbol .closeParen = true from beq_iff_eq.mpr h)]
  rfl

/-! ## Tokens by their place -/

/-- A keyword that can end an expression or a sort key. -/
def Keyword.endsPhrase (k : Keyword) : Bool :=
  k == .null || k == .true || k == .false || k == .end || k == .asc || k == .desc

/-- A token that can end an expression or a sort key. -/
def Token.endsPhrase (t : Token) : Bool :=
  match t.kind with
  | .name => true
  | .quoted => true
  | .number => true
  | .text => true
  | .keyword k => k.endsPhrase
  | .symbol s => s == .closeParen

/-- A token that has no part in balancing parentheses and is no star and no semicolon. -/
def Token.IsPlain (t : Token) : Prop :=
  t.kind ≠ .symbol .openParen ∧ t.kind ≠ .symbol .closeParen ∧ t.kind ≠ .symbol .star
    ∧ t.kind ≠ .symbol .semicolon

/-- What ends a phrase may end a text of the statement. -/
theorem Token.isFinal_of_endsPhrase {t : Token} (h : t.endsPhrase = true) : IsFinal t := by
  refine ⟨?_, ?_, ?_⟩ <;>
    (intro hk; rw [endsPhrase, hk] at h; exact absurd h (by decide))

/-- No phrase ends with a slash. -/
theorem Token.ne_slash_of_endsPhrase {t : Token} (h : t.endsPhrase = true) :
    t.kind ≠ .symbol .slash := (isFinal_of_endsPhrase h).2.1

/-! ## Runs and phrases -/

/-- Tokens with balanced parentheses that begin with no star and hold no semicolon. -/
structure Run (ts : List Token) : Prop where
  balanced : ∀ n, level? ts n = some n
  apart : ts.IsChain Apart
  head : ∀ t ∈ ts.head?, t.kind ≠ .symbol .star
  unended : ∀ t ∈ ts, t.kind ≠ .symbol .semicolon

/-- A run that ends like an expression. -/
structure Phrase (ts : List Token) : Prop extends Run ts where
  ends : ∃ front t, ts = front ++ [t] ∧ t.endsPhrase = true

/-- The last token of a phrase ends it. -/
theorem Phrase.endsPhrase {front : List Token} {t : Token} (h : Phrase (front ++ [t])) :
    t.endsPhrase = true := by
  obtain ⟨front', u, heq, hu⟩ := h.ends
  obtain rfl : t = u := (List.cons.inj (List.append_inj_right' heq rfl)).1
  exact hu

theorem Run.nil : Run [] where
  balanced _ := rfl
  apart := .nil
  head _ h := nomatch h
  unended _ h := nomatch h

/-- A plain token makes a run. -/
theorem Run.single {t : Token} (h : t.IsPlain) : Run [t] where
  balanced n := by
    show (t.level? n).bind (level? []) = some n
    rw [Token.level_other h.1 h.2.1]
    rfl
  apart := .singleton t
  head u hu := by
    obtain rfl : t = u := Option.some.inj hu
    exact h.2.2.1
  unended u hu := List.mem_singleton.mp hu ▸ h.2.2.2

/-- Two runs behind one another make one. -/
theorem Run.append {ts us : List Token} (hts : Run ts) (hus : Run us) : Run (ts ++ us) where
  balanced n := by rw [level_append, hts.balanced, Option.bind_some, hus.balanced]
  apart := hts.apart.append hus.apart fun _ _ u hu h => hus.head u hu h.2
  head t ht := by
    cases ts with
    | nil => exact hus.head t ht
    | cons s ts => exact hts.head t ht
  unended := List.forall_mem_append.mpr ⟨hts.unended, hus.unended⟩

theorem Run.cons {t : Token} {ts : List Token} (h : t.IsPlain) (hts : Run ts) : Run (t :: ts) :=
  (Run.single h).append hts

/-- A run in parentheses. -/
theorem Run.enclosed {o c : Token} {ts : List Token} (ho : o.kind = .symbol .openParen)
    (hc : c.kind = .symbol .closeParen) (hts : Run ts) : Run (o :: ts ++ [c]) where
  balanced n := by
    rw [List.cons_append]
    show (o.level? n).bind (level? (ts ++ [c])) = some n
    rw [Token.level_open ho, Option.bind_some, level_append, hts.balanced, Option.bind_some]
    show (c.level? (n + 1)).bind (level? []) = some n
    rw [Token.level_close hc]
    rfl
  apart := by
    have hts' : (ts ++ [c]).IsChain Apart := hts.apart.append (.singleton c) fun _ _ u hu h => by
      obtain rfl : c = u := Option.some.inj hu
      rw [hc] at h
      exact nomatch h.2
    refine hts'.cons (fun u _ h => ?_)
    rw [ho] at h
    exact nomatch h.1
  head t ht := by
    obtain rfl : o = t := Option.some.inj ht
    rw [ho]
    decide
  unended := by
    refine List.forall_mem_append.mpr ⟨List.forall_mem_cons.mpr ⟨?_, hts.unended⟩,
      List.forall_mem_singleton.mpr ?_⟩
    · rw [ho]
      decide
    · rw [hc]
      decide

/-- A token between two expressions: no parenthesis and no semicolon. -/
def Token.IsBetween (t : Token) : Prop :=
  t.kind ≠ .symbol .openParen ∧ t.kind ≠ .symbol .closeParen ∧ t.kind ≠ .symbol .semicolon

/-- An operator between, also a star. -/
theorem Phrase.operator {ts us : List Token} {op : Token} (hts : Phrase ts) (hus : Phrase us)
    (hop : op.IsBetween) : Phrase (ts ++ op :: us) where
  balanced n := by
    rw [level_append, hts.balanced, Option.bind_some]
    show (op.level? n).bind (level? us) = some n
    rw [Token.level_other hop.1 hop.2.1, Option.bind_some, hus.balanced]
  apart := by
    obtain ⟨front, t, rfl, ht⟩ := hts.ends
    refine hts.apart.append (hus.apart.cons fun u hu h => hus.head u hu h.2) ?_
    rintro s hs u - h
    rw [List.getLast?_concat] at hs
    obtain rfl : t = s := Option.some.inj hs
    exact Token.ne_slash_of_endsPhrase ht h.1
  head t ht := by
    obtain ⟨front, s, rfl, -⟩ := hts.ends
    refine hts.head t ?_
    cases front with
    | nil => exact ht
    | cons r front => exact ht
  unended := List.forall_mem_append.mpr ⟨hts.unended,
    List.forall_mem_cons.mpr ⟨hop.2.2, hus.unended⟩⟩
  ends := by
    obtain ⟨front, t, rfl, ht⟩ := hus.ends
    exact ⟨ts ++ op :: front, t, by rw [List.append_assoc]; rfl, ht⟩

/-- A run in front of a phrase. -/
theorem Phrase.behind {ts us : List Token} (hts : Run ts) (hus : Phrase us) :
    Phrase (ts ++ us) where
  toRun := hts.append hus.toRun
  ends := by
    obtain ⟨front, t, rfl, ht⟩ := hus.ends
    exact ⟨ts ++ front, t, (List.append_assoc _ _ _).symm, ht⟩

/-- A token that ends a phrase behind a run. -/
theorem Phrase.concat {ts : List Token} {t : Token} (hts : Run ts) (hplain : t.IsPlain)
    (ht : t.endsPhrase = true) : Phrase (ts ++ [t]) where
  toRun := hts.append (Run.single hplain)
  ends := ⟨ts, t, rfl, ht⟩

/-- A plain token that ends a phrase is one. -/
theorem Phrase.single {t : Token} (hplain : t.IsPlain) (ht : t.endsPhrase = true) : Phrase [t] :=
  Phrase.concat Run.nil hplain ht

/-- A closing parenthesis ends a phrase. -/
theorem Phrase.enclosed {o c : Token} {ts : List Token} (ho : o.kind = .symbol .openParen)
    (hc : c.kind = .symbol .closeParen) (hts : Run ts) : Phrase (o :: ts ++ [c]) where
  toRun := Run.enclosed ho hc hts
  ends := ⟨o :: ts, c, rfl, by rw [Token.endsPhrase, hc]; rfl⟩

/-! ## Single tokens -/

/-- A keyword is one token of its kind. -/
theorem keyword_some {k : Keyword} {ts rest : List Token} (h : keyword k ts = some rest) :
    ∃ t, ts = t :: rest ∧ t.kind = .keyword k := by
  cases ts with
  | nil => exact nomatch h
  | cons t ts =>
      rw [show keyword k (t :: ts) = if t.isKeyword k then some ts else none from rfl] at h
      split at h
      · rename_i hk
        obtain rfl := Option.some.inj h
        exact ⟨t, rfl, beq_iff_eq.mp hk⟩
      · exact nomatch h

/-- A symbol is one token of its kind. -/
theorem symbol_some {s : Symbol} {ts rest : List Token} (h : symbol s ts = some rest) :
    ∃ t, ts = t :: rest ∧ t.kind = .symbol s := by
  cases ts with
  | nil => exact nomatch h
  | cons t ts =>
      rw [show symbol s (t :: ts) = if t.isSymbol s then some ts else none from rfl] at h
      split at h
      · rename_i hk
        obtain rfl := Option.some.inj h
        exact ⟨t, rfl, beq_iff_eq.mp hk⟩
      · exact nomatch h

/-- What is no symbol is plain. -/
theorem Token.plain_of_kind {t : Token} (h : ∀ s, t.kind ≠ .symbol s) : t.IsPlain :=
  ⟨h _, h _, h _, h _⟩

/-- Keywords are plain. -/
theorem Token.plain_keyword {t : Token} {k : Keyword} (h : t.kind = .keyword k) : t.IsPlain :=
  plain_of_kind fun _ hk => nomatch h.symm.trans hk

/-- Operators and marks are plain, except for parentheses, the star and the semicolon. -/
theorem Token.plain_symbol {t : Token} {s : Symbol} (h : t.kind = .symbol s)
    (hs : s ∉ [.openParen, .closeParen, .star, .semicolon]) : t.IsPlain := by
  refine ⟨?_, ?_, ?_, ?_⟩ <;>
    (rw [h]; intro hk; rw [TokenKind.symbol.inj hk] at hs; exact hs (by decide))

/-- An identifier is plain and ends a phrase. -/
theorem Token.of_identifier {t : Token} {name : String} (h : t.identifier? = some name) :
    t.IsPlain ∧ t.endsPhrase = true := by
  unfold identifier? at h
  unfold IsPlain endsPhrase
  split at h
  · rename_i hk
    rw [hk]
    exact ⟨⟨nofun, nofun, nofun, nofun⟩, rfl⟩
  · rename_i hk
    rw [hk]
    exact ⟨⟨nofun, nofun, nofun, nofun⟩, rfl⟩
  · exact nomatch h

/-- The name of a function is plain. -/
theorem Token.plain_functionName {t : Token} {name : String} (h : t.functionName? = some name) :
    t.IsPlain := by
  unfold functionName? at h
  unfold IsPlain
  split at h
  · rename_i hk
    rw [hk]
    exact ⟨nofun, nofun, nofun, nofun⟩
  · rename_i hk
    rw [hk]
    exact ⟨nofun, nofun, nofun, nofun⟩
  · exact nomatch h

/-- A literal is plain and ends a phrase. -/
theorem Token.of_literal {t : Token} {v : Literal} (h : literal? t = some v) :
    t.IsPlain ∧ t.endsPhrase = true := by
  unfold literal? at h
  unfold IsPlain endsPhrase
  split at h
  case h_6 => exact nomatch h
  all_goals
    rename_i hk
    rw [hk]
    exact ⟨⟨nofun, nofun, nofun, nofun⟩, rfl⟩

/-- An optional keyword takes nothing or itself. -/
theorem optKeyword_run (k : Keyword) (ts : List Token) :
    ∃ used, ts = used ++ (optKeyword k ts).2 ∧ Run used := by
  unfold optKeyword
  cases h : keyword k ts with
  | some rest =>
      obtain ⟨t, rfl, ht⟩ := keyword_some h
      exact ⟨[t], rfl, Run.single (Token.plain_keyword ht)⟩
  | none => exact ⟨[], rfl, Run.nil⟩

/-! ## Parsers that take phrases -/

/-- Whatever the parser takes is a phrase. -/
def Takes {α : Type} (p : Parser α) : Prop :=
  ∀ ts t, p ts = some t → ∃ used, ts = used ++ t.rest ∧ Phrase used

section Combinators

variable {α β : Type} {p q : Parser α}

theorem Takes.map (h : Takes p) (f : α → β) : Takes (Parser.map f p) := by
  intro ts t ht
  obtain ⟨t', ht', rfl⟩ := Option.map_eq_some_iff.mp ht
  exact h ts t' ht'

/-- Ordered choice reads with the first alternative, or with the second where the first
    one fails. -/
theorem orElse_cases {ts : List Token} {t : Taken α} (h : p.orElse q ts = some t) :
    p ts = some t ∨ p ts = none ∧ q ts = some t := by
  unfold Parser.orElse at h
  cases hread : p ts with
  | some t' =>
      rw [hread] at h
      exact .inl h
  | none =>
      rw [hread] at h
      exact .inr ⟨rfl, h⟩

/-- Whichever alternative is taken, it takes a phrase. -/
theorem Takes.orElse (hp : Takes p) (hq : Takes q) : Takes (p.orElse q) := by
  intro ts t ht
  rcases orElse_cases ht with hread | ⟨-, hread⟩
  · exact hp ts t hread
  · exact hq ts t hread

/-- A repetition takes nothing where its part takes nothing. -/
theorem many_none {ts : List Token} (h : p ts = none) : many p ts = ⟨[], ts, true⟩ := by
  rw [many]
  cases ts.length with
  | zero => rfl
  | succ n => rw [manyUpTo, h]; rfl

/-- A repetition keeps what each of its parts keeps. -/
theorem manyUpTo_takes (good : List Token → Prop)
    (hstep : ∀ before ts t, good before → p ts = some t →
      ∃ used, ts = used ++ t.rest ∧ good (before ++ used)) :
    ∀ (fuel : Nat) (done : List α) (o : Bool) (ts before : List Token), good before →
      ∃ used, ts = used ++ (manyUpTo p fuel done o ts).rest ∧ good (before ++ used) := by
  intro fuel
  induction fuel with
  | zero =>
      intro done o ts before hgood
      exact ⟨[], rfl, by rw [List.append_nil]; exact hgood⟩
  | succ fuel ih =>
      intro done o ts before hgood
      rw [manyUpTo]
      cases hread : p ts with
      | none => exact ⟨[], rfl, by rw [List.append_nil]; exact hgood⟩
      | some t =>
          obtain ⟨used, rfl, hused⟩ := hstep before ts t hgood hread
          obtain ⟨more, hmore, hall⟩ := ih (t.value :: done) t.open? t.rest (before ++ used) hused
          refine ⟨used ++ more, ?_, by rw [← List.append_assoc]; exact hall⟩
          rw [List.append_assoc, ← hmore]

/-- What holds of the values so far and of the tokens left holds at the end of a repetition. -/
theorem manyUpTo_invariant (good : List α → List Token → Prop)
    (hstep : ∀ vs ts t, good vs ts → p ts = some t → good (vs ++ [t.value]) t.rest) :
    ∀ (fuel : Nat) (gone : List α) (o : Bool) (ts : List Token), good gone.reverse ts →
      good (manyUpTo p fuel gone o ts).value (manyUpTo p fuel gone o ts).rest := by
  intro fuel
  induction fuel with
  | zero => intro gone o ts h; exact h
  | succ fuel ih =>
      intro gone o ts h
      rw [manyUpTo]
      cases hread : p ts with
      | none => exact h
      | some t =>
          refine ih (t.value :: gone) t.open? t.rest ?_
          rw [List.reverse_cons]
          exact hstep gone.reverse ts t h hread

/-- Phrases behind commas make the phrase longer. -/
theorem Takes.commaList (h : Takes p) : Takes (Parser.commaList p) := by
  intro ts t ht
  unfold Parser.commaList at ht
  cases hfirst : p ts with
  | none => rw [hfirst] at ht; exact nomatch ht
  | some first =>
      rw [hfirst] at ht
      obtain rfl := Option.some.inj ht
      obtain ⟨used, rfl, hused⟩ := h ts first hfirst
      have hstep : ∀ before ts t, Phrase before → afterComma p ts = some t →
          ∃ used, ts = used ++ t.rest ∧ Phrase (before ++ used) := by
        intro before ts t hbefore hread
        unfold afterComma at hread
        cases hcomma : symbol .comma ts with
        | none => rw [hcomma] at hread; exact nomatch hread
        | some rest =>
            rw [hcomma] at hread
            obtain ⟨c, rfl, hc⟩ := symbol_some hcomma
            obtain ⟨more, rfl, hmore⟩ := h rest t hread
            refine ⟨c :: more, rfl, hbefore.operator hmore ?_⟩
            rw [Token.IsBetween, hc]
            decide
      obtain ⟨more, hmore, hall⟩ :=
        manyUpTo_takes Phrase hstep first.rest.length [] true first.rest used hused
      exact ⟨used ++ more, by rw [List.append_assoc]; exact congrArg _ hmore, hall⟩

/-- An operator is one token, and what follows it is read as its operand. -/
theorem operator_cons (op? : Token → Option BinaryOp) (operand : Parser Expr) (t : Token)
    (ts : List Token) : operatorAndOperand op? operand (t :: ts)
      = (op? t).bind fun op => operand.map (fun e => (op, e)) ts := by
  rw [operatorAndOperand]
  cases op? t <;> rfl

/-- An operator and its operand, behind a phrase. -/
theorem operator_takes {op? : Token → Option BinaryOp} {operand : Parser Expr}
    (hop : ∀ t op, op? t = some op → t.IsBetween)
    (h : Takes operand) (before ts : List Token) (t : Taken (BinaryOp × Expr))
    (hbefore : Phrase before) (hread : operatorAndOperand op? operand ts = some t) :
    ∃ used, ts = used ++ t.rest ∧ Phrase (before ++ used) := by
  cases ts with
  | nil => cases hread
  | cons s ts =>
      rw [operator_cons] at hread
      cases hs : op? s with
      | none => rw [hs] at hread; cases hread
      | some op =>
          rw [hs] at hread
          obtain ⟨e, he, rfl⟩ := Option.map_eq_some_iff.mp hread
          obtain ⟨used, rfl, hused⟩ := h ts e he
          exact ⟨s :: used, rfl, hbefore.operator hused (hop s op hs)⟩

/-- Operands are phrases, and the operators between them are runs. -/
theorem Takes.chain {op? : Token → Option BinaryOp} {operand : Parser Expr}
    (hop : ∀ t op, op? t = some op → t.IsBetween)
    (h : Takes operand) : Takes (chain op? operand) := by
  intro ts t ht
  unfold ExprParser.chain at ht
  cases hfirst : operand ts with
  | none => rw [hfirst] at ht; exact nomatch ht
  | some first =>
      rw [hfirst] at ht
      obtain rfl := Option.some.inj ht
      obtain ⟨used, rfl, hused⟩ := h ts first hfirst
      obtain ⟨more, hmore, hall⟩ :=
        manyUpTo_takes Phrase (operator_takes hop h) first.rest.length [] true first.rest used hused
      exact ⟨used ++ more, by rw [List.append_assoc]; exact congrArg _ hmore, hall⟩

end Combinators

/-! ## Primaries -/

/-- A literal is one token that ends a phrase. -/
theorem literal_takes : Takes literal := by
  intro ts t h
  cases ts with
  | nil => exact nomatch h
  | cons s ts =>
      obtain ⟨v, hv, rfl⟩ := Option.map_eq_some_iff.mp
        (show (literal? s).map (fun v => (⟨.literal v, ts, false⟩ : Taken Expr)) = some t from h)
      obtain ⟨hplain, hends⟩ := Token.of_literal hv
      exact ⟨[s], rfl, Phrase.single hplain hends⟩

/-- Behind a name, a qualified one goes on with a point and a second name. -/
theorem qualifiedRest_some {first : Token} {ts rest : List Token} {name : String}
    (h : qualifiedRest? first ts = some (name, rest)) :
    ∃ point t, ts = point :: t :: rest ∧ first.gap.isEmpty = true ∧ point.kind = .symbol .dot
      ∧ point.gap.isEmpty = true ∧ t.identifier? = some name := by
  unfold qualifiedRest? at h
  split at h
  · rename_i point t more
    split at h
    · rename_i hcond
      rw [Bool.and_eq_true, Bool.and_eq_true] at hcond
      obtain ⟨name', hname, heq⟩ := Option.map_eq_some_iff.mp h
      obtain ⟨rfl, rfl⟩ := Prod.mk.inj heq
      exact ⟨point, t, rfl, hcond.1.1, beq_iff_eq.mp hcond.1.2, hcond.2, hname⟩
    · exact nomatch h
  · exact nomatch h

/-- A column is one name, or two with a point between them. -/
theorem column_takes : Takes column := by
  intro ts t h
  cases ts with
  | nil => exact nomatch h
  | cons s ts =>
      unfold column at h
      dsimp only at h
      cases hfirst : s.identifier? with
      | none => rw [hfirst] at h; exact nomatch h
      | some first =>
          rw [hfirst] at h
          obtain ⟨hplain, hends⟩ := Token.of_identifier hfirst
          dsimp only at h
          cases hrest : qualifiedRest? s ts with
          | none =>
              rw [hrest] at h
              obtain rfl := Option.some.inj h
              exact ⟨[s], rfl, Phrase.single hplain hends⟩
          | some second =>
              obtain ⟨name, rest⟩ := second
              rw [hrest] at h
              obtain rfl := Option.some.inj h
              obtain ⟨point, u, rfl, -, hpoint, -, hu⟩ := qualifiedRest_some hrest
              obtain ⟨huplain, huends⟩ := Token.of_identifier hu
              have hdot : point.IsPlain :=
                Token.plain_symbol hpoint (by decide)
              exact ⟨[s, point, u], rfl,
                Phrase.behind (.cons hplain (.single hdot)) (.single huplain huends)⟩

section Nested

variable {nested : Parser Expr}

/-- What stands between the parentheses of a call. -/
theorem arguments_enclosed (h : Takes nested) {o c : Token} (ho : o.kind = .symbol .openParen)
    (hc : c.kind = .symbol .closeParen) (ts : List Token) :
    ∃ used, ts = used ++ (arguments nested ts).2 ∧ Phrase (o :: used ++ [c]) := by
  unfold arguments
  -- a star, or a list behind DISTINCT, or nothing; the parentheses around it make the phrase
  cases hstar : symbol .star ts with
  | some rest =>
      obtain ⟨s, rfl, hs⟩ := symbol_some hstar
      refine ⟨[s], rfl, ⟨⟨fun n => ?_, ?_, ?_, ?_⟩, [o, s], c, rfl, ?_⟩⟩
      · show (o.level? n).bind (level? [s, c]) = some n
        rw [Token.level_open ho, Option.bind_some]
        show (s.level? (n + 1)).bind (level? [c]) = some n
        rw [Token.level_other (by rw [hs]; decide) (by rw [hs]; decide), Option.bind_some]
        show (c.level? (n + 1)).bind (level? []) = some n
        rw [Token.level_close hc]
        rfl
      · refine List.isChain_cons_cons.mpr ⟨fun h => ?_, List.isChain_cons_cons.mpr
          ⟨fun h => ?_, .singleton c⟩⟩
        · rw [ho] at h
          exact nomatch h.1
        · rw [hs] at h
          exact nomatch h.1
      · rintro t ht
        obtain rfl : o = t := Option.some.inj ht
        rw [ho]
        decide
      · simp [ho, hs, hc]
      · rw [Token.endsPhrase, hc]
        rfl
  | none =>
      obtain ⟨used, hused, hrun⟩ := optKeyword_run .distinct ts
      rcases hopt : optKeyword .distinct ts with ⟨distinct, rest⟩
      rw [hopt] at hused
      dsimp only
      cases hlist : commaList nested rest with
      | some list =>
          obtain ⟨items, rfl, hitems⟩ := h.commaList rest list hlist
          refine ⟨used ++ items, ?_, Phrase.enclosed ho hc (hrun.append hitems.toRun)⟩
          rw [hused, List.append_assoc]
      | none => exact ⟨[], rfl, Phrase.enclosed ho hc Run.nil⟩

/-- A call ends with its parenthesis. -/
theorem call_takes (h : Takes nested) : Takes (call nested) := by
  intro ts t ht
  cases ts with
  | nil => exact nomatch ht
  | cons s ts =>
      obtain ⟨name, hname, ht⟩ := Option.bind_eq_some_iff.mp ht
      obtain ⟨inside, hopen, ht⟩ := Option.bind_eq_some_iff.mp ht
      obtain ⟨o, rfl, ho⟩ := symbol_some hopen
      rcases hargs : arguments nested inside with ⟨a, after⟩
      simp only [hargs] at ht
      obtain ⟨rest, hclose, ht⟩ := Option.bind_eq_some_iff.mp ht
      obtain ⟨c, hafter, hc⟩ := symbol_some hclose
      obtain rfl := Option.some.inj ht
      obtain ⟨used, hused, hphrase⟩ := arguments_enclosed h ho hc inside
      rw [hargs, hafter] at hused
      refine ⟨s :: (o :: used ++ [c]), ?_,
        Phrase.behind (.single (Token.plain_functionName hname)) hphrase⟩
      rw [hused]
      simp

theorem parenthesized_takes (h : Takes nested) : Takes (parenthesized nested) := by
  intro ts t ht
  obtain ⟨inside, hopen, hinside⟩ := Option.bind_eq_some_iff.mp ht
  obtain ⟨e, he, hbehind⟩ := Option.bind_eq_some_iff.mp hinside
  obtain ⟨rest, hclose, heq⟩ := Option.bind_eq_some_iff.mp hbehind
  obtain rfl := Option.some.inj heq
  obtain ⟨o, hts, ho⟩ := symbol_some hopen
  obtain ⟨used, hused, hphrase⟩ := h inside e he
  obtain ⟨c, hafter, hc⟩ := symbol_some hclose
  refine ⟨o :: used ++ [c], ?_, Phrase.enclosed ho hc hphrase.toRun⟩
  rw [hts, hused, hafter]
  simp

/-- A keyword in front of an expression. -/
theorem afterKeyword_takes (h : Takes nested) (k : Keyword) : Takes (afterKeyword k nested) := by
  intro ts t ht
  unfold afterKeyword at ht
  cases hk : keyword k ts with
  | none => rw [hk] at ht; exact nomatch ht
  | some rest =>
      rw [hk] at ht
      obtain ⟨s, rfl, hs⟩ := keyword_some hk
      obtain ⟨used, rfl, hused⟩ := h rest t ht
      exact ⟨s :: used, rfl, Phrase.behind (.single (Token.plain_keyword hs)) hused⟩

theorem branch_takes (h : Takes nested) : Takes (branch nested) := by
  intro ts t ht
  obtain ⟨condition, hcondition, ht⟩ := Option.bind_eq_some_iff.mp ht
  obtain ⟨result, hresult, ht⟩ := Option.bind_eq_some_iff.mp ht
  obtain rfl := Option.some.inj ht
  obtain ⟨used, rfl, hused⟩ := afterKeyword_takes h .when ts condition hcondition
  obtain ⟨more, hmore, hphrase⟩ := afterKeyword_takes h .then condition.rest result hresult
  exact ⟨used ++ more, by rw [List.append_assoc, ← hmore], Phrase.behind hused.toRun hphrase⟩

/-- What may be there is a run. -/
theorem optional_run {α : Type} {p : Parser α} (h : Takes p) (ts : List Token) :
    ∃ used, ts = used ++ (ExprParser.optional p ts).2 ∧ Run used := by
  unfold ExprParser.optional
  cases hread : p ts with
  | some t =>
      obtain ⟨used, hused, hphrase⟩ := h ts t hread
      exact ⟨used, hused, hphrase.toRun⟩
  | none => exact ⟨[], rfl, Run.nil⟩

/-- Branches behind one another are a run. -/
theorem branches_run (h : Takes nested) (ts : List Token) :
    ∃ used, ts = used ++ (many (branch nested) ts).rest ∧ Run used := by
  have hstep : ∀ before ts t, Run before → branch nested ts = some t →
      ∃ used, ts = used ++ t.rest ∧ Run (before ++ used) := by
    intro before ts t hbefore hread
    obtain ⟨used, hused, hphrase⟩ := branch_takes h ts t hread
    exact ⟨used, hused, hbefore.append hphrase.toRun⟩
  exact manyUpTo_takes Run hstep ts.length [] true ts [] Run.nil

/-- CASE ends with END. -/
theorem case_takes (h : Takes nested) : Takes (ExprParser.case nested) := by
  intro ts t ht
  obtain ⟨rest, hcase, hbehind⟩ := Option.bind_eq_some_iff.mp ht
  obtain ⟨s, hts, hs⟩ := keyword_some hcase
  obtain ⟨subject, hsubject, hsubjectRun⟩ := optional_run h rest
  obtain ⟨first, hfirst, hbehind'⟩ := Option.bind_eq_some_iff.mp hbehind
  obtain ⟨used, hused, husedPhrase⟩ := branch_takes h _ first hfirst
  obtain ⟨more, hmore, hmoreRun⟩ := branches_run h first.rest
  obtain ⟨other, hother, hotherRun⟩ :=
    optional_run (afterKeyword_takes h .else) (many (branch nested) first.rest).rest
  obtain ⟨after, hend, heq⟩ := Option.bind_eq_some_iff.mp hbehind'
  obtain ⟨e, hrest, he⟩ := keyword_some hend
  obtain rfl := Option.some.inj heq
  have hrun : Run (s :: (subject ++ (used ++ (more ++ other)))) :=
    .cons (Token.plain_keyword hs)
      (hsubjectRun.append (husedPhrase.toRun.append (hmoreRun.append hotherRun)))
  refine ⟨s :: (subject ++ (used ++ (more ++ other))) ++ [e], ?_,
    Phrase.concat hrun (Token.plain_keyword he) (by rw [Token.endsPhrase, he]; rfl)⟩
  have hother' := hother.trans (congrArg (other ++ ·) hrest)
  have hmore' := hmore.trans (congrArg (more ++ ·) hother')
  have hused' := hused.trans (congrArg (used ++ ·) hmore')
  have hsubject' := hsubject.trans (congrArg (subject ++ ·) hused')
  rw [hts, hsubject']
  simp

theorem primary_takes (h : Takes nested) : Takes (primary nested) :=
  literal_takes.orElse ((case_takes h).orElse ((call_takes h).orElse
    (column_takes.orElse (parenthesized_takes h))))

/-! ## Operators -/

theorem signed_takes (h : Takes nested) : Takes (signed nested) := by
  intro ts t ht
  unfold signed at ht
  cases hminus : symbol .minus ts with
  | none =>
      rw [hminus] at ht
      exact primary_takes h ts t ht
  | some rest =>
      rw [hminus] at ht
      obtain ⟨s, rfl, hs⟩ := symbol_some hminus
      obtain ⟨used, hused, hphrase⟩ := (primary_takes h).map (.unary .neg) rest t ht
      have hplain : s.IsPlain := Token.plain_symbol hs (by decide)
      exact ⟨s :: used, congrArg (s :: ·) hused, Phrase.behind (.single hplain) hphrase⟩

/-- Signs of products may stand between two phrases. -/
theorem kind_of_multiplicativeOp {t : Token} {op : BinaryOp} (h : multiplicativeOp? t = some op) :
    t.IsBetween := by
  unfold multiplicativeOp? at h
  split at h
  case h_4 => exact nomatch h
  all_goals
    rename_i hk
    rw [Token.IsBetween, hk]
    decide

/-- Signs of sums may. -/
theorem kind_of_additiveOp {t : Token} {op : BinaryOp} (h : additiveOp? t = some op) :
    t.IsBetween := by
  unfold additiveOp? at h
  split at h
  case h_4 => exact nomatch h
  all_goals
    rename_i hk
    rw [Token.IsBetween, hk]
    decide

/-- Signs of comparisons are plain. -/
theorem plain_of_comparisonOp {t : Token} {op : BinaryOp} (h : comparisonOp? t = some op) :
    t.IsPlain := by
  unfold comparisonOp? at h
  split at h
  case h_7 => exact nomatch h
  all_goals
    rename_i hk
    exact Token.plain_symbol hk (by decide)

/-- AND and OR may stand between two phrases, too. -/
theorem kind_of_keywordOp {t : Token} {k : Keyword} {op op' : BinaryOp}
    (h : (if t.isKeyword k then some op else none) = some op') : t.IsBetween := by
  split at h
  · rename_i hk
    have hplain := Token.plain_keyword (beq_iff_eq.mp hk)
    exact ⟨hplain.1, hplain.2.1, hplain.2.2.2⟩
  · exact nomatch h

theorem multiplicative_takes (h : Takes nested) : Takes (multiplicative nested) :=
  Takes.chain (fun _ _ => kind_of_multiplicativeOp) (signed_takes h)

theorem additive_takes (h : Takes nested) : Takes (additive nested) :=
  Takes.chain (fun _ _ => kind_of_additiveOp) (multiplicative_takes h)

/-! ## Predicates -/

/-- IS NULL ends with NULL. -/
theorem isNullTail_takes (e : Expr) : Takes (isNullTail e) := by
  intro ts t ht
  obtain ⟨rest, his, hbehind⟩ := Option.bind_eq_some_iff.mp ht
  obtain ⟨after, hnull, heq⟩ := Option.bind_eq_some_iff.mp hbehind
  obtain rfl := Option.some.inj heq
  obtain ⟨s, hts, hs⟩ := keyword_some his
  obtain ⟨used, hused, hrun⟩ := optKeyword_run .not rest
  obtain ⟨n, hrest, hn⟩ := keyword_some hnull
  refine ⟨s :: used ++ [n], ?_, Phrase.concat (.cons (Token.plain_keyword hs) hrun)
    (Token.plain_keyword hn) (by rw [Token.endsPhrase, hn]; rfl)⟩
  have hused' := hused.trans (congrArg (used ++ ·) hrest)
  rw [hts, hused']
  simp

/-- A list of items ends with its parenthesis. -/
theorem inTail_takes (h : Takes nested) (e : Expr) : Takes (inTail nested e) := by
  intro ts t ht
  obtain ⟨rest, hin, hbehind⟩ := Option.bind_eq_some_iff.mp ht
  obtain ⟨inside, hopen, hinside⟩ := Option.bind_eq_some_iff.mp hbehind
  obtain ⟨items, hitems, hafter⟩ := Option.bind_eq_some_iff.mp hinside
  obtain ⟨after, hclose, heq⟩ := Option.bind_eq_some_iff.mp hafter
  obtain rfl := Option.some.inj heq
  obtain ⟨used, hused, hrun⟩ := optKeyword_run .not ts
  obtain ⟨s, hs, hkind⟩ := keyword_some hin
  obtain ⟨o, ho, hokind⟩ := symbol_some hopen
  obtain ⟨more, hmore, hphrase⟩ := h.commaList inside items hitems
  obtain ⟨c, hc, hckind⟩ := symbol_some hclose
  refine ⟨used ++ (s :: (o :: more ++ [c])), ?_,
    Phrase.behind hrun (Phrase.behind (.single (Token.plain_keyword hkind))
      (Phrase.enclosed hokind hckind hphrase.toRun))⟩
  have hused' := hused.trans (congrArg (used ++ ·) hs)
  rw [hused', ho, hmore, hc]
  simp

/-- BETWEEN ends with its upper bound. -/
theorem betweenTail_takes (h : Takes nested) (e : Expr) : Takes (betweenTail nested e) := by
  intro ts t ht
  obtain ⟨rest, hbetween, hbehind⟩ := Option.bind_eq_some_iff.mp ht
  obtain ⟨low, hlow, hbehind'⟩ := Option.bind_eq_some_iff.mp hbehind
  obtain ⟨rest', hand, hbehind''⟩ := Option.bind_eq_some_iff.mp hbehind'
  obtain ⟨high, hhigh, heq⟩ := Option.bind_eq_some_iff.mp hbehind''
  obtain rfl := Option.some.inj heq
  obtain ⟨used, hused, hrun⟩ := optKeyword_run .not ts
  obtain ⟨s, hs, hskind⟩ := keyword_some hbetween
  obtain ⟨lowUsed, hlowUsed, hlowPhrase⟩ := additive_takes h rest low hlow
  obtain ⟨a, ha, hakind⟩ := keyword_some hand
  obtain ⟨highUsed, hhighUsed, hhighPhrase⟩ := additive_takes h rest' high hhigh
  refine ⟨used ++ (s :: (lowUsed ++ (a :: highUsed))), ?_,
    Phrase.behind hrun (Phrase.behind (.single (Token.plain_keyword hskind))
      (Phrase.behind hlowPhrase.toRun (Phrase.behind (.single (Token.plain_keyword hakind))
        hhighPhrase)))⟩
  have hused' := hused.trans (congrArg (used ++ ·) hs)
  rw [hused', hlowUsed, ha, hhighUsed]
  simp

theorem likeTail_takes (h : Takes nested) (e : Expr) : Takes (likeTail nested e) := by
  intro ts t ht
  obtain ⟨rest, hlike, hbehind⟩ := Option.bind_eq_some_iff.mp ht
  obtain ⟨pattern, hpattern, heq⟩ := Option.bind_eq_some_iff.mp hbehind
  obtain rfl := Option.some.inj heq
  obtain ⟨used, hused, hrun⟩ := optKeyword_run .not ts
  obtain ⟨s, hs, hskind⟩ := keyword_some hlike
  obtain ⟨more, hmore, hphrase⟩ := additive_takes h rest pattern hpattern
  refine ⟨used ++ (s :: more), ?_,
    Phrase.behind hrun (Phrase.behind (.single (Token.plain_keyword hskind)) hphrase)⟩
  have hused' := hused.trans (congrArg (used ++ ·) hs)
  rw [hused', hmore]
  simp

theorem comparisonTail_takes (h : Takes nested) (e : Expr) : Takes (comparisonTail nested e) := by
  refine Takes.map (fun ts t ht => ?_) _
  cases ts with
  | nil => cases ht
  | cons s ts =>
      rw [operator_cons] at ht
      cases hs : comparisonOp? s with
      | none => rw [hs] at ht; cases ht
      | some op =>
          rw [hs] at ht
          obtain ⟨used, hused, hphrase⟩ := (additive_takes h).map _ ts t ht
          exact ⟨s :: used, congrArg (s :: ·) hused,
            Phrase.behind (.single (plain_of_comparisonOp hs)) hphrase⟩

/-- The tests of a sum, in the order in which they are tried. -/
def predicateTail (nested : Parser Expr) (e : Expr) : Parser Expr :=
  (isNullTail e).orElse <| (inTail nested e).orElse <|
    (betweenTail nested e).orElse <| (likeTail nested e).orElse (comparisonTail nested e)

/-- A predicate is a sum, with one of the tails behind it if there is any. -/
theorem predicate_eq (nested : Parser Expr) (ts : List Token) :
    predicate nested ts = (additive nested ts).bind fun subject =>
      match predicateTail nested subject.value subject.rest with
      | some t => some t
      | none => some ⟨subject.value, subject.rest, true⟩ := by
  unfold predicate predicateTail
  cases additive nested ts <;> rfl

/-- Whichever tail it is, it is a phrase. -/
theorem predicateTail_takes (h : Takes nested) (e : Expr) : Takes (predicateTail nested e) :=
  (isNullTail_takes e).orElse ((inTail_takes h e).orElse ((betweenTail_takes h e).orElse
    ((likeTail_takes h e).orElse (comparisonTail_takes h e))))

theorem predicate_takes (h : Takes nested) : Takes (predicate nested) := by
  intro ts t ht
  rw [predicate_eq] at ht
  obtain ⟨subject, hsubject, htail⟩ := Option.bind_eq_some_iff.mp ht
  obtain ⟨used, hused, hphrase⟩ := additive_takes h ts subject hsubject
  cases hread : predicateTail nested subject.value subject.rest with
  | none =>
      rw [hread] at htail
      obtain rfl := Option.some.inj htail
      exact ⟨used, hused, hphrase⟩
  | some t' =>
      rw [hread] at htail
      obtain rfl := Option.some.inj htail
      obtain ⟨more, hmore, hmorePhrase⟩ := predicateTail_takes h _ _ _ hread
      exact ⟨used ++ more, by rw [hused, hmore, List.append_assoc],
        Phrase.behind hphrase.toRun hmorePhrase⟩

/-! ## Connectives -/

/-- Behind NOT a negation is read, or NOT is the name of a function. -/
theorem negation_not {s : Token} (h : s.isKeyword .not = true) (ts : List Token) :
    negation nested (s :: ts) = (negation nested ts).elim (predicate nested (s :: ts))
      fun e => some ⟨.unary .not e.value, e.rest, e.open?⟩ := by
  rw [negation, if_pos h]
  cases negation nested ts <;> rfl

theorem negation_cons {s : Token} (h : ¬s.isKeyword .not = true) (ts : List Token) :
    negation nested (s :: ts) = predicate nested (s :: ts) := by
  rw [negation, if_neg h]

/-- NOT makes the phrase behind it longer at the front. The induction is on the tokens. -/
theorem negation_takes (h : Takes nested) : Takes (negation nested) := by
  intro ts
  induction ts with
  | nil => intro t ht; exact predicate_takes h [] t ht
  | cons s ts ih =>
      intro t ht
      by_cases hnot : s.isKeyword .not = true
      · rw [negation_not hnot] at ht
        cases hread : negation nested ts with
        | none =>
            rw [hread] at ht
            exact predicate_takes h (s :: ts) t ht
        | some e =>
            rw [hread] at ht
            obtain rfl := Option.some.inj ht
            obtain ⟨used, hused, hphrase⟩ := ih e hread
            exact ⟨s :: used, congrArg (s :: ·) hused,
              Phrase.behind (.single (Token.plain_keyword (beq_iff_eq.mp hnot))) hphrase⟩
      · rw [negation_cons hnot] at ht
        exact predicate_takes h (s :: ts) t ht

/-- A level of expressions takes phrases if the one below it does. This is the step of
`expr_takes`. -/
theorem disjunction_takes (h : Takes nested) : Takes (disjunction nested) :=
  Takes.chain (fun _ _ => kind_of_keywordOp)
    (Takes.chain (fun _ _ => kind_of_keywordOp) (negation_takes h))

end Nested

/-- An expression is a phrase. -/
theorem expr_takes (depth : Nat) : Takes (expr depth) := by
  induction depth with
  | zero => intro ts t h; exact nomatch h
  | succ depth ih => exact disjunction_takes ih

end QueryReplay.Sql
