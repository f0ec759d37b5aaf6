import QueryReplay.Proofs.Phrases
import QueryReplay.Proofs.Skeletons

/-! # Places — what an expression parser reads, and where it stops

    The parsers of expressions form a ladder of places, from the connectives
    down to primaries, and each reads what stands at its place up to where
    nothing binds as tightly (`Reads`).  At a place with operators more is
    needed, since what was read there goes on behind an operator (`Grows`).
    What is read at a place is read at all looser ones (`ReadsAt.descend`),
    unless it begins with a sign or with NOT (`Opens`). -/

namespace QueryReplay.Sql

open QueryReplay.Sql.Parser QueryReplay.Sql.ExprParser QueryReplay.Sql.StatementParser

/-! ## Where an expression ends -/

/-- How tightly a token binds that can go on behind an expression. -/
def TokenKind.binding? : TokenKind → Option Nat
  | .keyword .or => some 0
  | .keyword .and => some 1
  | .keyword .is | .keyword .in | .keyword .not | .keyword .between | .keyword .like => some 3
  | .symbol .eq | .symbol .ne | .symbol .lt | .symbol .le | .symbol .gt | .symbol .ge => some 3
  | .symbol .plus | .symbol .minus | .symbol .concat => some 4
  | .symbol .star | .symbol .slash | .symbol .percent => some 5
  | .symbol .dot => some 7
  | _ => none

/-- Nothing goes on here at the place or more tightly. -/
def Halts (place : Nat) (rest : List Token) : Prop :=
  ∀ t ∈ rest.head?, ∀ n ∈ t.kind.binding?, n < place

section Halts

variable {place : Nat} {rest : List Token}

/-- What halts a place halts all tighter ones. -/
theorem Halts.mono {place' : Nat} (h : Halts place rest) (hle : place ≤ place') :
    Halts place' rest :=
  fun t ht n hn => Nat.lt_of_lt_of_le (h t ht n hn) hle

theorem halts_cons {t : Token} (h : ∀ n ∈ t.kind.binding?, n < place) : Halts place (t :: rest) := by
  rintro u hu
  obtain rfl : t = u := Option.some.inj hu
  exact h

/-- A keyword that binds as tightly does not stand there. -/
theorem Halts.keyword (h : Halts place rest) {k : Keyword} {n : Nat}
    (hk : (TokenKind.keyword k).binding? = some n) (hn : place ≤ n) :
    Parser.keyword k rest = none := by
  cases hread : Parser.keyword k rest with
  | none => rfl
  | some behind =>
      obtain ⟨t, rfl, ht⟩ := keyword_some hread
      exact absurd (h t rfl n (by rw [ht]; exact hk)) (Nat.not_lt.mpr hn)

/-- An operator that binds as tightly is not there. -/
theorem Halts.operator (h : Halts place rest) {op? : Token → Option BinaryOp}
    (hop : ∀ t op, op? t = some op → t.kind.binding? = some place) (operand : Parser Expr) :
    operatorAndOperand op? operand rest = none := by
  cases rest with
  | nil => rfl
  | cons t rest =>
      rw [operator_cons]
      cases hread : op? t with
      | none => rfl
      | some op => exact absurd (h t rfl place (hop t op hread)) (Nat.lt_irrefl place)

/-- No point follows. -/
theorem Halts.qualifiedRest {rest : List Token} (h : Halts 7 rest) (first : Token) :
    qualifiedRest? first rest = none := by
  match rest, h with
  | [], _ => rfl
  | [_], _ => rfl
  | point :: t :: rest, h =>
      have hpoint : point.isSymbol .dot = false := by
        refine beq_false_of_ne fun hk => ?_
        exact absurd (h point rfl 7 (by rw [hk]; rfl)) (Nat.lt_irrefl 7)
      rw [qualifiedRest?, hpoint, Bool.and_false, Bool.false_and, if_neg Bool.false_ne_true]

end Halts

/-! ## Choices and repetitions -/

section Choices

variable {α : Type} {p q : Parser α} {ts : List Token}

theorem orElse_some {t : Taken α} (h : p ts = some t) : p.orElse q ts = some t := by
  rw [Parser.orElse, h]

theorem orElse_none (h : p ts = none) : p.orElse q ts = q ts := by
  rw [Parser.orElse, h]

end Choices

/-- Parts that are read one behind the other until there is no more. -/
inductive Repeats {α : Type} (p : Parser α) (rest : List Token) : List Token → List α → Prop
  | done (h : p rest = none) : Repeats p rest rest []
  | next {ts more : List Token} {v : α} {vs : List α} {o : Bool} (h : p ts = some ⟨v, more, o⟩)
      (hmore : Repeats p rest more vs) : Repeats p rest ts (v :: vs)

/-- A repetition reads all of its parts and ends where no further one begins. -/
theorem many_of_repeats {α : Type} {p : Parser α} {ts rest : List Token} {vs : List α}
    (hp : ∀ ts t, p ts = some t → t.rest.length < ts.length) (h : Repeats p rest ts vs) :
    ∃ o, many p ts = ⟨vs, rest, o⟩ := by
  have hrun : ∀ (fuel : Nat) (gone : List α) (o : Bool), ts.length ≤ fuel →
      ∃ o', manyUpTo p fuel gone o ts = ⟨gone.reverse ++ vs, rest, o'⟩ := by
    induction h with
    | done h =>
        intro fuel gone o _
        cases fuel with
        | zero => exact ⟨o, by rw [manyUpTo, List.append_nil]⟩
        | succ fuel => exact ⟨o, by rw [manyUpTo, h, List.append_nil]⟩
    | @next ts more v vs o h _ ih =>
        intro fuel gone _ hfuel
        have hshorter := hp ts _ h
        dsimp only at hshorter
        cases fuel with
        | zero => omega
        | succ fuel =>
            obtain ⟨o', hmore⟩ := ih fuel (v :: gone) o (by omega)
            refine ⟨o', ?_⟩
            rw [manyUpTo, h]
            dsimp only
            rw [hmore, List.reverse_cons, List.append_assoc]
            rfl
  exact hrun ts.length [] true (Nat.le_refl _)

/-- Something is taken. -/
theorem Takes.shorter {α : Type} {p : Parser α} (h : Takes p) (ts : List Token) (t : Taken α)
    (ht : p ts = some t) : t.rest.length < ts.length := by
  obtain ⟨used, hused, hphrase⟩ := h ts t ht
  obtain ⟨front, u, rfl, -⟩ := hphrase.ends
  rw [hused, List.length_append, List.length_append, List.length_singleton]
  omega

/-- Nothing is taken from a parenthesis that closes. -/
theorem Takes.closeParen {α : Type} {p : Parser α} (h : Takes p) {t : Token}
    (ht : t.kind = .symbol .closeParen) (rest : List Token) : p (t :: rest) = none := by
  cases hread : p (t :: rest) with
  | none => rfl
  | some taken =>
      obtain ⟨used, hused, hphrase⟩ := h _ _ hread
      cases used with
      | nil =>
          obtain ⟨front, u, hnil, -⟩ := hphrase.ends
          exact absurd hnil (by simp)
      | cons u used =>
          obtain ⟨rfl, -⟩ := List.cons.inj hused
          have hlevel : t.level? 0 = none := by
            rw [Token.level?, Token.isSymbol, Token.isSymbol, ht]
            rfl
          have hbalanced : (t.level? 0).bind (level? used) = some 0 := hphrase.balanced 0
          rw [hlevel] at hbalanced
          cases hbalanced

/-! ## Reading at a place -/

/-- The expression without the texts of its calls. -/
def Expr.textless (e : Expr) : Expr := e.retext id fun _ => ""

/-- The tokens are read as the expression in front of what does not go on. -/
def Reads (p : Parser Expr) (place : Nat) (ts : List Token) (e : Expr) : Prop :=
  ∀ rest, Halts place rest →
    ∃ e' o, p (ts ++ rest) = some ⟨e', rest, o⟩ ∧ e'.textless = e.textless

/-- Operands behind operators, taken together from the left. -/
def fromLeft (e : Expr) (more : List (BinaryOp × Expr)) : Expr :=
  more.foldl (fun left (op, right) => .binary op left right) e

/-- The tokens are read as an operand to the left of all operators that follow. -/
def Grows (op? : Token → Option BinaryOp) (operand : Parser Expr) (place : Nat) (ts : List Token)
    (e : Expr) : Prop :=
  ∀ rest behind more, Halts (place + 1) rest →
    Repeats (operatorAndOperand op? operand) behind rest more →
    ∃ e' o, chain op? operand (ts ++ rest) = some ⟨fromLeft e' more, behind, o⟩
      ∧ e'.textless = e.textless

section Chains

variable {op? : Token → Option BinaryOp} {operand : Parser Expr} {place : Nat} {ts us : List Token}
  {e r : Expr}

/-- An operator with its operand behind it. -/
theorem operator_read {t : Token} {op : BinaryOp} {rest : List Token} {o : Bool}
    (hop : op? t = some op) (h : operand us = some ⟨r, rest, o⟩) :
    operatorAndOperand op? operand (t :: us) = some ⟨(op, r), rest, o⟩ := by
  rw [operator_cons, hop, Option.bind_some, Parser.map, h]
  rfl

theorem operator_shorter (h : Takes operand) (ts : List Token) (t : Taken (BinaryOp × Expr))
    (ht : operatorAndOperand op? operand ts = some t) : t.rest.length < ts.length := by
  cases ts with
  | nil => cases ht
  | cons s ts =>
      rw [operator_cons] at ht
      cases hs : op? s with
      | none => rw [hs] at ht; cases ht
      | some op =>
          rw [hs] at ht
          exact ((h.map (fun e => (op, e))).shorter ts t ht).trans (Nat.lt_succ_self _)

/-- What is read as an operand may be the first of a chain. -/
theorem Reads.grows (htakes : Takes operand) (h : Reads operand (place + 1) ts e) :
    Grows op? operand place ts e := by
  intro rest behind more hrest hmore
  obtain ⟨e', o, hread, hlike⟩ := h rest hrest
  obtain ⟨o', hmany⟩ := many_of_repeats (operator_shorter htakes) hmore
  refine ⟨e', o', ?_, hlike⟩
  unfold ExprParser.chain
  rw [hread]
  dsimp only
  rw [hmany]
  rfl

/-- One more operator and operand belong to the chain. -/
theorem Grows.operator {t : Token} {op : BinaryOp} (h : Grows op? operand place ts e)
    (hop : op? t = some op) (hbinding : t.kind.binding? = some place)
    (hright : Reads operand (place + 1) us r) :
    Grows op? operand place (ts ++ t :: us) (.binary op e r) := by
  intro rest behind more hrest hmore
  obtain ⟨r', o, hread, hlike⟩ := hright rest hrest
  have hstep := operator_read hop hread
  have hhalts : Halts (place + 1) (t :: (us ++ rest)) := halts_cons fun n hn => by
    rw [hbinding] at hn
    obtain rfl := Option.some.inj hn
    exact Nat.lt_succ_self _
  obtain ⟨e', o', hchain, hleft⟩ := h (t :: (us ++ rest)) behind ((op, r') :: more) hhalts
    (.next hstep hmore)
  refine ⟨.binary op e' r', o', ?_, ?_⟩
  · rw [List.append_assoc]
    exact hchain
  · show Expr.binary op e'.textless r'.textless = .binary op e.textless r.textless
    rw [hleft, hlike]

/-- At its end a chain is what was read. -/
theorem Grows.reads (hop : ∀ t op, op? t = some op → t.kind.binding? = some place)
    (h : Grows op? operand place ts e) : Reads (chain op? operand) place ts e := by
  intro rest hrest
  exact h rest rest [] (hrest.mono (Nat.le_succ place)) (.done (hrest.operator hop operand))

end Chains

/-! ## The places -/

/-- The parser of a place. -/
def parserAt (nested : Parser Expr) : Nat → Parser Expr
  | 0 => disjunction nested
  | 1 => conjunction nested
  | 2 => negation nested
  | 3 => predicate nested
  | 4 => additive nested
  | 5 => multiplicative nested
  | 6 => signed nested
  | _ => primary nested

/-- The operators of a place, if it has any that are grouped from the left. -/
def operatorAt : Nat → Option (Token → Option BinaryOp)
  | 0 => some orOp?
  | 1 => some andOp?
  | 4 => some additiveOp?
  | 5 => some multiplicativeOp?
  | _ => none

/-- The tokens are read as the expression at a place, and where the place has
    operators also in front of them. -/
def ReadsAt (nested : Parser Expr) (place : Nat) (ts : List Token) (e : Expr) : Prop :=
  match operatorAt place with
  | some op? => Grows op? (parserAt nested (place + 1)) place ts e
  | none => Reads (parserAt nested place) place ts e

/-- At a place with operators the parser is a chain over the next tighter place. -/
theorem parserAt_chain {nested : Parser Expr} {op? : Token → Option BinaryOp} :
    ∀ {place : Nat}, operatorAt place = some op? →
      parserAt nested place = chain op? (parserAt nested (place + 1))
  | 0, h | 1, h | 4, h | 5, h => by obtain rfl := Option.some.inj h; rfl
  | 2, h | 3, h | _ + 6, h => nomatch h

/-- The operators of a place bind as tightly as it. -/
theorem operatorAt_binding {op? : Token → Option BinaryOp} {t : Token} {op : BinaryOp} :
    ∀ {place : Nat}, operatorAt place = some op? → op? t = some op →
      t.kind.binding? = some place
  | 0, h, hop | 1, h, hop => by
      obtain rfl := Option.some.inj h
      first | unfold orOp? at hop | unfold andOp? at hop
      split at hop
      · rename_i hk
        rw [beq_iff_eq.mp hk]
        rfl
      · exact nomatch hop
  | 4, h, hop => by
      obtain rfl := Option.some.inj h
      unfold additiveOp? at hop
      split at hop
      case h_4 => exact nomatch hop
      all_goals
        rename_i hk
        rw [hk]
        rfl
  | 5, h, hop => by
      obtain rfl := Option.some.inj h
      unfold multiplicativeOp? at hop
      split at hop
      case h_4 => exact nomatch hop
      all_goals
        rename_i hk
        rw [hk]
        rfl
  | 2, h, _ | 3, h, _ | _ + 6, h, _ => nomatch h

section Places

variable {nested : Parser Expr} {place : Nat} {ts : List Token} {e : Expr}

/-- What is read at a place is read up to where it halts. -/
theorem ReadsAt.reads (h : ReadsAt nested place ts e) : Reads (parserAt nested place) place ts e := by
  unfold ReadsAt at h
  cases hop : operatorAt place with
  | none => rw [hop] at h; exact h
  | some op? =>
      rw [hop] at h
      rw [parserAt_chain hop]
      exact Grows.reads (fun t op ht => operatorAt_binding hop ht) h

theorem parserAt_takes (h : Takes nested) : ∀ place, Takes (parserAt nested place)
  | 0 => disjunction_takes h
  | 1 => Takes.chain (fun _ _ => kind_of_keywordOp) (negation_takes h)
  | 2 => negation_takes h
  | 3 => predicate_takes h
  | 4 => additive_takes h
  | 5 => multiplicative_takes h
  | 6 => signed_takes h
  | _ + 7 => primary_takes h

/-! ## How an expression begins -/

/-- The tightest place where an expression may begin with a token. -/
def TokenKind.opening? : TokenKind → Option Nat
  | .number | .text | .quoted | .name => some 7
  | .keyword .null | .keyword .true | .keyword .false => some 7
  | .symbol .openParen => some 7
  | .symbol .minus => some 6
  | .keyword .not => some 2
  | _ => none

/-- The tokens begin like an expression at the place. -/
def Opens (place : Nat) (ts : List Token) : Prop :=
  ∃ t rest n, ts = t :: rest ∧ t.kind.opening? = some n ∧ place ≤ n

theorem opens_cons {t : Token} {n : Nat} (h : t.kind.opening? = some n) (hn : place ≤ n)
    (rest : List Token) : Opens place (t :: rest) := ⟨t, rest, n, rfl, h, hn⟩

/-- What opens a place opens all looser ones. -/
theorem Opens.mono {place' : Nat} (h : Opens place ts) (hle : place' ≤ place) : Opens place' ts := by
  obtain ⟨t, rest, n, hts, ht, hn⟩ := h
  exact ⟨t, rest, n, hts, ht, Nat.le_trans hle hn⟩

/-- Only the first token matters. -/
theorem Opens.append (h : Opens place ts) (us : List Token) : Opens place (ts ++ us) := by
  obtain ⟨t, rest, n, rfl, ht, hn⟩ := h
  exact ⟨t, rest ++ us, n, rfl, ht, hn⟩

/-- A keyword that would open a looser place does not stand there. -/
theorem Opens.keyword (h : Opens place ts) {k : Keyword}
    (hk : ∀ n ∈ (TokenKind.keyword k).opening?, n < place) : Parser.keyword k ts = none := by
  obtain ⟨t, rest, n, rfl, ht, hn⟩ := h
  refine if_neg fun heq => ?_
  rw [beq_iff_eq.mp heq] at ht
  exact absurd (hk n ht) (Nat.not_lt.mpr hn)

theorem Opens.symbol (h : Opens place ts) {s : Symbol}
    (hs : ∀ n ∈ (TokenKind.symbol s).opening?, n < place) : Parser.symbol s ts = none := by
  obtain ⟨t, rest, n, rfl, ht, hn⟩ := h
  refine if_neg fun heq => ?_
  rw [beq_iff_eq.mp heq] at ht
  exact absurd (hs n ht) (Nat.not_lt.mpr hn)

/-! ## From place to place -/

/-- Comparisons bind like predicates. -/
theorem binding_of_comparisonOp {t : Token} {op : BinaryOp} (h : comparisonOp? t = some op) :
    t.kind.binding? = some 3 := by
  unfold comparisonOp? at h
  split at h
  case h_7 => exact nomatch h
  all_goals
    rename_i hk
    rw [hk]
    rfl

/-- A sum is a predicate where no test follows. -/
theorem Halts.predicateTail {rest : List Token} (h : Halts 3 rest) (e : Expr) :
    Sql.predicateTail nested e rest = none := by
  have hnot : optKeyword .not rest = (false, rest) := by
    rw [optKeyword, h.keyword rfl (Nat.le_refl 3)]
  have hisNull : isNullTail e rest = none := by
    rw [isNullTail, h.keyword rfl (Nat.le_refl 3)]
    rfl
  have hin : inTail nested e rest = none := by
    rw [inTail, hnot]
    dsimp only
    rw [h.keyword rfl (Nat.le_refl 3)]
    rfl
  have hbetween : betweenTail nested e rest = none := by
    rw [betweenTail, hnot]
    dsimp only
    rw [h.keyword rfl (Nat.le_refl 3)]
    rfl
  have hlike : likeTail nested e rest = none := by
    rw [likeTail, hnot]
    dsimp only
    rw [h.keyword rfl (Nat.le_refl 3)]
    rfl
  have hcompare : comparisonTail nested e rest = none := by
    rw [comparisonTail, Parser.map, h.operator fun _ _ => binding_of_comparisonOp]
    rfl
  rw [Sql.predicateTail, orElse_none hisNull, orElse_none hin, orElse_none hbetween,
    orElse_none hlike, hcompare]

/-- What is read at a place is read at the next looser one. -/
theorem ReadsAt.loosen (htakes : Takes nested) (h : ReadsAt nested (place + 1) ts e)
    (hopens : Opens (place + 1) ts) (hplace : place ≤ 6) : ReadsAt nested place ts e := by
  have hread := h.reads
  -- five places read a chain of the next ones, which stops where the looser place halts
  match place with
  | 0 | 1 | 4 | 5 => exact hread.grows (parserAt_takes htakes _)
  -- NOT would be read as an operand if the tokens began with it
  | 2 =>
      intro rest hrest
      obtain ⟨e', o, hpredicate, hlike⟩ := hread rest (hrest.mono (by decide))
      refine ⟨e', o, ?_, hlike⟩
      obtain ⟨t, more, n, rfl, ht, hn⟩ := hopens
      have hnot : t.isKeyword .not = false := by
        refine beq_false_of_ne fun hk => ?_
        rw [hk] at ht
        obtain rfl := Option.some.inj ht
        exact absurd hn (by decide)
      show (if t.isKeyword .not then _ else predicate nested (t :: (more ++ rest))) = _
      rw [hnot]
      exact hpredicate
  -- behind a halt no test follows, so the sum is the predicate
  | 3 =>
      intro rest hrest
      obtain ⟨e', o, hsum, hlike⟩ := hread rest (hrest.mono (by decide))
      have hsum : additive nested (ts ++ rest) = some ⟨e', rest, o⟩ := hsum
      refine ⟨e', true, ?_, hlike⟩
      show predicate nested (ts ++ rest) = _
      rw [predicate_eq, hsum, Option.bind_some]
      dsimp only
      rw [hrest.predicateTail]
  -- a minus would be read as a sign
  | 6 =>
      intro rest hrest
      obtain ⟨e', o, hprimary, hlike⟩ := hread rest (hrest.mono (by decide))
      refine ⟨e', o, ?_, hlike⟩
      have hminus : symbol .minus (ts ++ rest) = none :=
        (hopens.append rest).symbol fun n hn => by
          obtain rfl := Option.some.inj hn
          decide
      show signed nested (ts ++ rest) = _
      unfold signed
      rw [hminus]
      exact hprimary
  | n + 7 => omega

/-- What is read at a place is read at all looser ones. -/
theorem ReadsAt.descend (htakes : Takes nested) {place' : Nat} (h : ReadsAt nested place ts e)
    (hopens : Opens place ts) (hplace : place ≤ 7) (hle : place' ≤ place) :
    ReadsAt nested place' ts e := by
  induction place with
  | zero =>
      obtain rfl := Nat.le_zero.mp hle
      exact h
  | succ n ih =>
      rcases Nat.lt_or_eq_of_le hle with hlt | rfl
      · exact ih (h.loosen htakes hopens (by omega)) (hopens.mono (Nat.le_succ n)) (by omega)
          (Nat.le_of_lt_succ hlt)
      · exact h

end Places

end QueryReplay.Sql
