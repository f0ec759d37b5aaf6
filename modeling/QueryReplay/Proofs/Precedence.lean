import QueryReplay.Proofs.Expressions
import QueryReplay.Proofs.Places
import QueryReplay.Proofs.Rendering

/-! # Precedence — expressions are read as they are written

    An expression is read at every place in the form in which it is written
    there (`Expr.Renderable.readsAt`): in its own place by the parser of its
    kind, in looser ones since nothing behind it binds more tightly, and in
    tighter ones in parentheses.  The induction is on how the expression was
    built, and it stands inside one on the depth of the parser, which goes down
    in parentheses, lists and calls.  Behind SELECT the text of an expression is
    one item that says the same, up to the texts of its calls (`parse_render`). -/

namespace QueryReplay.Sql

open QueryReplay.Sql.Parser QueryReplay.Sql.ExprParser QueryReplay.Sql.StatementParser

-- powers are the core library's, also beside the instances that Mathlib declares
attribute [local instance (high)] instPowNat

/-! ## Leaves -/

/-- A number that was written is read as itself. -/
theorem valueOf_repr (n : Nat) : Numeral.valueOf n.repr.toList = n := by
  have hvalue : Numeral.valueOf n.repr.toList = Nat.ofDigitChars 10 n.repr.toList 0 := by
    unfold Numeral.valueOf Nat.ofDigitChars
    simp only [Nat.mul_comm]
    rfl
  rw [hvalue, Nat.toList_repr, Nat.ofDigitChars_ten_toDigits]

/-- As long as 63 bits hold it, it is an integer. -/
theorem numberLiteral_repr {n : Nat} (h : n < 2 ^ (63 : Nat)) : numberLiteral n.repr = .int n := by
  have hdigits : n.repr.toList.all Char.isDigit = true :=
    List.all_eq_true.mpr fun c hc => isDigit_of_repr hc
  unfold numberLiteral
  dsimp only
  rw [hdigits, valueOf_repr, Bool.true_and, if_pos (decide_eq_true h)]

/-- Taking back the doubling gives the text. -/
theorem undouble_doubled (cs : List Char) :
    Token.undouble (cs.flatMap fun c => if c == '\'' then ['\'', '\''] else [c]) = cs := by
  induction cs with
  | nil => rfl
  | cons c cs ih =>
      rw [List.flatMap_cons]
      by_cases hc : c = '\''
      · subst hc
        exact congrArg ('\'' :: ·) ih
      · rw [if_neg (fun h => hc (beq_iff_eq.mp h)), List.singleton_append, Token.undouble, ih]
        rintro rest rfl -
        exact hc rfl

/-- The content of a text in marks is the text. -/
theorem content_doubled (s gap : String) :
    (⟨.text, inMarks (doubled s), gap⟩ : Token).content? = some s := by
  show some (String.ofList (Token.undouble (((inMarks (doubled s)).toList.drop 1).dropLast))) = some s
  rw [inMarks_toList, List.drop_succ_cons, List.drop_zero, List.dropLast_concat, doubled,
    String.toList_ofList, undouble_doubled, String.ofList_toList]

/-- Every literal that can be written is read back. -/
theorem literal_render {v : Literal} (h : v.Renderable) (gap : String) :
    literal? ⟨v.kind, v.render, gap⟩ = some v := by
  cases v with
  | null => rfl
  | bool b => cases b <;> rfl
  | int n => exact congrArg some (numberLiteral_repr h)
  | float x => exact h.elim
  | string s => exact congrArg (Option.map Literal.string) (content_doubled s gap)

/-- A name in quotes is the name, whatever it is. -/
theorem identifier_inQuotes (name gap : String) :
    (⟨.quoted, inQuotes name, gap⟩ : Token).identifier? = some name := by
  show some (String.ofList ((inQuotes name).toList.drop 1).dropLast) = some name
  rw [inQuotes_toList, List.drop_succ_cons, List.drop_zero, List.dropLast_concat,
    String.ofList_toList]

section Nested

variable {nested : Parser Expr}

/-- A literal is read as a primary. -/
theorem reads_literal {v : Literal} (h : v.Renderable) (gap : String) :
    ReadsAt nested 7 (v.tokens gap) (.literal v) := by
  intro rest _
  have hread : literal (⟨v.kind, v.render, gap⟩ :: rest) = some ⟨.literal v, rest, false⟩ := by
    rw [literal, literal_render h]
    rfl
  refine ⟨.literal v, false, ?_, rfl⟩
  exact orElse_some hread

/-- A name in quotes is read as a column. -/
theorem primary_quoted (name gap : String) (rest : List Token) :
    primary nested (⟨.quoted, name, gap⟩ :: rest) = column (⟨.quoted, name, gap⟩ :: rest) := by
  rw [primary, orElse_none rfl, orElse_none rfl, orElse_none rfl, Parser.orElse]
  cases hcolumn : column (⟨.quoted, name, gap⟩ :: rest) with
  | some t => rfl
  | none => rfl

/-- So is a column, with its table or without. -/
theorem reads_column (c : ColumnRef) (gap : String) :
    ReadsAt nested 7 (c.tokens gap) (.column c) := by
  intro rest hrest
  obtain ⟨table?, name⟩ := c
  refine ⟨.column ⟨table?, name⟩, false, ?_, rfl⟩
  cases table? with
  | none =>
      show primary nested (⟨.quoted, inQuotes name, gap⟩ :: rest) = _
      rw [primary_quoted, column, identifier_inQuotes]
      dsimp only
      rw [hrest.qualifiedRest]
  | some table =>
      show primary nested (⟨.quoted, inQuotes table, ""⟩ :: ⟨.symbol .dot, ".", ""⟩
        :: ⟨.quoted, inQuotes name, gap⟩ :: rest) = _
      have hqualified : qualifiedRest? ⟨.quoted, inQuotes table, ""⟩ (⟨.symbol .dot, ".", ""⟩
          :: ⟨.quoted, inQuotes name, gap⟩ :: rest) = some (name, rest) := by
        show (Token.identifier? ⟨.quoted, inQuotes name, gap⟩).map (fun name => (name, rest)) = _
        rw [identifier_inQuotes]
        rfl
      rw [primary_quoted, column, identifier_inQuotes]
      dsimp only
      rw [hqualified]

/-- What is read by itself is a primary in parentheses. -/
theorem reads_parens {ts : List Token} {e : Expr} (h : Reads nested 0 ts e) (gap : String) :
    ReadsAt nested 7 (Ink.parens ts gap) e := by
  intro rest _
  obtain ⟨e', o, hread, hlike⟩ := h (⟨.symbol .closeParen, ")", gap⟩ :: rest)
    (halts_cons fun n hn => nomatch hn)
  refine ⟨e', false, ?_, hlike⟩
  show primary nested ((⟨.symbol .openParen, "(", ""⟩
    :: (ts ++ [⟨.symbol .closeParen, ")", gap⟩])) ++ rest) = _
  rw [List.cons_append, List.append_assoc, List.singleton_append]
  have hopen : ∀ us, primary nested (⟨.symbol .openParen, "(", ""⟩ :: us)
      = (nested us).bind fun e => (symbol .closeParen e.rest).bind fun after =>
        some (⟨e.value, after, false⟩ : Taken Expr) := fun us => rfl
  rw [hopen, hread]
  rfl

/-! ## Signs and NOT -/

/-- The sign is one place below primaries. -/
theorem reads_neg {ts : List Token} {e : Expr} (h : ReadsAt nested 7 ts e) :
    ReadsAt nested 6 (⟨.symbol .minus, "-", " "⟩ :: ts) (.unary .neg e) := by
  intro rest hrest
  obtain ⟨e', o, hread, hlike⟩ := h rest (hrest.mono (by decide))
  refine ⟨.unary .neg e', o, ?_, congrArg (Expr.unary .neg) hlike⟩
  show (primary nested).map (Expr.unary .neg) (ts ++ rest) = _
  have hread : primary nested (ts ++ rest) = some ⟨e', rest, o⟩ := hread
  rw [Parser.map, hread]
  rfl

/-- NOT may stand in front of NOT. -/
theorem reads_not {ts : List Token} {e : Expr} (h : ReadsAt nested 2 ts e) :
    ReadsAt nested 2 (⟨.keyword .not, "NOT", " "⟩ :: ts) (.unary .not e) := by
  intro rest hrest
  obtain ⟨e', o, hread, hlike⟩ := h rest hrest
  refine ⟨.unary .not e', o, ?_, congrArg (Expr.unary .not) hlike⟩
  have hread : negation nested (ts ++ rest) = some ⟨e', rest, o⟩ := hread
  show negation nested (⟨.keyword .not, "NOT", " "⟩ :: (ts ++ rest)) = _
  rw [negation_not rfl, hread]
  rfl

/-! ## Operators -/

/-- An operator that is no predicate is read at its place. -/
theorem BinaryOp.operatorAt {op : BinaryOp} (h : op.precedence ≠ 3) :
    ∃ op?, Sql.operatorAt op.precedence = some op?
      ∧ ∀ gap, op? ⟨op.kind, op.sign, gap⟩ = some op := by
  cases op
  case eq | ne | lt | le | gt | ge | like => exact absurd rfl h
  all_goals exact ⟨_, rfl, fun _ => rfl⟩

/-- An operator of a chain: its left side is read at its own place, its right side one place
tighter. -/
theorem reads_operator {op : BinaryOp} (hop : op.precedence ≠ 3) {ts us : List Token} {l r : Expr}
    (hl : ReadsAt nested op.precedence ts l) (hr : ReadsAt nested (op.precedence + 1) us r) :
    ReadsAt nested op.precedence (ts ++ ⟨op.kind, op.sign, " "⟩ :: us) (.binary op l r) := by
  obtain ⟨op?, hat, hread⟩ := BinaryOp.operatorAt hop
  unfold ReadsAt at hl ⊢
  rw [hat] at hl ⊢
  exact hl.operator (hread " ") (operatorAt_binding hat (hread " ")) hr.reads

/-! ## Predicates -/

/-- A sum and a test behind it, whatever the sum was read as. -/
theorem reads_predicate {subject e : Expr} {ts us : List Token} {t : Token}
    (h : ReadsAt nested 4 ts subject) (ht : t.kind.binding? = some 3)
    (htail : ∀ s rest, s.textless = subject.textless → Halts 3 rest →
      ∃ e' o, predicateTail nested s (t :: (us ++ rest)) = some ⟨e', rest, o⟩
        ∧ e'.textless = e.textless) :
    ReadsAt nested 3 (ts ++ t :: us) e := by
  intro rest hrest
  have hhalts : Halts 4 (t :: (us ++ rest)) := halts_cons fun n hn => by
    rw [ht] at hn
    obtain rfl := Option.some.inj hn
    decide
  obtain ⟨s, o, hread, hlike⟩ := h.reads (t :: (us ++ rest)) hhalts
  obtain ⟨e', o', htail, hsame⟩ := htail s rest hlike hrest
  refine ⟨e', o', ?_, hsame⟩
  have hread : additive nested (ts ++ t :: (us ++ rest)) = some ⟨s, t :: (us ++ rest), o⟩ := hread
  show predicate nested ((ts ++ t :: us) ++ rest) = _
  rw [List.append_assoc, predicate_eq]
  show (additive nested (ts ++ t :: (us ++ rest))).bind _ = _
  rw [hread, Option.bind_some]
  dsimp only
  rw [htail]

/-- IS NULL behind a sum. -/
theorem reads_isNull {ts : List Token} {e : Expr} (h : ReadsAt nested 4 ts e) (not : Bool)
    (gap : String) : ReadsAt nested 3
      (ts ++ ⟨.keyword .is, "IS", " "⟩ :: Ink.negated not (.word (.keyword .null) "NULL") gap)
      (.isNull e not) := by
  refine reads_predicate h rfl fun s rest hs _ => ⟨.isNull s not, false, ?_, ?_⟩
  · cases not <;> rfl
  · exact congrArg (Expr.isNull · not) hs

/-- A comparison or LIKE. -/
theorem predicateTail_operator {op : BinaryOp} (hop : op.precedence = 3) {us rest : List Token}
    {r : Expr} {o : Bool} (h : additive nested us = some ⟨r, rest, o⟩) (s : Expr) :
    predicateTail nested s (⟨op.kind, op.sign, " "⟩ :: us) = some ⟨.binary op s r, rest, o⟩ := by
  have hcompare : ∀ op : BinaryOp, comparisonOp? ⟨op.kind, op.sign, " "⟩ = some op →
      comparisonTail nested s (⟨op.kind, op.sign, " "⟩ :: us) = some ⟨.binary op s r, rest, o⟩ := by
    intro op hread
    rw [comparisonTail, Parser.map, operator_read hread h]
    rfl
  cases op
  case eq | ne | lt | le | gt | ge =>
    exact (orElse_none rfl).trans ((orElse_none rfl).trans ((orElse_none rfl).trans
      ((orElse_none rfl).trans (hcompare _ rfl))))
  case like =>
    have hlike : likeTail nested s (⟨.keyword .like, "LIKE", " "⟩ :: us)
        = (additive nested us).bind fun pattern =>
          some ⟨.binary .like s pattern.value, pattern.rest, pattern.open?⟩ := rfl
    refine (orElse_none rfl).trans ((orElse_none rfl).trans ((orElse_none rfl).trans
      (orElse_some (hlike.trans ?_))))
    rw [h]
    rfl
  all_goals exact absurd hop (by decide)

/-- A comparison stands between two sums and is no chain. -/
theorem reads_comparison {op : BinaryOp} (hop : op.precedence = 3) {ts us : List Token}
    {l r : Expr} (hl : ReadsAt nested 4 ts l) (hr : ReadsAt nested 4 us r) :
    ReadsAt nested 3 (ts ++ ⟨op.kind, op.sign, " "⟩ :: us) (.binary op l r) := by
  have hbinding : op.kind.binding? = some 3 := by
    cases op
    case eq | ne | lt | le | gt | ge | like => rfl
    all_goals exact absurd hop (by decide)
  refine reads_predicate hl hbinding fun s rest hs hrest => ?_
  obtain ⟨r', o, hread, hlike⟩ := hr.reads rest (hrest.mono (by decide))
  refine ⟨.binary op s r', o, predicateTail_operator hop hread s, ?_⟩
  exact congrArg₂ (Expr.binary op) hs hlike

/-- The bounds are sums, so the AND between them is not taken for the connective. -/
theorem reads_between {ts us vs : List Token} {e low high : Expr} (h : ReadsAt nested 4 ts e)
    (hlow : ReadsAt nested 4 us low) (hhigh : ReadsAt nested 4 vs high) (not : Bool) :
    ReadsAt nested 3
      (ts ++ Ink.negated not (.spaced (.word (.keyword .between) "BETWEEN")
        fun _ => us ++ ⟨.keyword .and, "AND", " "⟩ :: vs) "") (.between e low high not) := by
  -- the lower bound halts at the AND, which binds looser than any operator of a bound
  have htail : ∀ s rest, s.textless = e.textless → Halts 3 rest → ∃ e' o,
      betweenTail nested s (Ink.negated not (.spaced (.word (.keyword .between) "BETWEEN")
        fun _ => us ++ ⟨.keyword .and, "AND", " "⟩ :: vs) "" ++ rest) = some ⟨e', rest, o⟩
      ∧ e'.textless = (Expr.between e low high not).textless := by
    intro s rest hs hrest
    obtain ⟨low', o, hreadLow, hsameLow⟩ := hlow.reads (⟨.keyword .and, "AND", " "⟩ :: (vs ++ rest))
      (halts_cons fun n hn => by obtain rfl := Option.some.inj hn; decide)
    obtain ⟨high', o', hreadHigh, hsameHigh⟩ := hhigh.reads rest (hrest.mono (by decide))
    have hreadLow : additive nested (us ++ ⟨.keyword .and, "AND", " "⟩ :: (vs ++ rest))
      = some ⟨low', ⟨.keyword .and, "AND", " "⟩ :: (vs ++ rest), o⟩ := hreadLow
    have hreadHigh : additive nested (vs ++ rest) = some ⟨high', rest, o'⟩ := hreadHigh
    refine ⟨.between s low' high' not, o', ?_, ?_⟩
    · have hbetween : betweenTail nested s (Ink.negated not (.spaced (.word (.keyword .between)
          "BETWEEN") fun _ => us ++ ⟨.keyword .and, "AND", " "⟩ :: vs) "" ++ rest)
          = (additive nested ((us ++ ⟨.keyword .and, "AND", " "⟩ :: vs) ++ rest)).bind fun low =>
            (keyword .and low.rest).bind fun rest => (additive nested rest).bind fun high =>
              some ⟨.between s low.value high.value not, high.rest, high.open?⟩ := by
        cases not <;> rfl
      rw [hbetween, List.append_assoc]
      show ((additive nested (us ++ ⟨.keyword .and, "AND", " "⟩ :: (vs ++ rest))).bind _) = _
      rw [hreadLow, Option.bind_some]
      show ((additive nested (vs ++ rest)).bind _) = _
      rw [hreadHigh]
      rfl
    · show Expr.between s.textless low'.textless high'.textless not = _
      rw [hs, hsameLow, hsameHigh]
      rfl
  cases not with
  | false =>
      exact reads_predicate h rfl fun s rest hs hrest => by
        obtain ⟨e', o, hread, hsame⟩ := htail s rest hs hrest
        exact ⟨e', o, (orElse_none rfl).trans ((orElse_none rfl).trans (orElse_some hread)), hsame⟩
  | true =>
      exact reads_predicate h rfl fun s rest hs hrest => by
        obtain ⟨e', o, hread, hsame⟩ := htail s rest hs hrest
        exact ⟨e', o, (orElse_none rfl).trans ((orElse_none rfl).trans (orElse_some hread)), hsame⟩

/-! ## Lists and calls -/

/-- Expressions with commas between them, in parentheses. -/
theorem reads_list (htakes : Takes nested) {es : List Expr}
    (h : ∀ e ∈ es, Reads nested 0 (e.tokens "") e) (hne : es ≠ []) (gap : String)
    (rest : List Token) : ∃ vs o, commaList nested
        (Expr.listTokens es ++ ⟨.symbol .closeParen, ")", gap⟩ :: rest)
        = some ⟨vs, ⟨.symbol .closeParen, ")", gap⟩ :: rest, o⟩
      ∧ vs.map Expr.textless = es.map Expr.textless := by
  have hsegments : ∃ vs, Segments nested (⟨.symbol .closeParen, ")", gap⟩ :: rest)
      (Expr.listTokens es ++ ⟨.symbol .closeParen, ")", gap⟩ :: rest) vs
      ∧ vs.map Expr.textless = es.map Expr.textless := by
    induction es with
    | nil => exact absurd rfl hne
    | cons e es ih =>
        have he := h e List.mem_cons_self
        cases es with
        | nil =>
            obtain ⟨v, o, hread, hv⟩ := he (⟨.symbol .closeParen, ")", gap⟩ :: rest)
              (halts_cons (by simp [TokenKind.binding?]))
            exact ⟨[v], .last hread, congrArg (fun x => [x]) hv⟩
        | cons f more =>
            obtain ⟨vs, hvs, hsame⟩ :=
              ih (fun g hg => h g (List.mem_cons_of_mem e hg)) (List.cons_ne_nil f more)
            obtain ⟨v, o, hread, hv⟩ := he (⟨.symbol .comma, ",", " "⟩
              :: (Expr.listTokens (f :: more) ++ ⟨.symbol .closeParen, ")", gap⟩ :: rest))
              (halts_cons (by decide))
            refine ⟨v :: vs, ?_, ?_⟩
            · show Segments nested _ ((e.tokens "" ++ ⟨.symbol .comma, ",", " "⟩
                :: Expr.listTokens (f :: more)) ++ _) _
              rw [List.append_assoc]
              exact .comma hread rfl hvs
            · rw [List.map_cons, List.map_cons, hv, hsame]
  obtain ⟨vs, hvs, hsame⟩ := hsegments
  obtain ⟨o, hlist⟩ := commaList_of_segments htakes.shorter hvs rfl
  exact ⟨vs, o, hlist, hsame⟩

theorem textless_inList (e : Expr) (items : List Expr) (not : Bool) :
    (Expr.inList e items not).textless = .inList e.textless (items.map Expr.textless) not :=
  Expr.retext_inList _ _ e items not

theorem textless_call (name : String) (args : List Expr) (distinct star : Bool) (text : String) :
    (Expr.call name args distinct star text).textless
      = .call name (args.map Expr.textless) distinct star "" :=
  Expr.retext_call _ _ name args distinct star text

/-- The items of a list are expressions of any place. -/
theorem reads_inList (htakes : Takes nested) {ts : List Token} {e : Expr} {items : List Expr}
    (h : ReadsAt nested 4 ts e) (hitems : ∀ f ∈ items, Reads nested 0 (f.tokens "") f)
    (hne : items ≠ []) (not : Bool) (gap : String) :
    ReadsAt nested 3 (ts ++ Ink.negated not (.spaced (.word (.keyword .in) "IN")
      (.parens (Expr.listTokens items))) gap) (.inList e items not) := by
  have htail : ∀ s rest, s.textless = e.textless → ∃ e' o,
      inTail nested s (Ink.negated not (.spaced (.word (.keyword .in) "IN")
        (.parens (Expr.listTokens items))) gap ++ rest) = some ⟨e', rest, o⟩
      ∧ e'.textless = (Expr.inList e items not).textless := by
    intro s rest hs
    obtain ⟨vs, o, hlist, hsame⟩ := reads_list htakes hitems hne gap rest
    refine ⟨.inList s vs not, false, ?_, by rw [textless_inList, textless_inList, hs, hsame]⟩
    have hin : inTail nested s (Ink.negated not (.spaced (.word (.keyword .in) "IN")
        (.parens (Expr.listTokens items))) gap ++ rest)
        = (commaList nested ((Expr.listTokens items ++ [⟨.symbol .closeParen, ")", gap⟩]) ++ rest)).bind
          fun vs => (symbol .closeParen vs.rest).bind fun after =>
            some ⟨.inList s vs.value not, after, false⟩ := by
      cases not <;> rfl
    rw [hin, List.append_assoc, List.singleton_append, hlist]
    rfl
  cases not with
  | false =>
      exact reads_predicate h rfl fun s rest hs _ => by
        obtain ⟨e', o, hread, hsame⟩ := htail s rest hs
        exact ⟨e', o, (orElse_none rfl).trans (orElse_some hread), hsame⟩
  | true =>
      exact reads_predicate h rfl fun s rest hs _ => by
        obtain ⟨e', o, hread, hsame⟩ := htail s rest hs
        exact ⟨e', o, (orElse_none rfl).trans (orElse_some hread), hsame⟩

/-- Arguments without a star are a list, which DISTINCT may stand in front of. -/
theorem arguments_list {ts rest : List Token} {distinct : Bool} {list : Taken (List Expr)}
    (hstar : symbol .star ts = none) (hword : optKeyword .distinct ts = (distinct, rest))
    (hlist : commaList nested rest = some list) :
    arguments nested ts = (⟨list.value, distinct, false⟩, list.rest) := by
  rw [arguments, hstar, hword]
  dsimp only
  rw [hlist]

/-- Where no list can be read there are no arguments. -/
theorem arguments_none {ts rest : List Token} {distinct : Bool}
    (hstar : symbol .star ts = none) (hword : optKeyword .distinct ts = (distinct, rest))
    (hlist : commaList nested rest = none) : arguments nested ts = (⟨[], false, false⟩, ts) := by
  rw [arguments, hstar, hword]
  dsimp only
  rw [hlist]

/-- What stands between the parentheses of a call. -/
theorem reads_arguments (htakes : Takes nested) {args : List Expr} {distinct star : Bool}
    (h : ∀ e ∈ args, Reads nested 0 (e.tokens "") e) (hopens : ∀ e ∈ args, Opens 0 (e.tokens ""))
    (hstar : star = true → args = [] ∧ distinct = false) (hdistinct : distinct = true → args ≠ [])
    (gap : String) (rest : List Token) : ∃ vs, arguments nested
        ((if star then [⟨.symbol .star, "*", ""⟩]
          else if distinct then ⟨.keyword .distinct, "DISTINCT", " "⟩ :: Expr.listTokens args
          else Expr.listTokens args) ++ ⟨.symbol .closeParen, ")", gap⟩ :: rest)
        = (⟨vs, distinct, star⟩, ⟨.symbol .closeParen, ")", gap⟩ :: rest)
      ∧ vs.map Expr.textless = args.map Expr.textless := by
  cases star with
  | true =>
      obtain ⟨rfl, rfl⟩ := hstar rfl
      exact ⟨[], rfl, rfl⟩
  | false =>
      cases distinct with
      | true =>
          obtain ⟨vs, o, hlist, hsame⟩ := reads_list htakes h (hdistinct rfl) gap rest
          refine ⟨vs, ?_, hsame⟩
          exact arguments_list rfl (by rfl) hlist
      | false =>
          cases args with
          | nil =>
              refine ⟨[], ?_, rfl⟩
              have hnone : commaList nested (⟨.symbol .closeParen, ")", gap⟩ :: rest) = none := by
                unfold commaList
                rw [htakes.closeParen rfl]
              exact arguments_none rfl rfl hnone
          | cons e es =>
              obtain ⟨vs, o, hlist, hsame⟩ := reads_list htakes h (List.cons_ne_nil e es) gap rest
              refine ⟨vs, ?_, hsame⟩
              have hbegin : Opens 0
                  (Expr.listTokens (e :: es) ++ ⟨.symbol .closeParen, ")", gap⟩ :: rest) := by
                refine Opens.append ?_ _
                cases es with
                | nil => exact hopens e List.mem_cons_self
                | cons f more => exact (hopens e List.mem_cons_self).append _
              have hword : optKeyword .distinct
                  (Expr.listTokens (e :: es) ++ ⟨.symbol .closeParen, ")", gap⟩ :: rest)
                  = (false, Expr.listTokens (e :: es) ++ ⟨.symbol .closeParen, ")", gap⟩ :: rest) := by
                rw [optKeyword, hbegin.keyword (k := .distinct) (by decide)]
              exact arguments_list (hbegin.symbol (by decide)) hword hlist

/-- So are the arguments of a call, unless the first of them begins with DISTINCT. -/
theorem reads_call (htakes : Takes nested) {name : String} {args : List Expr}
    {distinct star : Bool} (text : String) (h : ∀ e ∈ args, Reads nested 0 (e.tokens "") e)
    (hopens : ∀ e ∈ args, Opens 0 (e.tokens ""))
    (hstar : star = true → args = [] ∧ distinct = false) (hdistinct : distinct = true → args ≠ [])
    (gap : String) : ReadsAt nested 7 ((Expr.call name args distinct star text).tokens gap)
      (.call name args distinct star text) := by
  intro rest _
  obtain ⟨vs, hread, hsame⟩ := reads_arguments htakes h hopens hstar hdistinct gap rest
  generalize hinner : (if star then [⟨.symbol .star, "*", ""⟩]
    else if distinct then ⟨.keyword .distinct, "DISTINCT", " "⟩ :: Expr.listTokens args
    else Expr.listTokens args : List Token) = inner at hread
  -- the call is read up to its text, which the rendering does not fix
  have hcall : ∀ us, ∃ text' : List Token → String, ExprParser.call nested
      (⟨.name, name, ""⟩ :: ⟨.symbol .openParen, "(", ""⟩ :: us)
      = (symbol .closeParen (arguments nested us).2).map fun after =>
        ⟨.call name (arguments nested us).1.args (arguments nested us).1.distinct
          (arguments nested us).1.star (text' after), after, false⟩ := by
    intro us
    refine ⟨fun after => sourceOf false (tokensBefore
      (⟨.name, name, ""⟩ :: ⟨.symbol .openParen, "(", ""⟩ :: us) after), ?_⟩
    show ((symbol .closeParen (arguments nested us).2).bind fun after => some _) = _
    cases symbol .closeParen (arguments nested us).2 <;> rfl
  obtain ⟨text', hcall⟩ := hcall (inner ++ ⟨.symbol .closeParen, ")", gap⟩ :: rest)
  rw [hread] at hcall
  refine ⟨.call name vs distinct star (text' rest), false, ?_,
    by rw [textless_call, textless_call, hsame]⟩
  have htokens : (Expr.call name args distinct star text).tokens gap ++ rest
      = ⟨.name, name, ""⟩ :: ⟨.symbol .openParen, "(", ""⟩
        :: (inner ++ ⟨.symbol .closeParen, ")", gap⟩ :: rest) := by
    rw [← hinner]
    show (⟨.name, name, ""⟩ :: ⟨.symbol .openParen, "(", ""⟩ :: (_ ++ [_])) ++ rest = _
    rw [List.cons_append, List.cons_append, List.append_assoc, List.singleton_append]
  rw [htokens]
  show primary nested _ = _
  rw [primary, orElse_none rfl, orElse_none rfl, orElse_some hcall]

end Nested

/-! ## Expressions -/

/-- In parentheses anything may open any place. -/
theorem opens_enclose {ts : Ink} {place precedence : Nat} (hplace : place ≤ 7)
    (h : ∀ gap, Opens precedence (ts gap)) (gap : String) :
    Opens place (Ink.enclose place precedence ts gap) := by
  unfold Ink.enclose
  split
  · rename_i hle
    exact (h gap).mono hle
  · exact opens_cons rfl hplace _

/-- The left side of an operator stands at its place or further down, and no place is below
primaries. -/
theorem BinaryOp.precedence_le (op : BinaryOp) :
    op.precedence ≤ op.leftPlace ∧ op.leftPlace ≤ 7 ∧ op.rightPlace ≤ 7 := by
  cases op <;> decide

/-- An expression begins like one at its own place. -/
theorem Expr.Renderable.opens {e : Expr} (h : e.Renderable) (gap : String) :
    Opens e.precedence (e.tokens gap) := by
  induction h generalizing gap with
  | @literal v _ =>
      cases v with
      | bool b => cases b <;> exact opens_cons rfl (Nat.le_refl 7) _
      | _ => exact opens_cons rfl (Nat.le_refl 7) _
  | @column c _ _ =>
      obtain ⟨table?, name⟩ := c
      cases table? <;> exact opens_cons rfl (Nat.le_refl 7) _
  | binary op _ _ ih _ =>
      exact ((opens_enclose op.precedence_le.2.1 ih " ").mono op.precedence_le.1).append _
  | unary op _ _ => cases op <;> exact opens_cons rfl (Nat.le_refl _) _
  | call _ _ _ _ _ _ => exact opens_cons rfl (Nat.le_refl 7) _
  | isNull _ _ ih => exact ((opens_enclose (by decide) ih " ").mono (Nat.le_succ 3)).append _
  | inList _ _ _ _ ih _ => exact ((opens_enclose (by decide) ih " ").mono (Nat.le_succ 3)).append _
  | between _ _ _ _ ih _ _ => exact ((opens_enclose (by decide) ih " ").mono (Nat.le_succ 3)).append _

/-- The expression is read at every place in the form it has there, if the depth
    is enough for its tokens. -/
def ReadEverywhere (depth : Nat) (e : Expr) : Prop :=
  ∀ (place : Nat) (gap : String), place ≤ 7 →
    (Ink.enclose place e.precedence e.tokens gap).length ≤ depth + 1 →
    ReadsAt (expr depth) place (Ink.enclose place e.precedence e.tokens gap) e

/-- The depth is enough for what stands in parentheses. -/
def ReadInside (depth : Nat) : Prop :=
  ∀ {e : Expr}, e.Renderable → ∀ gap, (e.tokens gap).length ≤ depth →
    Reads (expr depth) 0 (e.tokens gap) e

theorem Expr.Renderable.precedence_le {e : Expr} (h : e.Renderable) : e.precedence ≤ 7 := by
  cases h with
  | binary op _ _ => exact Nat.le_trans op.precedence_le.1 op.precedence_le.2.1
  | unary op _ => cases op <;> exact Nat.le_of_ble_eq_true rfl
  | _ => exact Nat.le_of_ble_eq_true rfl

section Depth

variable {depth : Nat} (hinside : ReadInside depth)
include hinside

/-- What is read in its own place is read in every place. -/
theorem readEverywhere_of_own {e : Expr} (he : e.Renderable)
    (hown : ∀ gap, (e.tokens gap).length ≤ depth + 1 →
      ReadsAt (expr depth) e.precedence (e.tokens gap) e) : ReadEverywhere depth e := by
  intro place gap hplace hlength
  unfold Ink.enclose at hlength ⊢
  split at hlength
  · rename_i hle
    rw [if_pos hle]
    exact (hown gap hlength).descend (expr_takes depth) (he.opens gap) he.precedence_le hle
  · rename_i hlt
    rw [if_neg hlt]
    have hinner : (e.tokens "").length ≤ depth := by
      rw [Ink.parens, List.length_cons, List.length_append] at hlength
      exact Nat.le_trans (Nat.le_add_right _ _) (Nat.le_of_succ_le_succ hlength)
    exact (reads_parens (hinside he "" hinner) gap).descend (expr_takes depth)
      (opens_cons rfl (Nat.le_refl 7) _) (Nat.le_refl 7) hplace

/-- The expressions of a list are read by themselves. -/
theorem ReadInside.list {es : List Expr} (h : ∀ e ∈ es, e.Renderable)
    (hlength : (Expr.listTokens es).length ≤ depth) :
    ∀ e ∈ es, Reads (expr depth) 0 (e.tokens "") e := by
  have hle : ∀ e ∈ es, (e.tokens "").length ≤ (Expr.listTokens es).length := by
    clear h hlength
    induction es with
    | nil => exact fun _ h => nomatch h
    | cons f es ih =>
        intro e he
        cases es with
        | nil => rw [List.mem_singleton.mp he]; exact Nat.le_refl _
        | cons g more =>
            show _ ≤ (f.tokens "" ++ ⟨.symbol .comma, ",", " "⟩
              :: Expr.listTokens (g :: more)).length
            rw [List.length_append, List.length_cons]
            rcases List.mem_cons.mp he with rfl | he
            · omega
            · have := ih e he
              omega
  exact fun e he => hinside (h e he) "" (Nat.le_trans (hle e he) hlength)

end Depth

theorem length_spaced (ts us : Ink) (gap : String) :
    (Ink.spaced ts us gap).length = (ts " ").length + (us gap).length := List.length_append

theorem length_parens (ts : List Token) (gap : String) :
    (Ink.parens ts gap).length = ts.length + 2 := by
  rw [Ink.parens, List.length_cons, List.length_append, List.length_singleton]

/-- NOT makes a text longer if anything. -/
theorem length_negated (not : Bool) (ts : Ink) (gap : String) :
    (ts gap).length ≤ (Ink.negated not ts gap).length := by
  cases not with
  | false => exact Nat.le_refl _
  | true => exact Nat.le_succ _

/-- Every expression is read at every place in the form it has there. -/
theorem Expr.Renderable.readEverywhere {depth : Nat} (hinside : ReadInside depth) {e : Expr}
    (he : e.Renderable) : ReadEverywhere depth e := by
  have htakes := expr_takes depth
  -- By rules of rendering: each case shows the expression read at its own place, and
  -- `readEverywhere_of_own` adds parentheses for the tighter ones. The lengths only show that the
  -- depth suffices for the operands.
  induction he with
  | literal h => exact readEverywhere_of_own hinside (.literal h) fun gap _ => reads_literal h gap
  | @column c htable h =>
      exact readEverywhere_of_own hinside (.column htable h) fun gap _ => reads_column c gap
  | @binary op left right hleft hright ihl ihr =>
      refine readEverywhere_of_own hinside (.binary op hleft hright) fun gap hlength => ?_
      have hlength : ((Ink.enclose op.leftPlace left.precedence left.tokens " ").length
          + (1 + (Ink.enclose op.rightPlace right.precedence right.tokens gap).length))
          ≤ depth + 1 := by
        rw [show (Expr.binary op left right).tokens gap = Ink.spaced _ (.spaced _ _) gap from rfl,
          length_spaced, length_spaced] at hlength
        exact hlength
      have hl := ihl op.leftPlace " " op.precedence_le.2.1 (by omega)
      have hr := ihr op.rightPlace gap op.precedence_le.2.2 (by omega)
      clear hlength
      -- comparisons do not chain, so they are read by a rule of their own
      cases op
      case eq | ne | lt | le | gt | ge | like => exact reads_comparison rfl hl hr
      all_goals exact reads_operator (by decide) hl hr
  | @unary op operand h ih =>
      refine readEverywhere_of_own hinside (.unary op h) fun gap hlength => ?_
      have hplace : op.place ≤ 7 := by cases op <;> decide
      have hread := ih op.place gap hplace (by
        rw [show (Expr.unary op operand).tokens gap = Ink.spaced _ _ gap from rfl,
          length_spaced] at hlength
        omega)
      cases op with
      | not => exact reads_not hread
      | neg => exact reads_neg hread
  | @call name args distinct star text hname hargs hstar hdistinct _ =>
      refine readEverywhere_of_own hinside (.call text hname hargs hstar hdistinct)
        fun gap hlength => ?_
      -- the list stands inside of parentheses, behind the star or DISTINCT if there is one
      have hlist : (Expr.listTokens args).length ≤ depth := by
        rw [show (Expr.call name args distinct star text).tokens gap
          = ⟨.name, name, ""⟩ :: Ink.parens _ gap from rfl, List.length_cons, length_parens] at hlength
        refine Nat.le_trans ?_ (Nat.le_of_succ_le (Nat.le_of_succ_le_succ hlength))
        cases star with
        | true => rw [(hstar rfl).1]; exact Nat.zero_le _
        | false =>
            cases distinct with
            | true => exact Nat.le_trans (Nat.le_succ _) (Nat.le_succ _)
            | false => exact Nat.le_succ _
      exact reads_call htakes text (hinside.list hargs hlist)
        (fun e he => ((hargs e he).opens "").mono (Nat.zero_le _)) hstar hdistinct gap
  | @isNull subject not h ih =>
      refine readEverywhere_of_own hinside (.isNull not h) fun gap hlength => ?_
      rw [show (Expr.isNull subject not).tokens gap = Ink.spaced _ _ gap from rfl,
        length_spaced] at hlength
      exact reads_isNull (ih subjectPlace " " (by decide) (by omega)) not gap
  | @inList subject items not h hitems hne ih _ =>
      refine readEverywhere_of_own hinside (.inList not h hitems hne) fun gap hlength => ?_
      have hnegated := length_negated not
        (.spaced (.word (.keyword .in) "IN") (.parens (Expr.listTokens items))) gap
      rw [length_spaced, length_parens] at hnegated
      rw [show (Expr.inList subject items not).tokens gap = Ink.spaced _ (Ink.negated not _) gap
        from rfl, length_spaced] at hlength
      exact reads_inList htakes (ih subjectPlace " " (by decide) (by omega))
        (hinside.list hitems (by omega)) hne not gap
  | @between subject low high not h hlow hhigh ih ihl ihh =>
      refine readEverywhere_of_own hinside (.between not h hlow hhigh) fun gap hlength => ?_
      have hnegated := length_negated not (.spaced (.word (.keyword .between) "BETWEEN")
        (.spaced (.enclose subjectPlace low.precedence low.tokens)
          (.spaced (.word (.keyword .and) "AND")
            (.enclose subjectPlace high.precedence high.tokens)))) gap
      rw [length_spaced, length_spaced, length_spaced] at hnegated
      rw [show (Expr.between subject low high not).tokens gap = Ink.spaced _ (Ink.negated not _) gap
        from rfl, length_spaced] at hlength
      have hread := reads_between (ih subjectPlace " " (by decide) (by omega))
        (ihl subjectPlace " " (by decide) (by omega)) (ihh subjectPlace gap (by decide) (by omega))
        not
      cases not <;> exact hread

/-- The parser of expressions reads what its depth is enough for. -/
theorem readInside (depth : Nat) : ReadInside depth := by
  induction depth with
  | zero =>
      intro e he gap hlength
      obtain ⟨t, rest, n, htokens, -⟩ := he.opens gap
      rw [htokens] at hlength
      exact absurd hlength (Nat.not_succ_le_zero _)
  | succ depth ih =>
      intro e he gap hlength
      have hread := he.readEverywhere ih 0 gap (by decide)
      rw [Ink.enclose, if_pos (Nat.zero_le _)] at hread
      exact (hread hlength).reads

/-! ## The statement -/

/-- An expression in front of FROM is an item without alias. -/
theorem item_render {depth : Nat} {ts rest : List Token} {t : Token} {e : Expr} {o : Bool}
    (hopens : Opens 0 ts) (hread : expr depth (ts ++ t :: rest) = some ⟨e, t :: rest, o⟩)
    (ht : t.kind = .keyword .from) : ∃ text o',
      item (expr depth) (ts ++ t :: rest) = some ⟨.expr e none text, t :: rest, o'⟩ := by
  have hwild : wildcard (ts ++ t :: rest) = none := by
    rw [wildcard, (hopens.append (t :: rest)).symbol (s := .star) nofun]
    rfl
  have htable : tableWildcard (ts ++ t :: rest) = none := by
    cases hw : tableWildcard (ts ++ t :: rest) with
    | none => rfl
    | some w =>
        cases depth with
        | zero => exact nomatch hread
        | succ depth =>
            -- a point would be left, but it is FROM
            obtain ⟨c, point, behind, hc, hrest, hpoint⟩ := expr_of_tableWildcard hw depth
            obtain rfl := Option.some.inj (hread.symm.trans hc)
            obtain ⟨rfl, -⟩ := List.cons.inj hrest
            exact nomatch ht.symm.trans hpoint
  have halias : optAlias (t :: rest) = (none, t :: rest) := by
    obtain ⟨kind, lexeme, gap⟩ := t
    obtain rfl := ht
    rfl
  rw [item_eq, orElse_none hwild, orElse_none htable, aliased, hread]
  dsimp only
  rw [halias]
  exact ⟨_, _, rfl⟩

/-- FROM and a table. -/
def fromTable : List Token := [⟨.keyword .from, "FROM", " "⟩, ⟨.name, "t", ""⟩]

/-- FROM and a table behind a list of items make a statement. -/
theorem parse_of_items {sql lead : String} {select : Token} {list : List Token}
    {items : Taken (List SelectItem)} (hselect : select.kind = .keyword .select)
    (hstream : TokenStream.ofString? sql = some ⟨lead, select :: list⟩)
    (hdistinct : keyword .distinct list = none)
    (hitems : commaList (item (expr (list.length + 2))) list = some items)
    (hrest : items.rest = fromTable) :
    ∃ s, parse sql = .ok s ∧ s.items = items.value := by
  have hsources : keyword .from items.rest = some [⟨.name, "t", ""⟩] := by rw [hrest]; rfl
  have htables : commaList table [⟨.name, "t", ""⟩] = some ⟨[⟨"t", none⟩], [], true⟩ := rfl
  obtain ⟨s, rest, hread, hparts⟩ := @select_of_parts _ sql.utf8ByteSize _ _ _ _ _ _
    ((Heads.all hselect).read fun _ => hdistinct) hitems hsources htables
  -- nothing is left for joins and clauses
  have hclauses : readClauses (expr (list.length + 2)) sql.utf8ByteSize ClauseKind.all []
    = (ClauseKind.all.map s.located, rest) := hparts.clauses
  have habsent : ∀ k ∈ ClauseKind.all,
      clauseOf (expr (list.length + 2)) sql.utf8ByteSize k [] = none :=
    fun k _ => clauseOf_none fun u hu => nomatch hu
  rw [readClauses_none habsent] at hclauses
  obtain ⟨hnone, rfl⟩ := Prod.mk.inj hclauses
  have hfits : s.tree.Fits := by
    intro k n hk
    have hlocated : (none : Option (Located ClauseTree)) = s.located k :=
      List.map_inj_left.mp hnone k (ClauseKind.mem_all k)
    have hk : (s.located k).map Located.node = some (.rows n) := hk
    rw [← hlocated] at hk
    exact nomatch hk
  exact ⟨s, parse_iff.mpr ⟨lead, _, _, hstream, hread, .nil, hfits⟩, hparts.items_value⟩

/-- The text of an expression behind SELECT is one item without alias that says the
    same, up to the texts of its calls. -/
theorem parse_render {e : Expr} (h : e.Renderable) :
    ∃ s e' text, parse ("SELECT " ++ e.render ++ " FROM t") = .ok s
      ∧ s.items = [.expr e' none text] ∧ e'.textless = e.textless := by
  have hspells := (Spells.word (lexeme_keyword (k := .select) (w := "SELECT") (by decide))).spaced
    (h.spells.spaced ((Spells.word (lexeme_keyword (k := .from) (w := "FROM") (by decide))).spaced
      (Spells.word (show IsFunctionName "t" from ⟨⟨'t', [], rfl, rfl, List.forall_mem_nil _⟩, by decide⟩).lexeme)))
  have hsql : spaced "SELECT" (spaced e.render (spaced "FROM" "t"))
      = "SELECT " ++ e.render ++ " FROM t" := by
    rw [← String.toList_inj]
    simp only [spaced, String.toList_append, List.append_assoc]
    rfl
  rw [hsql] at hspells
  have hstream : TokenStream.ofString? ("SELECT " ++ e.render ++ " FROM t")
      = some ⟨"", ⟨.keyword .select, "SELECT", " "⟩
        :: (e.tokens " " ++ fromTable)⟩ := hspells.stream
  have hopens : Opens 0 (e.tokens " ") := (h.opens " ").mono (Nat.zero_le _)
  obtain ⟨e', o, hread, hsame⟩ := readInside ((e.tokens " " ++ fromTable).length + 2) h " "
    (by rw [List.length_append]; omega) fromTable (halts_cons (by decide))
  obtain ⟨text, o', hitem⟩ := item_render hopens hread rfl
  obtain ⟨o'', hitems⟩ := commaList_of_segments (item_shorter (expr_takes _)) (.last hitem) rfl
  obtain ⟨s, hparse, hvalue⟩ := parse_of_items rfl hstream
    ((hopens.append _).keyword (k := .distinct) (by decide)) hitems rfl
  exact ⟨s, e', text, hparse, hvalue, hsame⟩

/-- A condition with operators of all places. -/
def mixedCondition : Expr :=
  .binary .and
    (.binary .ge
      (.binary .mul (.binary .add (.literal (.int 1)) (.column ⟨none, "x y"⟩))
        (.unary .neg (.literal (.int 2))))
      (.call "f" [.column ⟨some "t", "c"⟩, .literal (.string "it's")] true false ""))
    (.unary .not (.binary .or (.isNull (.column ⟨none, "b"⟩) false)
      (.inList (.binary .concat (.column ⟨none, "c"⟩) (.literal .null))
        [.literal (.bool true), .between (.literal (.int 3)) (.literal (.int 1))
          (.unary .neg (.unary .neg (.literal (.int 5)))) false] true)))

theorem parse_render_mixed : mixedCondition.Renderable
    ∧ mixedCondition.render = "(1 + \"x y\") * - 2 >= f(DISTINCT \"t\".\"c\", 'it''s') AND "
      ++ "NOT (\"b\" IS NULL OR \"c\" || NULL NOT IN (TRUE, 3 BETWEEN 1 AND - (- 5)))"
    ∧ ∃ s e' text, parse ("SELECT " ++ mixedCondition.render ++ " FROM t") = .ok s
      ∧ s.items = [.expr e' none text] ∧ e'.textless = mixedCondition.textless := by
  have hnumber : ∀ n < 2 ^ (63 : Nat), (Expr.literal (.int n)).Renderable := fun n hn => .literal hn
  have hname : ∀ name : String, '"' ∉ name.toList → (Expr.column ⟨none, name⟩).Renderable :=
    fun name h => .column nofun h
  have hcall : (Expr.call "f" [.column ⟨some "t", "c"⟩, .literal (.string "it's")] true false
      "").Renderable := by
    refine .call "" ⟨⟨'f', [], rfl, rfl, nofun⟩, by decide⟩ ?_ nofun fun _ => List.cons_ne_nil _ _
    refine List.forall_mem_cons.mpr ⟨.column ?_ (by decide), List.forall_mem_singleton.mpr
      (.literal trivial)⟩
    rintro table htable
    obtain rfl := Option.some.inj htable
    decide
  have hbetween : (Expr.between (.literal (.int 3)) (.literal (.int 1))
      (.unary .neg (.unary .neg (.literal (.int 5)))) false).Renderable :=
    .between false (hnumber 3 (by decide)) (hnumber 1 (by decide))
      (.unary .neg (.unary .neg (hnumber 5 (by decide))))
  have h : mixedCondition.Renderable :=
    .binary .and
      (.binary .ge
        (.binary .mul (.binary .add (hnumber 1 (by decide)) (hname "x y" (by decide)))
          (.unary .neg (hnumber 2 (by decide))))
        hcall)
      (.unary .not (.binary .or (.isNull false (hname "b" (by decide)))
        (.inList true (.binary .concat (hname "c" (by decide)) (.literal trivial))
          (List.forall_mem_cons.mpr ⟨.literal trivial, List.forall_mem_singleton.mpr hbetween⟩)
          (List.cons_ne_nil _ _))))
  exact ⟨h, by decide, parse_render h⟩

end QueryReplay.Sql
