import QueryReplay.Proofs.Compositions
import QueryReplay.Proofs.Rendering
import QueryReplay.Proofs.Splicing

/-! # CASE texts — CASE around the texts of expressions

    Texts that are expressions are put between the words of CASE with blanks
    around them.  The text is then read as a CASE of these expressions, or it is no
    expression at all (`readExpr_case`).  The grammar looks for an operand behind
    CASE before it looks for branches, and any word may name a function there.  So
    there is no CASE where WHEN and the first condition are a call, as in
    `CASE WHEN (a = 1) THEN 2 END`, and neither where a result ends in a call of a
    function named CASE and takes the branches behind it for its own. -/

namespace QueryReplay.Sql

open QueryReplay.Sql.Parser QueryReplay.Sql.ExprParser
open Lexer (chars Spelled Gap Lexeme startsGap isGapBlank isWordChar)

/-! ## Texts -/

/-- The expression that a text is, if it is one. -/
def readExpr? (text : String) : Option Expr :=
  (TokenStream.ofString? text).bind fun stream => (fullExpr stream.tokens).bind fun t =>
    if t.rest.isEmpty then some t.value else none

/-- The text is an expression and leaves no line comment open. -/
structure IsExpr (text : String) (e : Expr) : Prop where
  reads : readExpr? text = some e
  closed : endsInComment text = false

/-- The words with blanks between them. -/
inductive Spaced : List String → String → Prop
  | last (w : String) : Spaced [w] w
  | cons (w : String) {ws : List String} {blanks : List Char} {text : String} (hne : blanks ≠ [])
      (hblanks : ∀ c ∈ blanks, isGapBlank c = true) (h : Spaced ws text) :
      Spaced (w :: ws) (w ++ String.ofList blanks ++ text)

/-- Branches, ELSE and END as words and texts of expressions. -/
def tailWords : List (String × String) → Option String → List String
  | (c, r) :: rest, e => "WHEN" :: c :: "THEN" :: r :: tailWords rest e
  | [], some e => ["ELSE", e, "END"]
  | [], none => ["END"]

def caseWords (branches : List (String × String)) (otherwise : Option String) : List String :=
  "CASE" :: tailWords branches otherwise

/-- Whether CASE can be put around the branches: WHEN and the first condition are
    no call, and no result takes the branches behind it for its own. -/
def composes (branches : List (String × String)) : Bool :=
  (branches.head?.all fun b => (readExpr? ("WHEN " ++ b.1)).isNone)
    && branches.dropLast.all fun b =>
      (readExpr? ("CASE WHEN NULL THEN " ++ b.2 ++ " WHEN NULL THEN NULL END")).isSome

/-- Whether the first token of a text opens a parenthesis. -/
def opensParen (text : String) : Bool :=
  ((TokenStream.ofString? text).map fun stream =>
    stream.tokens.head?.any (·.isSymbol .openParen)).getD false

/-- Whether a text has CASE in front of an opening parenthesis. -/
def callsCase (text : String) : Bool :=
  ((TokenStream.ofString? text).map fun stream =>
    (stream.tokens.zip stream.tokens.tail).any fun p =>
      p.1.isKeyword .case && p.2.isSymbol .openParen).getD false

/-! ## An expression and its text -/

/-- The text is cut into the tokens of the expression and ends in no comment. -/
def Whole.WrittenAs (w : Whole) (text : String) : Prop :=
  ∃ lead front t, TokenStream.ofString? text = some ⟨lead, front ++ [t]⟩ ∧ w.tokens = front ++ [t]
    ∧ Gap false t.gap.toList

theorem ready_of_stream {text lead : String} {ts : List Token}
    (h : TokenStream.ofString? text = some ⟨lead, ts⟩) : Ready ts :=
  ⟨spelled_of_stream h, (Lexer.ofString_iff.mp h).2.1⟩

theorem Whole.phrase (w : Whole) : Phrase w.tokens := by
  obtain ⟨o, hread⟩ := w.reads
  obtain ⟨used, hused, hphrase⟩ := fullExpr_takes _ _ hread
  rw [hused, List.append_nil]
  exact hphrase

theorem readExpr_eq {text lead : String} {ts : List Token} {t : Taken Expr}
    (h : TokenStream.ofString? text = some ⟨lead, ts⟩) (ht : fullExpr ts = some t)
    (hrest : t.rest = []) : readExpr? text = some t.value := by
  rw [readExpr?, h, Option.bind_some, ht, Option.bind_some, hrest]
  rfl

theorem readExpr_none {text lead : String} {ts : List Token}
    (h : TokenStream.ofString? text = some ⟨lead, ts⟩) (hnone : fullExpr ts = none) :
    readExpr? text = none := by
  rw [readExpr?, h, Option.bind_some, hnone, Option.bind_none]

/-- A text that is an expression has its tokens. -/
theorem IsExpr.written {text : String} {e : Expr} (h : IsExpr text e) :
    ∃ w : Whole, w.value = e ∧ w.WrittenAs text := by
  obtain ⟨⟨lead, tokens⟩, hstream, hexpr⟩ := Option.bind_eq_some_iff.mp h.reads
  obtain ⟨⟨v, rest, o⟩, hread, hend⟩ := Option.bind_eq_some_iff.mp hexpr
  split at hend
  · rename_i hrest
    obtain rfl := List.isEmpty_iff.mp hrest
    obtain rfl := Option.some.inj hend
    obtain ⟨front, t, htokens, -⟩ := (Whole.mk tokens v ⟨o, hread⟩).phrase.ends
    obtain rfl : tokens = front ++ [t] := htokens
    obtain ⟨o', hgap, -⟩ := gap_of_spelled (spelled_of_stream hstream)
    obtain rfl : o' = false := (endsInComment_of_stream hstream hgap).symm.trans h.closed
    exact ⟨⟨_, v, o, hread⟩, rfl, lead, front, t, hstream, rfl, hgap⟩
  · exact nomatch hend

/-- A word with a gap in front of other tokens. -/
theorem word_before {k : Keyword} {word : String} (hword : Lexeme (.keyword k) word.toList)
    {blanks lead : List Char} (hne : blanks ≠ []) (hblanks : ∀ c ∈ blanks, isGapBlank c = true)
    (hlead : Gap false lead) {us : List Token} (hus : Ready us) : ∃ t, t.kind = .keyword k
      ∧ Ready (t :: us) ∧ chars (t :: us) = word.toList ++ (blanks ++ (lead ++ chars us)) := by
  obtain ⟨d, rest, hd, hstart, -⟩ := hword.keyword rfl
  obtain ⟨c, more, rfl⟩ := List.exists_cons_of_ne_nil hne
  refine ⟨⟨.keyword k, word, String.ofList (c :: more ++ lead)⟩, rfl, .cons hword ?_ ?_ ?_ hus, ?_⟩
  · rw [String.toList_ofList]
    exact (Lexer.gap_of_blanks hblanks).append hlead
  · rw [String.toList_ofList]
    exact joins_blank (hblanks c List.mem_cons_self) _ _ _
  · rw [hd]
    exact Lexer.startsGap_wordChar (Lexer.isWordChar_of_isWordStart hstart) _
  · rw [Lexer.chars_cons, String.toList_ofList, List.append_assoc]

/-- An expression with blanks in front of other tokens. -/
theorem Whole.WrittenAs.before {w : Whole} {text : String} (h : w.WrittenAs text)
    {blanks behind : List Char} (hne : blanks ≠ []) (hblanks : ∀ c ∈ blanks, isGapBlank c = true)
    (hbehind : Gap false behind) {ts : List Token} (hts : Ready ts) :
    ∃ lead us, Gap false lead ∧ w.Before ts us ∧ Ready us
      ∧ lead ++ chars us = text.toList ++ (blanks ++ (behind ++ chars ts)) := by
  obtain ⟨lead, front, t, hstream, htokens, hgap⟩ := h
  have hphrase := w.phrase
  rw [htokens] at hphrase
  obtain ⟨o, hlead, hopen⟩ := (Lexer.ofString_iff.mp hstream).2.2.1
  obtain ⟨c, more, rfl⟩ := List.exists_cons_of_ne_nil hne
  have hclosed : Gap false (t.gap.toList ++ (c :: more ++ behind)) :=
    hgap.append ((Lexer.gap_of_blanks hblanks).append hbehind)
  have hjoins : Lexer.joins t.kind t.lexeme.toList
      (t.gap.toList ++ (c :: more ++ behind ++ chars ts)) = false :=
    not_joins_behind hstream hgap fun _ => joins_blank (hblanks c List.mem_cons_self) _ _ _
  rw [← List.append_assoc] at hjoins
  have hwhole := stream_behind hstream (Token.isFinal_of_endsPhrase hphrase.endsPhrase)
    hphrase.apart hts.spelled hts.start hclosed nofun hjoins
  refine ⟨lead.toList,
    front ++ { t with gap := String.ofList (t.gap.toList ++ (c :: more ++ behind)) } :: ts,
    ?_, ?_, ready_of_stream hwhole, ?_⟩
  · cases o with
    | false => exact hlead
    | true => exact absurd (List.append_eq_nil_iff.mp (hopen rfl)).2 (List.cons_ne_nil t [])
  · rw [Whole.Before, htokens, List.length_append]
    exact twin_of_level rfl rfl hphrase.endsPhrase (hphrase.balanced 0)
  · rw [← toList_of_stream hwhole, String.toList_append, String.toList_ofList, List.append_assoc]

/-! ## Words and expressions as tokens -/

/-- Texts of the words have tokens of this kind. -/
def Lays (ws : List String) (P : List Token → Prop) : Prop :=
  ∀ text, Spaced ws text →
    ∃ lead ts, Gap false lead ∧ P ts ∧ Ready ts ∧ lead ++ chars ts = text.toList

section Lays

variable {ws : List String} {P Q : List Token → Prop} {k : Keyword}

theorem Lays.mono (h : Lays ws P) (hPQ : ∀ ts, P ts → Q ts) : Lays ws Q := by
  intro text htext
  obtain ⟨lead, ts, hlead, hts, hready, hchars⟩ := h text htext
  exact ⟨lead, ts, hlead, hPQ ts hts, hready, hchars⟩

/-- A word by itself. -/
theorem lays_word {word : String} (hword : Lexeme (.keyword k) word.toList) :
    Lays [word] fun ts => ∃ t, ts = [t] ∧ t.kind = .keyword k := by
  intro text htext
  obtain rfl : text = word := by
    cases htext with
    | last _ => rfl
    | cons _ _ _ h => cases h
  obtain ⟨d, rest, hd, hstart, -⟩ := hword.keyword rfl
  refine ⟨[], [⟨.keyword k, text, ""⟩], .nil, ⟨_, rfl, rfl⟩,
    .cons hword .nil (Lexer.joins_nil _ _) ?_ .nil, ?_⟩
  · rw [hd]
    exact Lexer.startsGap_wordChar (Lexer.isWordChar_of_isWordStart hstart) _
  · rw [Lexer.chars_cons, Lexer.chars_nil, List.append_nil]
    exact List.append_nil _

variable (hne : ws ≠ [])
include hne

theorem Spaced.uncons {w text : String} (h : Spaced (w :: ws) text) : ∃ blanks more, blanks ≠ []
    ∧ (∀ c ∈ blanks, isGapBlank c = true) ∧ Spaced ws more
    ∧ text.toList = w.toList ++ (blanks ++ more.toList) := by
  cases h with
  | last _ => exact absurd rfl hne
  | @cons _ _ blanks more hblanks hall h =>
      refine ⟨blanks, more, hblanks, hall, h, ?_⟩
      rw [String.toList_append, String.toList_append, String.toList_ofList, List.append_assoc]

/-- A word in front of others. -/
theorem Lays.word (h : Lays ws P) {word : String} (hword : Lexeme (.keyword k) word.toList) :
    Lays (word :: ws) fun ts => ∃ t us, ts = t :: us ∧ t.kind = .keyword k ∧ P us := by
  intro text htext
  obtain ⟨blanks, more, hblanks, hall, hmore, hchars⟩ := htext.uncons hne
  obtain ⟨lead, us, hlead, hus, hready, hmoreChars⟩ := h more hmore
  obtain ⟨t, ht, hready, htChars⟩ := word_before hword hblanks hall hlead hready
  refine ⟨[], t :: us, .nil, ⟨t, us, rfl, ht, hus⟩, hready, ?_⟩
  rw [List.nil_append, htChars, hchars, hmoreChars]

/-- An expression in front of others. -/
theorem Lays.expr (h : Lays ws P) {w : Whole} {text : String} (hw : w.WrittenAs text) :
    Lays (text :: ws) fun us => ∃ ts, w.Before ts us ∧ P ts := by
  intro whole hwhole
  obtain ⟨blanks, more, hblanks, hall, hmore, hchars⟩ := hwhole.uncons hne
  obtain ⟨lead, ts, hlead, hts, hready, hmoreChars⟩ := h more hmore
  -- the gap in front of what follows belongs to the expression
  obtain ⟨lead', us, hlead', hbefore, hready', husChars⟩ := hw.before hblanks hall hlead hready
  refine ⟨lead', us, hlead', ⟨ts, hbefore, hts⟩, hready', ?_⟩
  rw [husChars, hchars, hmoreChars]

end Lays

/-- One blank between. -/
theorem Spaced.blank {ws : List String} {text : String} (h : Spaced ws text) (w : String) :
    Spaced (w :: ws) (w ++ " " ++ text) :=
  .cons w (List.cons_ne_nil ' ' []) (List.forall_mem_singleton.mpr rfl) h

theorem stream_of_lays {ws : List String} {P : List Token → Prop} {text : String} (h : Lays ws P)
    (htext : Spaced ws text) : ∃ lead ts, TokenStream.ofString? text = some ⟨lead, ts⟩ ∧ P ts := by
  obtain ⟨lead, ts, hlead, hts, hready, hchars⟩ := h text htext
  refine ⟨String.ofList lead, ts, Lexer.ofString_iff.mpr ⟨?_, hready.start, ⟨false, ?_, nofun⟩,
    hready.spelled⟩, hts⟩
  · rw [String.toList_ofList, hchars]
  · rw [String.toList_ofList]
    exact hlead

/-- The words of CASE have the expressions between them. -/
theorem lays_tail {branches : List (String × String)} {bs : List (Whole × Whole)}
    {otherwise : Option String} {e : Option Whole}
    (hbs : List.Forall₂ (fun b w => w.1.WrittenAs b.1 ∧ w.2.WrittenAs b.2) branches bs)
    (he : Option.Rel (fun text w => w.WrittenAs text) otherwise e) :
    Lays (tailWords branches otherwise) (Composed bs e) := by
  have hend : Lays ["END"] fun ts => ∃ t, ts = [t] ∧ t.kind = .keyword .end :=
    lays_word (lexeme_keyword (by decide))
  induction hbs with
  | nil =>
      cases he with
      | none =>
          refine hend.mono fun ts hts => ?_
          obtain ⟨t, rfl, ht⟩ := hts
          exact .end ht
      | some he =>
          refine ((hend.expr (List.cons_ne_nil _ _) he).word (List.cons_ne_nil _ _)
            (lexeme_keyword (k := .else) (by decide))).mono fun ts hts => ?_
          obtain ⟨t, us, rfl, ht, _, hbefore, t', rfl, ht'⟩ := hts
          exact .else ht ht' hbefore
  | @cons b w branches bs h _ ih =>
      have hne : tailWords branches otherwise ≠ [] := by
        cases branches <;> cases otherwise <;> exact List.cons_ne_nil _ _
      have hresult := (ih.expr hne h.2).word (List.cons_ne_nil _ _)
        (lexeme_keyword (k := .then) (w := "THEN") (by decide))
      refine ((hresult.expr (List.cons_ne_nil _ _) h.1).word (List.cons_ne_nil _ _)
        (lexeme_keyword (k := .when) (by decide))).mono fun ts hts => ?_
      obtain ⟨t, us, rfl, ht, _, hc, t', behind, rfl, ht', rest, hr, hrest⟩ := hts
      exact .when ht ht' hc hr hrest

/-- The text of a CASE is read as it is written, or is no expression. -/
theorem readExpr_composed {branches : List (String × String)} {c r : Whole}
    {bs : List (Whole × Whole)} {otherwise : Option String} {e : Option Whole} {text : String}
    (hbs : List.Forall₂ (fun b w => w.1.WrittenAs b.1 ∧ w.2.WrittenAs b.2) branches ((c, r) :: bs))
    (he : Option.Rel (fun text w => w.WrittenAs text) otherwise e)
    (htext : Spaced (caseWords branches otherwise) text) :
    readExpr? text = some (.case none (valuesOf ((c, r) :: bs)) (e.map Whole.value))
        ∧ ¬c.Callable ∧ AllStand ((c, r) :: bs)
      ∨ readExpr? text = none ∧ ¬(¬c.Callable ∧ AllStand ((c, r) :: bs)) := by
  have hne : tailWords branches otherwise ≠ [] := by
    cases branches <;> cases otherwise <;> exact List.cons_ne_nil _ _
  have hlays := (lays_tail hbs he).word hne (lexeme_keyword (k := .case) (w := "CASE") (by decide))
  obtain ⟨lead, _, hstream, t, us, rfl, ht, hcomposed⟩ := stream_of_lays hlays htext
  refine (hcomposed.read ht).imp (fun ⟨⟨o, hread⟩, hok⟩ => ⟨?_, hok⟩) fun ⟨hnone, hok⟩ => ⟨?_, hok⟩
  · exact readExpr_eq hstream hread rfl
  · exact readExpr_none hstream hnone

/-! ## The conditions -/

/-- Tokens are twins of themselves. -/
theorem Whole.before_self (w : Whole) : w.Before [] w.tokens := by
  obtain ⟨front, t, htokens, ht⟩ := w.phrase.ends
  have hbalanced := w.phrase.balanced 0
  rw [htokens] at hbalanced
  rw [Whole.Before, htokens, List.length_append]
  exact twin_of_level rfl rfl ht hbalanced

/-- WHEN and an expression are one exactly where it could be arguments. -/
theorem readExpr_when {w : Whole} {text : String} (h : w.WrittenAs text) :
    readExpr? ("WHEN " ++ text) = none ↔ ¬w.Callable := by
  obtain ⟨lead, front, t, hstream, htokens, -⟩ := h
  obtain ⟨o, hlead, hopen⟩ := (Lexer.ofString_iff.mp hstream).2.2.1
  have hclosed : Gap false lead.toList := by
    cases o with
    | false => exact hlead
    | true => exact absurd (List.append_eq_nil_iff.mp (hopen rfl)).2 (List.cons_ne_nil t [])
  obtain ⟨s, hs, hready, hchars⟩ := word_before (lexeme_keyword (k := .when) (w := "WHEN") (by decide))
    (List.cons_ne_nil ' ' []) (List.forall_mem_singleton.mpr rfl) hclosed (ready_of_stream hstream)
  have hwhen : TokenStream.ofString? ("WHEN " ++ text) = some ⟨"", s :: (front ++ [t])⟩ := by
    refine Lexer.ofString_iff.mpr ⟨?_, hready.start, ⟨false, .nil, nofun⟩, hready.spelled⟩
    rw [String.toList_append, toList_of_stream hstream, hchars]
    rfl
  rw [← htokens] at hwhen
  have hnone := Whole.when_before hs w.before_self
  rw [← hnone]
  refine ⟨fun hread => ?_, fun hread => readExpr_none hwhen hread⟩
  cases hcall : fullExpr (s :: w.tokens) with
  | none => rfl
  | some u =>
      obtain ⟨o, he⟩ := w.reads
      obtain ⟨k, hk⟩ := Option.ne_none_iff_exists'.mp
        (mt (fullExpr_when hs w.tokens).mpr fun hnone => nomatch hcall.symm.trans hnone)
      have hrest := remainder_when hs he hk
      rw [remainder_of_some hcall] at hrest
      exact nomatch hread.symm.trans (readExpr_eq hwhen hcall (Option.some.inj hrest))

/-- The least expression. -/
def nullWhole : Whole := ⟨[⟨.keyword .null, "NULL", ""⟩], .literal .null, true, by rfl⟩

theorem written_null : nullWhole.WrittenAs "NULL" :=
  ⟨"", [], ⟨.keyword .null, "NULL", ""⟩, by decide, rfl, .nil⟩

theorem not_callable_null : ¬nullWhole.Callable := by
  intro h
  obtain ⟨p, inside, htokens, hp⟩ := h.open
  obtain ⟨rfl, -⟩ := List.cons.inj htokens
  exact nomatch hp

/-- A result with a branch behind it is read where it stands in front of branches. -/
theorem readExpr_probe {w : Whole} {text : String} (h : w.WrittenAs text) :
    (readExpr? ("CASE WHEN NULL THEN " ++ text ++ " WHEN NULL THEN NULL END")).isSome = true
      ↔ w.Stands := by
  have hspaced : Spaced (caseWords [("NULL", text), ("NULL", "NULL")] none)
      ("CASE WHEN NULL THEN " ++ text ++ " WHEN NULL THEN NULL END") := by
    have hwords := ((((((((((Spaced.last "END").blank "NULL").blank "THEN").blank "NULL").blank
      "WHEN").blank text).blank "THEN").blank "NULL").blank "WHEN").blank "CASE")
    have htext : "CASE" ++ " " ++ ("WHEN" ++ " " ++ ("NULL" ++ " " ++ ("THEN" ++ " " ++ (text ++ " "
        ++ ("WHEN" ++ " " ++ ("NULL" ++ " " ++ ("THEN" ++ " " ++ ("NULL" ++ " " ++ "END"))))))))
        = "CASE WHEN NULL THEN " ++ text ++ " WHEN NULL THEN NULL END" := by
      rw [← String.toList_inj]
      simp only [String.toList_append, List.append_assoc]
      rfl
    rwa [htext] at hwords
  have hstand : AllStand [(nullWhole, w), (nullWhole, nullWhole)] ↔ w.Stands := List.forall_mem_singleton
  have hbs : List.Forall₂ (fun b (w : Whole × Whole) => w.1.WrittenAs b.1 ∧ w.2.WrittenAs b.2)
      [("NULL", text), ("NULL", "NULL")] [(nullWhole, w), (nullWhole, nullWhole)] :=
    .cons ⟨written_null, h⟩ (.cons ⟨written_null, written_null⟩ .nil)
  rcases readExpr_composed hbs .none hspaced with ⟨hread, -, hok⟩ | ⟨hread, hok⟩
  · rw [hread]
    exact iff_of_true rfl (hstand.mp hok)
  · rw [hread]
    exact iff_of_false nofun fun h => hok ⟨not_callable_null, hstand.mpr h⟩

/-- What holds of all entries but the last holds of those that they are related to. -/
theorem forall_dropLast {α β : Type} {R : α → β → Prop} {as : List α} {bs : List β} {p : α → Prop}
    {q : β → Prop} (h : List.Forall₂ R as bs) (hpq : ∀ a b, R a b → p a → q b)
    (hp : ∀ a ∈ as.dropLast, p a) : ∀ b ∈ bs.dropLast, q b := by
  induction h with
  | nil => exact nofun
  | cons hab h ih =>
      cases h with
      | nil => exact nofun
      | cons _ _ =>
          rw [List.dropLast_cons_cons, List.forall_mem_cons] at hp ⊢
          exact ⟨hpq _ _ hab hp.1, ih hp.2⟩

theorem composes_iff {b : String × String} {branches : List (String × String)} {c r : Whole}
    {bs : List (Whole × Whole)} (hbs : List.Forall₂
      (fun b w => w.1.WrittenAs b.1 ∧ w.2.WrittenAs b.2) (b :: branches) ((c, r) :: bs)) :
    composes (b :: branches) = true ↔ ¬c.Callable ∧ AllStand ((c, r) :: bs) := by
  obtain ⟨h, -⟩ := List.forall₂_cons.mp hbs
  rw [composes, Bool.and_eq_true, List.all_eq_true, ← readExpr_when h.1, ← Option.isNone_iff_eq_none]
  exact and_congr Iff.rfl ⟨forall_dropLast hbs fun _ _ h => (readExpr_probe h.2).mp,
    forall_dropLast hbs.flip fun _ _ h => (readExpr_probe h.2).mpr⟩

/-- What could be the arguments of a function begins with a parenthesis. -/
theorem opensParen_of_callable {w : Whole} {text : String} (h : w.WrittenAs text)
    (hcallable : w.Callable) : opensParen text = true := by
  obtain ⟨lead, front, t, hstream, htokens, -⟩ := h
  obtain ⟨p, inside, hopen, hp⟩ := hcallable.open
  rw [opensParen, hstream, ← htokens, hopen]
  exact beq_iff_eq.mpr hp

/-- Neighbours in a list are among the pairs of neighbours. -/
theorem mem_zip_tail {α : Type} (before : List α) (a b : α) (rest : List α) :
    (a, b) ∈ (before ++ a :: b :: rest).zip (before ++ a :: b :: rest).tail := by
  induction before with
  | nil => exact List.mem_cons_self
  | cons c before ih =>
      cases before with
      | nil => exact List.mem_cons_of_mem _ List.mem_cons_self
      | cons d before => exact List.mem_cons_of_mem _ ih

/-- A result stands in front of branches if it calls no function named CASE. -/
theorem stands_of_callsCase {w : Whole} {text : String} (h : w.WrittenAs text)
    (hcalls : callsCase text = false) : w.Stands := by
  obtain ⟨lead, front, t, hstream, htokens, -⟩ := h
  rw [callsCase, hstream, ← htokens] at hcalls
  refine Whole.stands_of_caseFree fun k p rest hsuffix _ hk hp => ?_
  obtain ⟨before, hbefore⟩ := hsuffix
  have hmem : (k, p) ∈ w.tokens.zip w.tokens.tail := by
    rw [← hbefore]
    exact mem_zip_tail before k p rest
  exact absurd (List.any_eq_true.mpr ⟨(k, p), hmem, Bool.and_eq_true_iff.mpr
    ⟨beq_iff_eq.mpr hk, beq_iff_eq.mpr hp⟩⟩) (Bool.not_eq_true _ ▸ hcalls)

/-! ## CASE around the texts of expressions -/

/-- Texts that are expressions have their tokens, one by one. -/
theorem written_branches {branches : List (String × String)} {values : List (Expr × Expr)}
    (h : List.Forall₂ (fun b v => IsExpr b.1 v.1 ∧ IsExpr b.2 v.2) branches values) :
    ∃ bs, List.Forall₂ (fun b w => w.1.WrittenAs b.1 ∧ w.2.WrittenAs b.2) branches bs
      ∧ valuesOf bs = values := by
  induction h with
  | nil => exact ⟨[], .nil, rfl⟩
  | cons h _ ih =>
      obtain ⟨c, hcValue, hc⟩ := h.1.written
      obtain ⟨r, hrValue, hr⟩ := h.2.written
      obtain ⟨bs, hbs, hvalues⟩ := ih
      exact ⟨(c, r) :: bs, .cons ⟨hc, hr⟩ hbs, congrArg₂ List.cons (Prod.ext hcValue hrValue) hvalues⟩

/-- CASE around texts of expressions is the CASE of the expressions if it composes,
    and no expression else.  It composes if the first condition begins with no
    parenthesis and no result but the last has CASE in front of one. -/
theorem readExpr_case {branches : List (String × String)} {otherwise : Option String}
    {values : List (Expr × Expr)} {value : Option Expr} {text : String} (hne : branches ≠ [])
    (hbranches : List.Forall₂ (fun b v => IsExpr b.1 v.1 ∧ IsExpr b.2 v.2) branches values)
    (hotherwise : Option.Rel IsExpr otherwise value)
    (htext : Spaced (caseWords branches otherwise) text) :
    readExpr? text = (if composes branches then some (.case none values value) else none)
      ∧ ((∀ b ∈ branches.head?, opensParen b.1 = false) →
        (∀ b ∈ branches.dropLast, callsCase b.2 = false) → composes branches = true) := by
  obtain ⟨bs, hbs, rfl⟩ := written_branches hbranches
  obtain ⟨e, he, rfl⟩ : ∃ e : Option Whole,
      Option.Rel (fun text w => w.WrittenAs text) otherwise e ∧ e.map Whole.value = value := by
    cases hotherwise with
    | none => exact ⟨none, .none, rfl⟩
    | some h =>
        obtain ⟨w, rfl, hw⟩ := h.written
        exact ⟨some w, .some hw, rfl⟩
  cases hbs with
  | nil => exact absurd rfl hne
  | @cons b w branches bs h hbs =>
      obtain ⟨c, r⟩ := w
      have hcomposes := composes_iff (.cons h hbs)
      refine ⟨?_, fun hhead hresults => hcomposes.mpr ⟨fun hcallable => ?_, ?_⟩⟩
      · rcases readExpr_composed (.cons h hbs) he htext with ⟨hread, hok⟩ | ⟨hread, hok⟩
        · rw [hread, if_pos (hcomposes.mpr hok)]
        · rw [hread, if_neg (mt hcomposes.mp hok)]
      · exact nomatch (opensParen_of_callable h.1 hcallable).symm.trans (hhead b rfl)
      · exact forall_dropLast (.cons h hbs) (fun _ _ h => stands_of_callsCase h.2) hresults

/-- A condition in parentheses may stand in a later branch, and a call of CASE at the
    end of the last result. -/
theorem readExpr_case_later :
    readExpr? "CASE WHEN a = 1 THEN 2\n WHEN (b) THEN CASE (c) ELSE 'x' END"
      = some (.case none
          [(.binary .eq (.column ⟨none, "a"⟩) (.literal (.int 1)), .literal (.int 2)),
            (.column ⟨none, "b"⟩, .call "CASE" [.column ⟨none, "c"⟩] false false "CASE (c)")]
          (some (.literal (.string "x")))) := by
  have hexpr : ∀ {text : String} {e : Expr} (ts : List Token),
      TokenStream.ofString? text = some ⟨"", ts⟩ → fullExpr ts = some ⟨e, [], true⟩ →
      endsInComment text = false → IsExpr text e :=
    fun _ hstream hread hclosed => ⟨readExpr_eq hstream hread rfl, hclosed⟩
  have hone : IsExpr "a = 1" (.binary .eq (.column ⟨none, "a"⟩) (.literal (.int 1))) :=
    hexpr [⟨.name, "a", " "⟩, ⟨.symbol .eq, "=", " "⟩, ⟨.number, "1", ""⟩] (by decide +kernel)
      (by rfl) (by decide +kernel)
  have htwo : IsExpr "2" (.literal (.int 2)) :=
    hexpr [⟨.number, "2", ""⟩] (by decide +kernel) (by rfl) (by decide +kernel)
  have hparens : IsExpr "(b)" (.column ⟨none, "b"⟩) :=
    hexpr [⟨.symbol .openParen, "(", ""⟩, ⟨.name, "b", ""⟩, ⟨.symbol .closeParen, ")", ""⟩]
      (by decide +kernel) (by rfl) (by decide +kernel)
  have hcall : IsExpr "CASE (c)" (.call "CASE" [.column ⟨none, "c"⟩] false false "CASE (c)") :=
    hexpr [⟨.keyword .case, "CASE", " "⟩, ⟨.symbol .openParen, "(", ""⟩, ⟨.name, "c", ""⟩,
      ⟨.symbol .closeParen, ")", ""⟩] (by decide +kernel) (by rfl) (by decide +kernel)
  have htext : IsExpr "'x'" (.literal (.string "x")) :=
    hexpr [⟨.text, "'x'", ""⟩] (by decide +kernel) (by rfl) (by decide +kernel)
  -- the words with their gaps; the second result would take the tail for its own branches were it
  -- not closed by its parentheses
  have hbehind : Spaced (tailWords [("(b)", "CASE (c)")] (some "'x'"))
      "WHEN (b) THEN CASE (c) ELSE 'x' END" :=
    ((((((Spaced.last "END").blank "'x'").blank "ELSE").blank "CASE (c)").blank "THEN").blank
      "(b)").blank "WHEN"
  have hspaced : Spaced (caseWords [("a = 1", "2"), ("(b)", "CASE (c)")] (some "'x'"))
      "CASE WHEN a = 1 THEN 2\n WHEN (b) THEN CASE (c) ELSE 'x' END" :=
    ((((Spaced.cons "2" (List.cons_ne_nil '\n' [' '])
      (List.forall_mem_cons.mpr ⟨rfl, List.forall_mem_singleton.mpr rfl⟩) hbehind).blank
      "THEN").blank "a = 1").blank "WHEN").blank "CASE"
  have hbranches : List.Forall₂ (fun b (v : Expr × Expr) => IsExpr b.1 v.1 ∧ IsExpr b.2 v.2)
      [("a = 1", "2"), ("(b)", "CASE (c)")]
      [(.binary .eq (.column ⟨none, "a"⟩) (.literal (.int 1)), .literal (.int 2)),
        (.column ⟨none, "b"⟩, .call "CASE" [.column ⟨none, "c"⟩] false false "CASE (c)")] :=
    .cons ⟨hone, htwo⟩ (.cons ⟨hparens, hcall⟩ .nil)
  rw [(readExpr_case (List.cons_ne_nil _ _) hbranches (.some htext) hspaced).1,
    if_pos (by decide +kernel)]

/-- WHEN and a condition in parentheses are a call, and no CASE goes on behind it. -/
theorem readExpr_case_parens : (readExpr? "(a = 1)").isSome = true ∧ (readExpr? "2").isSome = true
    ∧ endsInComment "(a = 1)" = false ∧ endsInComment "2" = false
    ∧ Spaced (caseWords [("(a = 1)", "2")] none) "CASE WHEN (a = 1) THEN 2 END"
    ∧ readExpr? "CASE WHEN (a = 1) THEN 2 END" = none := by
  refine ⟨by decide +kernel, by decide +kernel, by decide +kernel, by decide +kernel, ?_,
    Option.isNone_iff_eq_none.mp (by decide +kernel)⟩
  exact ((((((Spaced.last "END").blank "2").blank "THEN").blank "(a = 1)").blank "WHEN").blank "CASE")

end QueryReplay.Sql
