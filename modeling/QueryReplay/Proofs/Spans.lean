import QueryReplay.Proofs.Expressions
import QueryReplay.Proofs.Relations
import QueryReplay.Proofs.Splicing

/-! # Spans — where the parts of a statement stand

    A statement is cut at the offsets that its spans give, without a look at the text
    there.  Every such offset is the size of the text in front of some token or ends in the
    gap behind one, so it falls between characters.  The route:

    * what is taken off tokens stands from the first of them on and ends, with something in
      it, in front of those that are left (`spansFrom_single`);
    * so the spans of parts that are read one behind another are in order
      (`SpansFrom.append`): the SELECT list, FROM, the joins and the clauses
      (`clauseSpans_from`);
    * the text of a clause is what is behind its keywords in its span
      (`clauseOf_textBehind`).

    With that all cuts are at boundaries, in order (`spans_safe`). -/

namespace QueryReplay

/-! ## Boundaries -/

namespace Text

/-- The offset falls between two characters, or at an end of the text. -/
def IsBoundary (s : String) (n : Nat) : Prop := String.Pos.Raw.IsValid s ⟨n⟩

/-- From one offset up to the other there is a slice of the text. -/
structure InRange (s : String) (a b : Nat) : Prop where
  start : IsBoundary s a
  stop : IsBoundary s b
  le : a ≤ b

/-- The size of a front is a boundary. -/
theorem isBoundary_front {s : String} {front back : List Char} (h : s.toList = front ++ back) :
    IsBoundary s (bytes front) := by
  refine String.Pos.Raw.isValid_iff_exists_append.mpr
    ⟨String.ofList front, String.ofList back, ?_, ?_⟩
  · rw [← String.ofList_append, ← h, String.ofList_toList]
  · rw [← utf8ByteSize_ofList]
    rfl

theorem isBoundary_zero (s : String) : IsBoundary s 0 :=
  isBoundary_front (show s.toList = [] ++ s.toList from rfl)

theorem isBoundary_size (s : String) : IsBoundary s s.utf8ByteSize := by
  rw [utf8ByteSize_eq_bytes]
  exact isBoundary_front (List.append_nil _).symm

theorem bytes_pos {cs : List Char} (h : cs ≠ []) : 0 < bytes cs := by
  obtain ⟨c, rest, rfl⟩ := List.exists_cons_of_ne_nil h
  rw [bytes_cons]
  exact Nat.lt_of_lt_of_le c.utf8Size_pos (Nat.le_add_right _ _)

end Text

namespace Sql

open QueryReplay.Sql.Parser QueryReplay.Sql.StatementParser
open QueryReplay.Sql.ExprParser (expr)
open QueryReplay.Text (bytes slice dropTrailing isBlank IsBoundary InRange)
open Lexer (chars Spelled Gap Lexeme)

/-! ## Spans in order -/

/-- Spans in order between two offsets: each is a slice of the text with something in it,
    and begins where the one before it ends or later. -/
inductive SpansFrom (sql : String) : Nat → List Span → Nat → Prop where
  | nil {a b : Nat} : a ≤ b → SpansFrom sql a [] b
  | cons {a b : Nat} {p : Span} {ps : List Span} : a ≤ p.start → p.start < p.stop →
      InRange sql p.start p.stop → SpansFrom sql p.stop ps b → SpansFrom sql a (p :: ps) b

namespace SpansFrom

variable {sql : String} {a b c : Nat} {ps qs : List Span}

theorem mono (h : SpansFrom sql b ps c) (hab : a ≤ b) : SpansFrom sql a ps c := by
  cases h with
  | nil hbc => exact .nil (Nat.le_trans hab hbc)
  | cons hstart hlt hrange hmore => exact .cons (Nat.le_trans hab hstart) hlt hrange hmore

theorem upTo (h : SpansFrom sql a ps b) (hbc : b ≤ c) : SpansFrom sql a ps c := by
  induction h with
  | nil hab => exact .nil (Nat.le_trans hab hbc)
  | cons hstart hlt hrange _ ih => exact .cons hstart hlt hrange (ih hbc)

theorem append (h : SpansFrom sql a ps b) (h' : SpansFrom sql b qs c) :
    SpansFrom sql a (ps ++ qs) c := by
  induction h with
  | nil hab => exact h'.mono hab
  | cons hstart hlt hrange _ ih => exact .cons hstart hlt hrange (ih h')

theorem forall_mem (h : SpansFrom sql a ps b) :
    ∀ p ∈ ps, a ≤ p.start ∧ p.start < p.stop ∧ InRange sql p.start p.stop := by
  induction h with
  | nil _ => exact nofun
  | cons hstart hlt hrange _ ih =>
      refine List.forall_mem_cons.mpr ⟨⟨hstart, hlt, hrange⟩, fun p hp => ?_⟩
      obtain ⟨hle, hmore⟩ := ih p hp
      exact ⟨Nat.le_trans hstart (Nat.le_trans (Nat.le_of_lt hlt) hle), hmore⟩

theorem pairwise (h : SpansFrom sql a ps b) : ps.Pairwise fun p q => p.stop ≤ q.start := by
  induction h with
  | nil _ => exact .nil
  | cons _ _ _ hmore ih => exact List.pairwise_cons.mpr ⟨fun q hq => (hmore.forall_mem q hq).1, ih⟩

end SpansFrom

/-! ## What is taken off tokens -/

section Stream

variable {sql lead : String} {tokens : List Token}
  (hstream : TokenStream.ofString? sql = some ⟨lead, tokens⟩)
include hstream

theorem isBoundary_offset {front rest : List Token} (hsplit : tokens = front ++ rest) :
    IsBoundary sql (sql.utf8ByteSize - byteSize rest) := by
  have hsql : sql.toList = lead.toList ++ chars front ++ chars rest := by
    rw [toList_of_stream hstream, hsplit, Lexer.chars_append, List.append_assoc]
  rw [offset_eq hstream hsplit]
  exact Text.isBoundary_front hsql

theorem StopsAt.isBoundary {stop : Nat} {rest : List Token} (h : StopsAt lead tokens stop rest) :
    IsBoundary sql stop := by
  obtain ⟨front, t, gap, back, o, hsplit, hgap, -, rfl⟩ := h
  have hsql : sql.toList = lead.toList ++ (chars front ++ (t.lexeme.toList ++ gap))
      ++ (back ++ chars rest) := by
    rw [toList_of_stream hstream, hsplit, Lexer.chars_append, Lexer.chars_cons, hgap]
    simp only [List.append_assoc]
  exact Text.isBoundary_front hsql

variable {α : Type} {before ts front : List Token} {u : Token} {x : Taken α}

/-- The text that was taken is the slice at its span. -/
theorem slice_span (htokens : tokens = before ++ ts) (hts : ts = front ++ u :: x.rest) :
    slice sql (spanOf sql.utf8ByteSize ts x).start (spanOf sql.utf8ByteSize ts x).stop
      = x.text ts := by
  have hspelled := spelled_of_stream hstream
  rw [htokens, hts, ← List.append_assoc] at hspelled
  have htext := text_of_taken (lexeme_of_spelled hspelled) hts
  obtain ⟨behind, hbehind⟩ : ∃ behind, u.gap.toList
      = dropTrailing isBlank (if x.open? then u.gap.toList else []) ++ behind := by
    cases x.open? with
    | true =>
        obtain ⟨blanks, hblanks, -, -⟩ := Text.dropTrailing_split isBlank u.gap.toList
        exact ⟨blanks, hblanks⟩
    | false => exact ⟨u.gap.toList, rfl⟩
  have hsql : sql = String.ofList ((lead.toList ++ chars before)
      ++ ((x.text ts).toList ++ (behind ++ chars x.rest))) := by
    rw [← String.ofList_toList (s := sql), toList_of_stream hstream, htokens, Lexer.chars_append,
      htext, String.toList_ofList, hts, Lexer.chars_append, Lexer.chars_cons]
    conv_lhs => rw [hbehind]
    simp only [List.append_assoc]
  have hslice := Text.slice_middle (lead.toList ++ chars before) (x.text ts).toList
    (behind ++ chars x.rest)
  rw [← hsql, String.ofList_toList, ← Text.utf8ByteSize_eq_bytes, ← offset_eq hstream htokens]
    at hslice
  exact hslice

/-- It stands alone between the first token and those that are left. -/
theorem spansFrom_single (htokens : tokens = before ++ ts) (hts : ts = front ++ u :: x.rest) :
    SpansFrom sql (sql.utf8ByteSize - byteSize ts) [spanOf sql.utf8ByteSize ts x]
      (sql.utf8ByteSize - byteSize x.rest) := by
  obtain ⟨hstops, hle⟩ := stopsAt_span hstream htokens hts
  refine .cons (Nat.le_refl _) ?_ ⟨isBoundary_offset hstream htokens, hstops.isBoundary hstream,
    hle⟩ (.nil (hstops.le hstream))
  have hspelled := spelled_of_stream hstream
  rw [htokens, hts, ← List.append_assoc] at hspelled
  have hlexeme := lexeme_of_spelled hspelled
  show _ < _ + (x.text ts).utf8ByteSize
  rw [text_of_taken hlexeme hts, Text.utf8ByteSize_ofList]
  refine Nat.lt_add_of_pos_right (Text.bytes_pos ?_)
  exact List.append_ne_nil_of_right_ne_nil _ (List.append_ne_nil_of_left_ne_nil hlexeme.ne_nil _)

/-! ## The parts of a statement -/

/-- Joins stand in order. -/
theorem joins_spansFrom {e : Parser Expr} (he : Takes e) {before ts : List Token}
    (htokens : tokens = before ++ ts) :
    SpansFrom sql (sql.utf8ByteSize - byteSize ts)
      ((many (join e sql.utf8ByteSize) ts).value.map (·.span))
      (sql.utf8ByteSize - byteSize (many (join e sql.utf8ByteSize) ts).rest) := by
  have hstep : ∀ (vs : List Join) (ts' : List Token) (t : Taken Join),
      ((∃ before, tokens = before ++ ts') ∧ SpansFrom sql (sql.utf8ByteSize - byteSize ts)
        (vs.map (·.span)) (sql.utf8ByteSize - byteSize ts')) →
      join e sql.utf8ByteSize ts' = some t →
      (∃ before, tokens = before ++ t.rest) ∧ SpansFrom sql (sql.utf8ByteSize - byteSize ts)
        ((vs ++ [t.value]).map (·.span)) (sql.utf8ByteSize - byteSize t.rest) := by
    rintro vs ts' t ⟨⟨before, htokens⟩, hspans⟩ hread
    obtain ⟨α, x, front, u, hrest, hused, hspan⟩ := join_read he hread
    have hjoin := spansFrom_single hstream htokens hused
    rw [← hspan, hrest] at hjoin
    refine ⟨⟨before ++ (front ++ [u]), ?_⟩, ?_⟩
    · rw [htokens, hused, hrest]
      simp only [List.append_assoc, List.singleton_append]
    · rw [List.map_append]
      exact hspans.append hjoin
  exact (manyUpTo_invariant (fun (vs : List Join) ts' => (∃ before, tokens = before ++ ts')
    ∧ SpansFrom sql (sql.utf8ByteSize - byteSize ts) (vs.map (·.span))
      (sql.utf8ByteSize - byteSize ts')) hstep ts.length [] true ts
    ⟨⟨before, htokens⟩, .nil (Nat.le_refl _)⟩).2

/-- Clauses stand in order. -/
theorem clauses_spansFrom {e : Parser Expr} (he : Takes e) (ks : List ClauseKind)
    {before ts : List Token} (htokens : tokens = before ++ ts) :
    SpansFrom sql (sql.utf8ByteSize - byteSize ts)
      ((readClauses e sql.utf8ByteSize ks ts).1.filterMap (Option.map (·.span)))
      (sql.utf8ByteSize - byteSize (readClauses e sql.utf8ByteSize ks ts).2) := by
  induction ks generalizing before ts with
  | nil => exact .nil (Nat.le_refl _)
  | cons k ks ih =>
      rw [readClauses, optClause, ExprParser.optional]
      cases hread : clauseOf e sql.utf8ByteSize k ts with
      | none => exact ih htokens
      | some t =>
          obtain ⟨w, words, front, u, b, hb, hts, hspan, -⟩ := clauseOf_read he hread
          rw [← List.append_assoc] at hts
          have hclause := spansFrom_single hstream htokens hts
          rw [← hspan, hb] at hclause
          have hbehind : tokens = before ++ (w :: words ++ front ++ [u]) ++ t.rest := by
            rw [htokens, hts, hb]
            simp only [List.append_assoc, List.singleton_append]
          exact hclause.append (ih hbehind)

end Stream

/-- Where the joins and the clauses of a statement stand. -/
def Select.spansBehindFrom (s : Select) : List Span :=
  s.joins.map (·.span) ++ ClauseKind.all.filterMap fun k => (s.located k).map (·.span)

/-- Where the SELECT list, FROM, the joins and the clauses of a statement stand. -/
def Select.clauseSpans (s : Select) : List Span := s.itemsSpan :: s.fromSpan :: s.spansBehindFrom

/-- The parts of a statement stand in order. -/
theorem clauseSpans_from {sql lead : String} {depth : Nat} {tokens list sources rest : List Token}
    {s : Select} {items : Taken (List SelectItem)} {tables : Taken (List TableRef)}
    (hstream : TokenStream.ofString? sql = some ⟨lead, tokens⟩)
    (h : Parts (expr depth) sql.utf8ByteSize tokens s list items sources tables rest)
    (hdepth : tokens.length < depth) : SpansFrom sql 0 s.clauseSpans sql.utf8ByteSize := by
  obtain ⟨words, front, t, htokens, hlist, -⟩ := h.pieces hdepth
  -- the SELECT list
  have hitems := spansFrom_single hstream (hlist ▸ htokens) hlist
  rw [← h.items_span] at hitems
  -- FROM
  obtain ⟨f, front', u, hfrom⟩ := h.sources_read
  have hinFront : tokens = words ++ (front ++ [t]) ++ items.rest := by
    rw [htokens]
    simp
  have hsources := spansFrom_single hstream hinFront hfrom
  rw [← h.from_span] at hsources
  -- the joins and the clauses
  have hbehind : tokens = words ++ (front ++ [t]) ++ (f :: front' ++ [u]) ++ tables.rest := by
    rw [hinFront, hfrom]
    simp
  have hjoins := joins_spansFrom hstream (expr_takes depth) hbehind
  obtain ⟨joined, hjoined, -⟩ := joins_extends (expr_takes depth) sql.utf8ByteSize tables.rest
  rw [hjoined, ← List.append_assoc] at hbehind
  have hclauses := clauses_spansFrom hstream (expr_takes depth) ClauseKind.all hbehind
  rw [h.clauses, List.filterMap_map] at hclauses
  rw [← h.joins_value] at hjoins
  have hall := ((hitems.append hsources).append hjoins).append hclauses
  rw [List.append_assoc] at hall
  exact (hall.mono (Nat.zero_le _)).upTo (Nat.sub_le _ _)

/-! ## The texts of clauses -/

/-- The text is the end of the slice at a span, from behind its first words on. -/
def TextBehind (sql : String) (span : Span) (text : String) : Prop :=
  ∃ start, span.start < start ∧ start < span.stop ∧ InRange sql start span.stop
    ∧ slice sql start span.stop = text
    ∧ text.toList <:+ (slice sql span.start span.stop).toList

/-- Behind further tokens in front a text is what it was, behind the text of these. -/
theorem text_behind {α : Type} (words : List Token) {body front : List Token} {u : Token}
    {x : Taken α} (hlexeme : Lexeme u.kind u.lexeme.toList) (hbody : body = front ++ u :: x.rest) :
    (x.text (words ++ body)).toList = chars words ++ (x.text body).toList := by
  have hwhole : words ++ body = (words ++ front) ++ u :: x.rest := by
    rw [hbody, List.append_assoc]
  rw [text_of_taken hlexeme hbody, text_of_taken hlexeme hwhole, String.toList_ofList,
    String.toList_ofList, Lexer.chars_append, List.append_assoc]

section Texts

variable {sql lead : String} {tokens : List Token}
  (hstream : TokenStream.ofString? sql = some ⟨lead, tokens⟩)
include hstream

theorem clauseOf_textBehind {e : Parser Expr} (he : Takes e) {k : ClauseKind}
    {before ts : List Token} {t : Taken (Located ClauseTree)} (htokens : tokens = before ++ ts)
    (h : clauseOf e sql.utf8ByteSize k ts = some t) :
    TextBehind sql t.value.span t.value.text := by
  obtain ⟨w, words, front, u, b, -, rfl, hspan, htext⟩ := clauseOf_read he h
  rw [hspan, htext]
  generalize hbody : front ++ u :: b.rest = body at htokens ⊢
  have hspelled := spelled_of_stream hstream
  rw [htokens, ← hbody, ← List.append_assoc, ← List.append_assoc] at hspelled
  have hlexeme := lexeme_of_spelled hspelled
  have hbehind := text_behind (w :: words) hlexeme hbody.symm
  have hwords : chars (w :: words) ≠ [] := by
    have hfirst := spelled_of_stream hstream
    rw [htokens] at hfirst
    rw [Lexer.chars_cons]
    exact List.append_ne_nil_of_left_ne_nil (lexeme_of_spelled hfirst).ne_nil _
  have htokens' : tokens = before ++ (w :: words) ++ body := by
    rw [htokens, List.append_assoc]
  -- the span of the body ends with that of the clause
  have hstart : (spanOf sql.utf8ByteSize body b).start
      = (spanOf sql.utf8ByteSize (w :: words ++ body) b).start + bytes (chars (w :: words)) := by
    show sql.utf8ByteSize - byteSize body = sql.utf8ByteSize - byteSize (w :: words ++ body) + _
    rw [offset_eq hstream htokens, offset_eq hstream htokens', Lexer.chars_append]
    simp only [Text.bytes_append, Nat.add_assoc]
  have hstop : (spanOf sql.utf8ByteSize (w :: words ++ body) b).stop
      = (spanOf sql.utf8ByteSize body b).stop := by
    show (spanOf sql.utf8ByteSize (w :: words ++ body) b).start
        + (b.text (w :: words ++ body)).utf8ByteSize
      = (spanOf sql.utf8ByteSize body b).start + (b.text body).utf8ByteSize
    rw [hstart, Text.utf8ByteSize_eq_bytes (b.text body),
      Text.utf8ByteSize_eq_bytes (b.text (w :: words ++ body)), hbehind, Text.bytes_append,
      Nat.add_assoc]
  obtain ⟨-, hlt, hrange⟩ :=
    (spansFrom_single hstream htokens' hbody.symm).forall_mem _ List.mem_cons_self
  rw [← hstop] at hlt hrange
  refine ⟨(spanOf sql.utf8ByteSize body b).start, ?_, hlt, hrange, ?_, ?_⟩
  · rw [hstart]
    exact Nat.lt_add_of_pos_right (Text.bytes_pos hwords)
  · rw [hstop]
    exact slice_span hstream htokens' hbody.symm
  · have hts : w :: words ++ body = (w :: words ++ front) ++ u :: b.rest := by
      rw [← hbody, List.append_assoc]
    rw [slice_span hstream htokens hts, hbehind]
    exact List.suffix_append _ _

/-- Every clause that is read has its text behind its keywords. -/
theorem clauses_textBehind {e : Parser Expr} (he : Takes e) (ks : List ClauseKind)
    {before ts : List Token} (htokens : tokens = before ++ ts) :
    ∀ l, some l ∈ (readClauses e sql.utf8ByteSize ks ts).1 → TextBehind sql l.span l.text := by
  induction ks generalizing before ts with
  | nil => exact nofun
  | cons k ks ih =>
      rw [readClauses, optClause, ExprParser.optional]
      cases hread : clauseOf e sql.utf8ByteSize k ts with
      | none =>
          intro l hl
          exact ih htokens l ((List.mem_cons.mp hl).resolve_left (by simp))
      | some t =>
          intro l hl
          obtain ⟨used, hused, -⟩ := clauseOf_takes he _ _ _ t hread
          rcases List.mem_cons.mp hl with heq | hl
          · obtain rfl := Option.some.inj heq
            exact clauseOf_textBehind hstream he htokens hread
          · exact ih (htokens.trans (by rw [hused, ← List.append_assoc])) l hl

end Texts

/-! ## Cuts -/

theorem span_mem {s : Select} {k : ClauseKind} {l : Located ClauseTree} (hl : s.located k = some l) :
    l.span ∈ s.spansBehindFrom :=
  List.mem_append_right _ (List.mem_filterMap.mpr ⟨k, k.mem_all, congrArg (Option.map _) hl⟩)

/-- Where a clause begins, its span does. -/
theorem start_mem {s : Select} {k : ClauseKind} {n : Nat} (hn : s.startOf? k = some n) :
    ∃ p ∈ s.spansBehindFrom, p.start = n := by
  rw [s.startOf_eq] at hn
  obtain ⟨l, hl, rfl⟩ := Option.map_eq_some_iff.mp hn
  exact ⟨l.span, span_mem hl, rfl⟩

/-- FROM, the joins and WHERE end with the last of them. -/
theorem relationEnd_mem (s : Select) : s.fromSpan.stop ≤ s.relationEnd
    ∧ ∃ p ∈ s.fromSpan :: s.spansBehindFrom, p.stop = s.relationEnd := by
  have hmax : (s.fromSpan.stop :: (s.joins.map (·.span.stop)
      ++ (s.filter.map (·.span.stop)).toList)).max? = some s.relationEnd := List.max?_cons'
  obtain ⟨hmem, hle⟩ := List.max?_eq_some_iff.mp hmax
  refine ⟨hle _ List.mem_cons_self, ?_⟩
  rcases List.mem_cons.mp hmem with heq | hmem
  · exact ⟨s.fromSpan, List.mem_cons_self, heq.symm⟩
  rcases List.mem_append.mp hmem with hjoin | hfilter
  · obtain ⟨j, hj, heq⟩ := List.mem_map.mp hjoin
    exact ⟨j.span, List.mem_cons_of_mem _ (List.mem_append_left _ (List.mem_map_of_mem hj)), heq⟩
  · obtain ⟨l, hl, heq⟩ := Option.map_eq_some_iff.mp (Option.mem_toList.mp hfilter)
    have hlocated : s.located .filter = some (l.map .condition) := congrArg (Option.map _) hl
    exact ⟨l.span, List.mem_cons_of_mem _ (span_mem hlocated), heq⟩

section Cuts

variable {sql : String} {s : Select} (h : parse sql = .ok s)
include h

/-- The parts of an accepted statement stand in order, and its clauses have their texts
    behind their keywords. -/
theorem spans_of_parse : SpansFrom sql 0 s.clauseSpans sql.utf8ByteSize
    ∧ ∀ k l, s.located k = some l → TextBehind sql l.span l.text := by
  obtain ⟨lead, tokens, list, items, sources, tables, rest, hstream, hparts, -, -⟩ :=
    parts_of_parse h
  refine ⟨clauseSpans_from hstream hparts (Nat.lt_succ_self _), fun k l hl => ?_⟩
  obtain ⟨before, hbefore⟩ :=
    (hparts.clauses_suffix (Nat.lt_succ_self _)).trans hparts.list_suffix
  refine clauses_textBehind hstream (expr_takes (tokens.length + 1)) ClauseKind.all hbefore.symm l ?_
  rw [hparts.clauses]
  exact List.mem_map.mpr ⟨k, k.mem_all, hl⟩

/-- A statement is cut before a clause at its start, or at the end of the text. -/
theorem cutBefore_inRange (k : ClauseKind) :
    InRange sql 0 ((Descriptor.extract sql).cutBefore k) := by
  have hcut : (Descriptor.extract sql).cutBefore k
      = (k.andLater.filterMap s.startOf?).min?.getD sql.utf8ByteSize := by
    rw [Descriptor.cutBefore, Descriptor.select?_extract h]
    rfl
  rw [hcut]
  refine ⟨Text.isBoundary_zero sql, ?_, Nat.zero_le _⟩
  cases hmin : (k.andLater.filterMap s.startOf?).min? with
  | none => exact Text.isBoundary_size sql
  | some n =>
      obtain ⟨j, -, hj⟩ := List.mem_filterMap.mp (List.min?_mem hmin)
      obtain ⟨p, hp, rfl⟩ := start_mem hj
      have hspan := (spans_of_parse h).1.forall_mem p (List.mem_cons_of_mem _ (List.mem_cons_of_mem _ hp))
      exact hspan.2.2.start

/-- From FROM up to its end the relation is a slice of the text. -/
theorem relation_inRange : InRange sql s.fromSpan.start s.relationEnd := by
  have hspans := (spans_of_parse h).1
  obtain ⟨-, -, hfrom⟩ :=
    hspans.forall_mem s.fromSpan (List.mem_cons_of_mem _ List.mem_cons_self)
  obtain ⟨hle, p, hp, hend⟩ := relationEnd_mem s
  obtain ⟨-, -, hlast⟩ := hspans.forall_mem p (List.mem_cons_of_mem _ hp)
  exact ⟨hfrom.start, hend ▸ hlast.stop, Nat.le_trans hfrom.le hle⟩

/-- FROM and the joins end at WHERE, or with one of them. -/
theorem source_inRange :
    InRange sql s.fromSpan.start ((s.startOf? .filter).getD s.relationEnd) := by
  have hspans := (spans_of_parse h).1
  obtain ⟨-, -, hfrom⟩ :=
    hspans.forall_mem s.fromSpan (List.mem_cons_of_mem _ List.mem_cons_self)
  cases hstart : s.startOf? .filter with
  | none => exact relation_inRange h
  | some n =>
      obtain ⟨p, hp, rfl⟩ := start_mem hstart
      have hbehind := (List.pairwise_cons.mp (List.pairwise_cons.mp hspans.pairwise).2).1 p hp
      have hspan := hspans.forall_mem p (List.mem_cons_of_mem _ (List.mem_cons_of_mem _ hp))
      exact ⟨hfrom.start, hspan.2.2.start, Nat.le_trans hfrom.le hbehind⟩

/-- A statement cut before a clause still has its SELECT list. -/
theorem behindList_inRange (k : ClauseKind) :
    InRange sql s.itemsSpan.stop ((Descriptor.extract sql).truncateBefore k).utf8ByteSize := by
  obtain ⟨-, -, hitems⟩ := (spans_of_parse h).1.forall_mem s.itemsSpan List.mem_cons_self
  refine ⟨hitems.stop, ?_, ?_⟩
  · obtain ⟨behind, hbehind⟩ := truncateBefore_front (Descriptor.extract sql) k
    rw [Text.utf8ByteSize_eq_bytes]
    exact Text.isBoundary_front hbehind
  · obtain ⟨l⟩ := layout_of_parse h k
    rw [l.stop_eq', l.truncateBefore_eq, Text.utf8ByteSize_ofList, Text.bytes_append]
    exact Nat.le_add_right _ _

end Cuts

/-- The parts of an accepted statement stand in order: the SELECT list, FROM, each join and
    each clause that is there are slices of the text between characters with something in
    them, none begins before the one in front of it ends, and the text of a clause is the
    end of its slice.  So every text that is cut out of the statement is a slice of it: the
    text before a clause, the parts of it in front of and behind the end of the SELECT list,
    and FROM with the joins, with WHERE or without.  Further items can always be added to
    the SELECT list. -/
theorem spans_safe {sql : String} {s : Select} (h : parse sql = .ok s) :
    (∀ p ∈ s.clauseSpans, p.start < p.stop ∧ InRange sql p.start p.stop)
      ∧ (s.clauseSpans.Pairwise fun p q => p.stop ≤ q.start)
      ∧ (∀ k l, s.located k = some l → TextBehind sql l.span l.text)
      ∧ (∀ k, InRange sql 0 ((Descriptor.extract sql).cutBefore k))
      ∧ (∀ k, InRange sql 0 s.itemsSpan.stop
        ∧ InRange sql s.itemsSpan.stop ((Descriptor.extract sql).truncateBefore k).utf8ByteSize)
      ∧ InRange sql s.fromSpan.start s.relationEnd
      ∧ InRange sql s.fromSpan.start ((s.startOf? .filter).getD s.relationEnd)
      ∧ ∀ extra k, ((Descriptor.extract sql).withSelectAppended? extra k).isSome = true := by
  obtain ⟨hspans, htexts⟩ := spans_of_parse h
  refine ⟨fun p hp => (hspans.forall_mem p hp).2, hspans.pairwise, htexts, cutBefore_inRange h,
    fun k => ⟨?_, behindList_inRange h k⟩, relation_inRange h, source_inRange h,
    fun extra k => ?_⟩
  · have hrange := behindList_inRange h k
    exact ⟨Text.isBoundary_zero sql, hrange.start, Nat.zero_le _⟩
  · obtain ⟨l⟩ := layout_of_parse h k
    rw [l.withSelectAppended_eq h extra]
    rfl

/-- A text with characters of two bytes, and comments that count among what they stand
    behind. -/
theorem spans_safe_accents : ∃ sql s l,
    sql = "SELECT 'é' FROM t /* ß */ WHERE a = 'é' ORDER BY a /* ß */ LIMIT 5"
      ∧ parse sql = .ok s
      ∧ s.clauseSpans = [⟨7, 11⟩, ⟨12, 27⟩, ⟨28, 42⟩, ⟨43, 62⟩, ⟨63, 70⟩]
      ∧ (∀ p ∈ s.clauseSpans, p.start < p.stop ∧ InRange sql p.start p.stop)
      ∧ s.located .orderBy = some l ∧ l.text = "a /* ß */" ∧ TextBehind sql l.span l.text
      ∧ InRange sql s.fromSpan.start s.relationEnd := by
  obtain ⟨sql, hsql⟩ : ∃ sql,
      sql = "SELECT 'é' FROM t /* ß */ WHERE a = 'é' ORDER BY a /* ß */ LIMIT 5" := ⟨_, rfl⟩
  have hread : (parse sql).toOption.map
      (fun s => (s.clauseSpans, (s.located .orderBy).map (·.text)))
      = some ([⟨7, 11⟩, ⟨12, 27⟩, ⟨28, 42⟩, ⟨43, 62⟩, ⟨63, 70⟩], some "a /* ß */") := by
    rw [hsql]
    decide +kernel
  obtain ⟨s, hs⟩ := accepted_of_isOk (show (parse sql).isOk = true by rw [hsql]; decide +kernel)
  rw [hs] at hread
  obtain ⟨hspans, hlocated⟩ := Prod.mk.inj (Option.some.inj hread)
  obtain ⟨l, hl, htext⟩ := Option.map_eq_some_iff.mp hlocated
  obtain ⟨hrange, -, htexts, -, -, hrelation, -⟩ := spans_safe hs
  exact ⟨sql, s, l, hsql, hs, hspans, hrange, hl, htext, htexts .orderBy l hl, hrelation⟩

end Sql

end QueryReplay
