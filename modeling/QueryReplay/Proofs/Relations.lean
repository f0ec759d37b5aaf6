import QueryReplay.Proofs.Cutting

/-! # Relations — FROM, the joins and WHERE behind other SELECT lists

    The text from FROM through WHERE is cut out of a statement at offsets that
    fall into gaps (`StopsAt`), and it is read the same behind any SELECT list
    that ends in a blank (`parse_behind`).  With that both ways of cutting a
    statement are faithful (`cuts_faithful`). -/

namespace QueryReplay.Sql

open QueryReplay.Sql.Parser QueryReplay.Sql.StatementParser
open QueryReplay.Sql.ExprParser (expr)
open QueryReplay.Text (bytes slice trimEnd dropTrailing isBlank)
open Lexer (chars Spelled Gap Lexeme)

/-! ## Where parts of a statement end -/

/-- A join stands where its tokens do, through its condition or its table. -/
theorem join_read {e : Parser Expr} (he : Takes e) {size : Nat} {ts : List Token} {t : Taken Join}
    (h : join e size ts = some t) : ∃ (α : Type) (x : Taken α) (front : List Token) (u : Token),
      x.rest = t.rest ∧ ts = front ++ u :: x.rest ∧ t.value.span = spanOf size ts x := by
  obtain ⟨used, hused, hphrase⟩ := join_takes he _ ts t h
  obtain ⟨front, u, rfl, -⟩ := hphrase.ends
  rw [List.append_assoc, List.singleton_append] at hused
  rw [join_eq] at h
  obtain ⟨⟨kind, rest⟩, -, h⟩ := Option.bind_eq_some_iff.mp h
  obtain ⟨right, -, rfl⟩ := Option.map_eq_some_iff.mp h
  cases hon : onCondition e right.rest with
  | none =>
      rw [hon] at hused
      exact ⟨Unit, ⟨(), right.rest, true⟩, front, u, rfl, hused, rfl⟩
  | some c =>
      rw [hon] at hused
      exact ⟨Expr, c.1, front, u, rfl, hused, rfl⟩

/-- A clause is read as its keywords, of which there is one at least, and its body. -/
theorem clauseOf_read {e : Parser Expr} (he : Takes e) {size : Nat} {k : ClauseKind}
    {ts : List Token} {t : Taken (Located ClauseTree)} (h : clauseOf e size k ts = some t) :
    ∃ (w : Token) (words front : List Token) (u : Token) (b : Taken ClauseTree), b.rest = t.rest
      ∧ ts = w :: words ++ (front ++ u :: b.rest) ∧ t.value.span = spanOf size ts b
      ∧ t.value.text = b.text (front ++ u :: b.rest) := by
  obtain ⟨rest, hwords, hread⟩ := Option.bind_eq_some_iff.mp h
  obtain ⟨b, hb, hread⟩ := Option.bind_eq_some_iff.mp hread
  obtain rfl := Option.some.inj hread
  obtain ⟨more, hkeywords⟩ : ∃ more, k.keywords = k.opener :: more := by
    cases k <;> exact ⟨_, rfl⟩
  rw [hkeywords, List.foldlM_cons] at hwords
  obtain ⟨behind, hopener, hmore⟩ := Option.bind_eq_some_iff.mp hwords
  obtain ⟨w, rfl, -⟩ := keyword_some hopener
  obtain ⟨words, rfl, -⟩ := keywords_run hmore
  obtain ⟨used, rfl, hphrase⟩ := clauseBody_takes he k rest b hb
  obtain ⟨front, u, rfl, -⟩ := hphrase.ends
  rw [List.append_assoc, List.singleton_append]
  exact ⟨w, words, front, u, b, rfl, rfl, rfl, rfl⟩

/-- FROM and its tables. -/
theorem Parts.sources_read {e : Parser Expr} {size : Nat} {ts list sources rest : List Token}
    {s : Select} {items : Taken (List SelectItem)} {tables : Taken (List TableRef)}
    (h : Parts e size ts s list items sources tables rest) :
    ∃ f front u, items.rest = f :: front ++ u :: tables.rest := by
  obtain ⟨f, hf, -⟩ := keyword_some h.sources_eq
  obtain ⟨names, hnames, hphrase⟩ := table_takes.commaList sources tables h.tables_eq
  obtain ⟨front, u, rfl, -⟩ := hphrase.ends
  refine ⟨f, front, u, ?_⟩
  rw [hf, hnames, List.append_assoc, List.singleton_append, List.cons_append]

/-- The offset is somewhere in the gap in front of `rest`. -/
def StopsAt (lead : String) (tokens : List Token) (stop : Nat) (rest : List Token) : Prop :=
  ∃ front t gap back o, tokens = front ++ t :: rest ∧ t.gap.toList = gap ++ back ∧ Gap o gap
    ∧ stop = bytes (lead.toList ++ (chars front ++ (t.lexeme.toList ++ gap)))

section Stops

variable {sql lead : String} {tokens : List Token}
  (hstream : TokenStream.ofString? sql = some ⟨lead, tokens⟩)
include hstream

theorem StopsAt.le {stop : Nat} {rest : List Token} (h : StopsAt lead tokens stop rest) :
    stop ≤ sql.utf8ByteSize - byteSize rest := by
  obtain ⟨front, t, gap, back, o, hsplit, hgap, -, rfl⟩ := h
  rw [offset_eq hstream (hsplit.trans (List.append_cons front t rest)), Lexer.chars_append,
    Lexer.chars_cons, Lexer.chars_nil, hgap]
  simp only [Text.bytes_append]
  omega

/-- What was taken off tokens ends in the gap in front of those that are left. -/
theorem stopsAt_span {α : Type} {before ts front : List Token} {u : Token} {x : Taken α}
    (htokens : tokens = before ++ ts) (hts : ts = front ++ u :: x.rest) :
    StopsAt lead tokens (spanOf sql.utf8ByteSize ts x).stop x.rest
      ∧ sql.utf8ByteSize - byteSize ts ≤ (spanOf sql.utf8ByteSize ts x).stop := by
  obtain ⟨w, o, gap, back, hgap, -, hhalves, hstop⟩ := span_halves hstream htokens hts
  refine ⟨⟨before ++ front, u, gap, back, o, ?_, hgap, hhalves.front_gap, hstop⟩,
    Nat.le_add_right _ _⟩
  rw [htokens, hts, List.append_assoc]

/-- A later stop is the greater one. -/
theorem StopsAt.max {stop stop' : Nat} {rest rest' : List Token} (h : StopsAt lead tokens stop rest)
    (h' : StopsAt lead tokens stop' rest')
    (hle : sql.utf8ByteSize - byteSize rest ≤ stop') :
    StopsAt lead tokens (max stop stop') rest' := by
  rw [Nat.max_eq_right (Nat.le_trans (h.le hstream) hle)]
  exact h'

/-- Joins end behind one another. -/
theorem joins_stop {e : Parser Expr} (he : Takes e) {stop : Nat} {before ts : List Token}
    (htokens : tokens = before ++ ts) (h : StopsAt lead tokens stop ts) :
    StopsAt lead tokens
      (((many (join e sql.utf8ByteSize) ts).value.map (·.span.stop)).foldl max stop)
      (many (join e sql.utf8ByteSize) ts).rest := by
  have hstep : ∀ (vs : List Join) (ts : List Token) (t : Taken Join),
      ((∃ before, tokens = before ++ ts)
        ∧ StopsAt lead tokens ((vs.map (·.span.stop)).foldl max stop) ts) →
      join e sql.utf8ByteSize ts = some t →
      (∃ before, tokens = before ++ t.rest)
        ∧ StopsAt lead tokens (((vs ++ [t.value]).map (·.span.stop)).foldl max stop) t.rest := by
    rintro vs ts t ⟨⟨before, htokens⟩, hstops⟩ hread
    obtain ⟨α, x, front, u, hrest, hused, hspan⟩ := join_read he hread
    obtain ⟨hstop, hle⟩ := stopsAt_span hstream htokens hused
    rw [← hspan, hrest] at hstop
    rw [← hspan] at hle
    refine ⟨⟨before ++ (front ++ [u]), ?_⟩, ?_⟩
    · rw [htokens, hused, hrest]
      simp only [List.append_assoc, List.singleton_append]
    · rw [List.map_append, List.foldl_append]
      exact hstops.max hstream hstop hle
  exact (manyUpTo_invariant (fun (vs : List Join) ts => (∃ before, tokens = before ++ ts)
    ∧ StopsAt lead tokens ((vs.map (·.span.stop)).foldl max stop) ts) hstep ts.length [] true ts
    ⟨⟨before, htokens⟩, h⟩).2

/-- FROM, the joins and WHERE end in the gap in front of the next clause. -/
theorem relation_stops {e : Parser Expr} (he : Takes e) {s : Select} {before list sources
    rest : List Token} {items : Taken (List SelectItem)} {tables : Taken (List TableRef)}
    (h : Parts e sql.utf8ByteSize tokens s list items sources tables rest)
    (htokens : tokens = before ++ items.rest) :
    StopsAt lead tokens s.relationEnd (restBefore e sql.utf8ByteSize tables .groupBy) := by
  -- the FROM list
  obtain ⟨f, front, u, hfrom⟩ := h.sources_read
  obtain ⟨hstop, -⟩ := stopsAt_span hstream htokens hfrom
  rw [← h.from_span] at hstop
  -- the joins
  have htables : tokens = before ++ (f :: front ++ [u]) ++ tables.rest := by
    rw [htokens, hfrom]
    simp
  have hjoins := joins_stop hstream he htables hstop
  rw [← h.joins_value] at hjoins
  -- WHERE
  obtain ⟨joined, hjoined, -⟩ := joins_extends he sql.utf8ByteSize tables.rest
  have hbehind : tokens = before ++ (f :: front ++ [u]) ++ joined
      ++ (many (join e sql.utf8ByteSize) tables.rest).rest := by
    rw [List.append_assoc, ← hjoined, htokens, hfrom]
    simp
  have hclause := (h.split .groupBy).1
  have hwhere : optClause (clauseOf e sql.utf8ByteSize .filter)
      (many (join e sql.utf8ByteSize) tables.rest).rest
      = (s.located .filter, restBefore e sql.utf8ByteSize tables .groupBy) := by
    obtain ⟨hvalue, hrest⟩ := Prod.mk.inj hclause
    exact Prod.ext (List.cons.inj hvalue).1 hrest
  have hends : s.relationEnd = ((s.located .filter).map (·.span.stop)).toList.foldl max
      ((s.joins.map (·.span.stop)).foldl max s.fromSpan.stop) := by
    rw [Select.relationEnd, List.foldl_append]
    show _ = List.foldl max _ (Option.map _ (s.filter.map _)).toList
    rw [Option.map_map]
    rfl
  rw [hends]
  unfold optClause ExprParser.optional at hwhere
  cases hread : clauseOf e sql.utf8ByteSize .filter
      (many (join e sql.utf8ByteSize) tables.rest).rest with
  | none =>
      rw [hread] at hwhere
      obtain ⟨hnone, hrest⟩ := Prod.mk.inj hwhere
      rw [← hnone, ← hrest]
      exact hjoins
  | some t =>
      rw [hread] at hwhere
      obtain ⟨hsome, hrest⟩ := Prod.mk.inj hwhere
      rw [← hsome, ← hrest]
      obtain ⟨w, words, front', v, b, hb, hused, hspan, -⟩ := clauseOf_read he hread
      rw [← List.append_assoc] at hused
      obtain ⟨hstop', hle⟩ := stopsAt_span hstream hbehind hused
      rw [← hspan, hb] at hstop'
      rw [← hspan] at hle
      exact hjoins.max hstream hstop' hle

end Stops

/-- The first character of a keyword is no blank. -/
theorem trimStart_keyword {t : Token} {k : Keyword} (h : Lexeme t.kind t.lexeme.toList)
    (hk : t.kind = .keyword k) (behind : List Char) :
    Text.trimStart (String.ofList (t.lexeme.toList ++ behind))
      = String.ofList (t.lexeme.toList ++ behind) := by
  obtain ⟨c, rest, hlexeme, hstart, -⟩ := h.keyword hk
  rw [Text.trimStart, String.toList_ofList, hlexeme, List.cons_append,
    List.dropWhile_cons_of_neg
      (by rw [Lexer.isBlank_of_isWordChar (Lexer.isWordChar_of_isWordStart hstart)]
          exact Bool.false_ne_true)]

/-- FROM, the joins and WHERE as written are the tokens there, with a part of
    the gap behind them. -/
theorem relationText_eq {sql lead : String} {tokens before bodyFront list sources rest : List Token}
    {b : Token} {s : Select} {e : Parser Expr} {items : Taken (List SelectItem)}
    {tables : Taken (List TableRef)} (hparse : parse sql = .ok s)
    (hstream : TokenStream.ofString? sql = some ⟨lead, tokens⟩) (he : Takes e)
    (h : Parts e sql.utf8ByteSize tokens s list items sources tables rest)
    (htokens : tokens = before ++ items.rest)
    (hbody : items.rest = bodyFront ++ b :: restBefore e sql.utf8ByteSize tables .groupBy) :
    ∃ gap back o, b.gap.toList = gap ++ back ∧ Gap o gap
      ∧ (Descriptor.extract sql).relationText?
        = some (String.ofList (chars (bodyFront ++ [{ b with gap := String.ofList gap }]))) := by
  obtain ⟨front, t, gap, back, o, hsplit, hback, hgap, hstop⟩ := relation_stops hstream he h htokens
  have hfront : front ++ [t] = before ++ bodyFront ++ [b] := by
    rw [htokens, hbody] at hsplit
    rw [List.append_cons front, ← List.append_assoc, List.append_cons (before ++ bodyFront)] at hsplit
    exact (List.append_cancel_right hsplit).symm
  obtain ⟨rfl, hlast⟩ := List.append_inj' hfront rfl
  obtain rfl : t = b := (List.cons.inj hlast).1
  have hspelled := spelled_of_stream hstream
  rw [hsplit] at hspelled
  obtain ⟨o', trailing, hgapSplit, hhalves⟩ := hgap.trim
  refine ⟨dropTrailing isBlank gap, trailing ++ back, o', ?_, hhalves.front_gap, ?_⟩
  · rw [hback, ← List.append_assoc, ← hgapSplit]
  · generalize restBefore e sql.utf8ByteSize tables .groupBy = r at hsplit hbody hspelled
    -- the slice between the two offsets
    have hsql : sql = String.ofList ((lead.toList ++ chars before)
        ++ ((chars bodyFront ++ (t.lexeme.toList ++ gap)) ++ (back ++ chars r))) := by
      rw [← String.ofList_toList (s := sql), toList_of_stream hstream, hsplit, Lexer.chars_append,
        Lexer.chars_append, Lexer.chars_cons, hback]
      simp only [List.append_assoc]
    have hslice : slice sql s.fromSpan.start s.relationEnd
        = String.ofList (chars bodyFront ++ (t.lexeme.toList ++ gap)) := by
      have hstart : s.fromSpan.start = bytes (lead.toList ++ chars before) := by
        rw [h.from_span]
        exact offset_eq hstream htokens
      have hstop' : s.relationEnd = bytes (lead.toList ++ chars before)
          + bytes (chars bodyFront ++ (t.lexeme.toList ++ gap)) := by
        rw [hstop, Lexer.chars_append]
        simp only [Text.bytes_append, Nat.add_assoc]
      rw [hstart, hstop', hsql]
      exact Text.slice_middle _ _ _
    have htrimStart : Text.trimStart (String.ofList (chars bodyFront ++ (t.lexeme.toList ++ gap)))
        = String.ofList (chars bodyFront ++ (t.lexeme.toList ++ gap)) := by
      obtain ⟨f, hf, hkind⟩ := keyword_some h.sources_eq
      rw [hbody] at hf
      cases bodyFront with
      | nil =>
          obtain ⟨rfl, -⟩ := List.cons.inj hf
          exact trimStart_keyword (lexeme_of_spelled hspelled) hkind gap
      | cons u more =>
          obtain ⟨rfl, -⟩ := List.cons.inj hf
          rw [Lexer.chars_cons, List.append_assoc]
          rw [List.append_assoc, List.cons_append] at hspelled
          exact trimStart_keyword (lexeme_of_spelled hspelled) hkind _
    rw [Descriptor.relationText?, Descriptor.select?_extract hparse, Option.map_some]
    show some (Text.trim (slice sql s.fromSpan.start s.relationEnd)) = _
    rw [hslice, Text.trim, htrimStart, trimEnd_behind (lexeme_of_spelled hspelled),
      Lexer.chars_append, Lexer.chars_cons, Lexer.chars_nil, String.toList_ofList, List.append_nil]

/-- The text of FROM, the joins and WHERE is cut into tokens that are read as
    those, whatever is in front of them. -/
theorem relationText_tokens {sql : String} {s : Select} (h : parse sql = .ok s) :
    ∃ bodyFront b, (Descriptor.extract sql).relationText?
        = some (String.ofList (chars (bodyFront ++ [b])))
      ∧ ReadsBody s .groupBy bodyFront b ∧ Spelled (bodyFront ++ [b])
      ∧ ∃ c cs, chars (bodyFront ++ [b]) = c :: cs ∧ Lexer.isWordStart c = true := by
  obtain ⟨lead, tokens, list, items, sources, tables, rest, hstream, hparts, hended, -⟩ :=
    parts_of_parse h
  obtain ⟨words, front, t, htokens, -⟩ := hparts.pieces (Nat.lt_succ_self _)
  have hlen : items.rest.length < tokens.length + 1 := by
    rw [htokens]
    simp only [List.length_append, List.length_cons]
    omega
  obtain ⟨bodyFront, b, hbody, hreads⟩ := hparts.readsBody hended hlen .groupBy
  have hsplit : tokens = words ++ front ++ [t] ++ items.rest := by
    rw [htokens]
    simp only [List.append_assoc, List.singleton_append]
  obtain ⟨gap, back, o, hback, hgap, htext⟩ :=
    relationText_eq h hstream (expr_takes _) hparts hsplit hbody
  have hspelled : Spelled (bodyFront ++ [{ b with gap := String.ofList gap }]) := by
    have hall := spelled_of_stream hstream
    rw [hsplit, hbody] at hall
    exact hall.behind.cut hback hgap
  refine ⟨bodyFront, { b with gap := String.ofList gap }, htext, hreads, hspelled, ?_⟩
  -- the first token is FROM
  obtain ⟨f, hf, hkind⟩ := keyword_some hparts.sources_eq
  rw [hbody] at hf
  have hword : ∀ {u : Token} {us : List Token}, Spelled (u :: us) → u.kind = .keyword .from →
      ∃ c cs, chars (u :: us) = c :: cs ∧ Lexer.isWordStart c = true := by
    intro u us hus hu
    obtain ⟨c, more, hlexeme, hstart, -⟩ := hus.1.keyword hu
    exact ⟨c, _, by rw [Lexer.chars_cons, hlexeme]; rfl, hstart⟩
  cases bodyFront with
  | nil =>
      obtain ⟨rfl, -⟩ := List.cons.inj hf
      exact hword hspelled hkind
  | cons u more =>
      obtain ⟨rfl, -⟩ := List.cons.inj hf
      exact hword hspelled hkind

/-- FROM, the joins and WHERE of a statement are read the same behind any other
    SELECT list. -/
theorem parse_behind {sql before lead : String} {s : Select} {words front : List Token} {t : Token}
    {distinct : Bool} {items : List SelectItem} (h : parse sql = .ok s)
    (hbefore : TokenStream.ofString? before = some ⟨lead, words ++ front ++ [t]⟩)
    (hwords : Heads distinct words)
    (hdistinct : distinct = false → keyword .distinct (front ++ [t]) = none)
    (hitems : Listed front t items) (hgap : t.gap.toList ≠ [])
    (hblank : ∀ c ∈ t.gap.toList, Lexer.isGapBlank c = true) :
    ∃ text s', (Descriptor.extract sql).relationText? = some text
      ∧ parse (before ++ text) = .ok s'
      ∧ s'.tree = { s.tree.upTo .groupBy with distinct, items } := by
  obtain ⟨bodyFront, b, htext, hreads, hspelled, c, cs, hchars, hc⟩ := relationText_tokens h
  obtain ⟨-, -, -, -, -, -, hfits⟩ := parse_iff.mp h
  -- the list and the cut text are spelled side by side, with the gap of the last item between
  -- them
  have hapart : (words ++ front ++ [t]).IsChain Lexer.Apart := by
    rw [List.append_assoc]
    exact hwords.apart hitems.shape.apart
  have hwhole := stream_append hbefore hspelled
    (by rw [hchars]; exact Lexer.startsGap_wordChar (Lexer.isWordChar_of_isWordStart hc) cs)
    hitems.shape.final hapart
    (Lexer.gap_of_blanks hblank)
    (by obtain ⟨d, ds, hd⟩ := List.exists_cons_of_ne_nil hgap
        rw [hd] at hblank ⊢
        exact joins_blank (hblank d List.mem_cons_self) _ _ _)
  obtain ⟨s', hselect, htree⟩ := select_of_pieces hwords hdistinct hitems hreads Ended.nil t.gap
    b.gap (before ++ String.ofList (chars (bodyFront ++ [b]))).utf8ByteSize
    ((words ++ front ++ t :: (bodyFront ++ [b])).length + 1)
    (by simp only [List.length_append, List.length_cons]; omega)
  refine ⟨_, s', htext, parse_iff.mpr ⟨lead, _, [], hwhole, ?_, Ended.nil, ?_⟩, htree⟩
  · rw [List.append_assoc] at hselect ⊢
    exact hselect
  · have hclauses : s'.tree.clause? = (s.tree.upTo .groupBy).clause? := by rw [htree]
    intro k n hk
    rw [hclauses] at hk
    exact hfits.upTo .groupBy k n hk

/-- A star is read as the item it is. -/
theorem readsItem_star {t : Token} (h : t.kind = .symbol .star) : ReadsItem [] t .wildcard := by
  have hread : item (expr 2) ([] ++ t :: []) = some ⟨.wildcard, [], false⟩ := by
    rw [item_eq, Parser.orElse, wildcard, List.nil_append,
      show symbol .star [t] = some [] from if_pos (beq_iff_eq.mpr h)]
    rfl
  exact readsItem_of_item hread Edge.nil (Nat.le_refl 2)

/-- Behind `SELECT *` the text of FROM, the joins and WHERE is a statement that
    selects everything from them and has no other clause. -/
theorem parse_relationText {sql : String} {s : Select} (h : parse sql = .ok s) :
    ∃ text s', (Descriptor.extract sql).relationText? = some text
      ∧ parse ("SELECT * " ++ text) = .ok s'
      ∧ s'.tree = { s.tree.upTo .groupBy with distinct := false, items := [.wildcard] } := by
  have hbefore : TokenStream.ofString? "SELECT * " = some ⟨"",
      [⟨.keyword .select, "SELECT", " "⟩] ++ [] ++ [⟨.symbol .star, "*", " "⟩]⟩ := by decide
  exact parse_behind h hbefore (.all rfl) (fun _ => by decide)
    (.one (readsItem_star rfl) ⟨.singleton _, isFinal_star rfl⟩) (by decide)
    (List.all_eq_true.mp (by decide))

/-- Cutting a statement at its clauses is faithful: in front of any clause, and
    around FROM, the joins and WHERE. -/
theorem cuts_faithful {sql : String} {s : Select} (h : parse sql = .ok s) (k : ClauseKind) :
    (∃ s', parse ((Descriptor.extract sql).truncateBefore k) = .ok s'
        ∧ s'.tree = s.tree.upTo k)
      ∧ ∃ text s', (Descriptor.extract sql).relationText? = some text
        ∧ parse ("SELECT * " ++ text) = .ok s'
        ∧ s'.tree = { s.tree.upTo .groupBy with distinct := false, items := [.wildcard] } :=
  ⟨parse_truncateBefore h k, parse_relationText h⟩

/-- A statement without blanks in front of its clauses, cut before ORDER BY. -/
theorem cuts_faithful_unspaced :
    ∃ s, parse "SELECT n FROM t WHERE n>1ORDER BY n -- up" = .ok s
      ∧ (∃ s', parse ((Descriptor.extract
            "SELECT n FROM t WHERE n>1ORDER BY n -- up").truncateBefore .orderBy) = .ok s'
          ∧ s'.tree = s.tree.upTo .orderBy)
      ∧ ∃ text s', (Descriptor.extract
            "SELECT n FROM t WHERE n>1ORDER BY n -- up").relationText? = some text
          ∧ parse ("SELECT * " ++ text) = .ok s'
          ∧ s'.tree = { s.tree.upTo .groupBy with distinct := false, items := [.wildcard] } := by
  have hok : (parse "SELECT n FROM t WHERE n>1ORDER BY n -- up").isOk = true := by decide +kernel
  obtain ⟨s, hs⟩ := accepted_of_isOk hok
  exact ⟨s, hs, cuts_faithful hs .orderBy⟩

end QueryReplay.Sql
