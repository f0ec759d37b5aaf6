import QueryReplay.Proofs.Pieces
import QueryReplay.Proofs.Seams

/-! # Cutting — statements cut between their clauses

    Where a clause stands is told in bytes, and every offset that occurs is the
    size of the text in front of some token, or falls into the gap behind one
    (`span_halves`).  So a statement cut between clauses is laid out in tokens
    (`Layout`), and it is read as the statement without the clauses behind the
    cut (`parse_truncateBefore`). -/

namespace QueryReplay.Sql

open QueryReplay.Sql.Parser QueryReplay.Sql.StatementParser
open QueryReplay.Sql.ExprParser (expr)
open QueryReplay.Text (bytes slice trimEnd dropTrailing isBlank)
open Lexer (chars Spelled Gap Lexeme)

/-! ## Offsets -/

theorem byteSize_eq (ts : List Token) : byteSize ts = bytes (chars ts) := by
  induction ts with
  | nil => rfl
  | cons t ts ih =>
      have hsum : byteSize (t :: ts) = t.source.utf8ByteSize + byteSize ts := by
        rw [byteSize, List.map_cons, List.sum_cons]
        rfl
      rw [hsum, ih, Token.source, String.utf8ByteSize_append, Text.utf8ByteSize_eq_bytes,
        Text.utf8ByteSize_eq_bytes, Lexer.chars_cons, Text.bytes_append, Text.bytes_append,
        Nat.add_assoc]

theorem byteSize_append (ts us : List Token) : byteSize (ts ++ us) = byteSize ts + byteSize us := by
  rw [byteSize_eq, byteSize_eq, byteSize_eq, Lexer.chars_append, Text.bytes_append]

section Stream

variable {sql lead : String} {tokens : List Token}
  (h : TokenStream.ofString? sql = some ⟨lead, tokens⟩)
include h

/-- The offset of a token is the size of the text in front of it. -/
theorem offset_eq {front rest : List Token} (hsplit : tokens = front ++ rest) :
    sql.utf8ByteSize - byteSize rest = bytes (lead.toList ++ chars front) := by
  rw [Text.utf8ByteSize_eq_bytes, toList_of_stream h, hsplit, byteSize_eq, Lexer.chars_append,
    ← List.append_assoc, Text.bytes_append, Nat.add_sub_cancel]

/-- The text in front of a token. -/
theorem slice_offset {front rest : List Token} (hsplit : tokens = front ++ rest) :
    slice sql 0 (sql.utf8ByteSize - byteSize rest)
      = String.ofList (lead.toList ++ chars front) := by
  have hsql : sql = String.ofList (lead.toList ++ chars front ++ chars rest) := by
    rw [List.append_assoc, ← Lexer.chars_append, ← hsplit, ← toList_of_stream h,
      String.ofList_toList]
  rw [offset_eq h hsplit, hsql, Text.slice_front]

end Stream

/-! ## Clauses by offset -/

theorem clauseOf_start {e : Parser Expr} {size : Nat} {k : ClauseKind} {ts : List Token}
    {t : Taken (Located ClauseTree)} (h : clauseOf e size k ts = some t) :
    t.value.span.start = size - byteSize ts := by
  obtain ⟨-, b, -, hspan⟩ := clauseOf_some h
  rw [hspan]
  rfl

/-- Clauses begin behind where they are read from. -/
theorem readClauses_starts_le {e : Parser Expr} (he : Takes e) (size : Nat) (ks : List ClauseKind)
    (ts : List Token) :
    ∀ x ∈ (readClauses e size ks ts).1.filterMap (Option.map (·.span.start)),
      size - byteSize ts ≤ x := by
  induction ks generalizing ts with
  | nil => intro x hx; exact nomatch hx
  | cons k ks ih =>
      intro x hx
      obtain ⟨used, hused, -⟩ := optClause_extends (clauseOf_takes he size k) ts
      have hle : size - byteSize ts
          ≤ size - byteSize (optClause (clauseOf e size k) ts).2 := by
        have hsize := congrArg byteSize hused
        rw [byteSize_append] at hsize
        omega
      have hmore := ih (optClause (clauseOf e size k) ts).2
      rw [readClauses] at hx
      cases hread : clauseOf e size k ts with
      | none =>
          rw [optClause, ExprParser.optional, hread] at hx hle hmore
          exact Nat.le_trans hle (hmore x hx)
      | some t =>
          rw [optClause, ExprParser.optional, hread] at hx hle hmore
          rcases List.mem_cons.mp hx with rfl | hx
          · exact Nat.le_of_eq (clauseOf_start hread).symm
          · exact Nat.le_trans hle (hmore x hx)

/-- Either no clause is read, or the first one begins here. -/
theorem readClauses_starts {e : Parser Expr} (he : Takes e) (size : Nat) (ks : List ClauseKind)
    (ts : List Token) :
    ((readClauses e size ks ts).1.filterMap (Option.map (·.span.start)) = []
        ∧ (readClauses e size ks ts).2 = ts)
      ∨ ((readClauses e size ks ts).1.filterMap (Option.map (·.span.start))).min?
        = some (size - byteSize ts) := by
  induction ks with
  | nil => exact .inl ⟨rfl, rfl⟩
  | cons k ks ih =>
      cases hread : clauseOf e size k ts with
      | none =>
          have hhead : optClause (clauseOf e size k) ts = (none, ts) := by
            rw [optClause, ExprParser.optional, hread]
          rw [readClauses, hhead]
          exact ih
      | some t =>
          refine .inr ?_
          have hle := readClauses_starts_le he size (k :: ks) ts
          have hhead : optClause (clauseOf e size k) ts = (some t.value, t.rest) := by
            rw [optClause, ExprParser.optional, hread]
          rw [readClauses, hhead] at hle ⊢
          rw [List.min?_eq_some_iff]
          exact ⟨List.mem_cons.mpr (.inl (clauseOf_start hread).symm), hle⟩

/-- The cut before a kind of clause is where the clauses before it end, unless
    there is none behind. -/
theorem cutBefore_eq {sql : String} {s : Select} {depth : Nat} {ts list sources rest : List Token}
    {items : Taken (List SelectItem)} {tables : Taken (List TableRef)} (hparse : parse sql = .ok s)
    (h : Parts (expr depth) sql.utf8ByteSize ts s list items sources tables rest)
    (k : ClauseKind) :
    (Descriptor.extract sql).cutBefore k
        = sql.utf8ByteSize - byteSize (restBefore (expr depth) sql.utf8ByteSize tables k)
      ∨ ((Descriptor.extract sql).cutBefore k = sql.utf8ByteSize
        ∧ restBefore (expr depth) sql.utf8ByteSize tables k = rest) := by
  have hstarts : k.andLater.filterMap s.startOf?
      = (readClauses (expr depth) sql.utf8ByteSize k.andLater
          (restBefore (expr depth) sql.utf8ByteSize tables k)).1.filterMap
        (Option.map (·.span.start)) := by
    rw [(h.split k).2, List.filterMap_map]
    exact congrArg (fun f => List.filterMap f k.andLater) (funext s.startOf_eq)
  have hcut : (Descriptor.extract sql).cutBefore k
      = (k.andLater.filterMap s.startOf?).min?.getD sql.utf8ByteSize := by
    rw [Descriptor.cutBefore, Descriptor.select?_extract hparse]
    rfl
  rw [hcut, hstarts]
  rcases readClauses_starts (expr_takes depth) sql.utf8ByteSize k.andLater
    (restBefore (expr depth) sql.utf8ByteSize tables k) with ⟨hnil, hrest⟩ | hmin
  · rw [hnil]
    exact .inr ⟨rfl, (hrest.symm.trans (congrArg Prod.snd (h.split k).2))⟩
  · rw [hmin]
    exact .inl rfl

/-! ## Where parts of a statement end -/

theorem sourceOf_eq (o : Bool) (front : List Token) (t : Token) :
    (sourceOf o (front ++ [t])).toList
      = chars front ++ (t.lexeme.toList ++ if o then t.gap.toList else []) := by
  induction front with
  | nil =>
      cases o with
      | true => exact String.toList_append
      | false => exact (List.append_nil _).symm
  | cons u front ih =>
      obtain ⟨x, xs, hfront⟩ : ∃ x xs, front ++ [t] = x :: xs :=
        List.exists_cons_of_ne_nil (List.append_ne_nil_of_right_ne_nil front (List.cons_ne_nil t []))
      rw [hfront] at ih
      rw [List.cons_append, hfront]
      show (u.source ++ sourceOf o (x :: xs)).toList = _
      rw [String.toList_append, ih, Token.source, String.toList_append, Lexer.chars_cons]
      simp only [List.append_assoc]

theorem tokensBefore_append (used rest : List Token) : tokensBefore (used ++ rest) rest = used := by
  rw [tokensBefore, List.length_append, Nat.add_sub_cancel, List.take_left]

/-- The text that was taken off tokens. -/
theorem text_of_taken {α : Type} {ts front : List Token} {u : Token} {x : Taken α}
    (hlexeme : Lexeme u.kind u.lexeme.toList) (hts : ts = front ++ u :: x.rest) :
    x.text ts = String.ofList (chars front ++ (u.lexeme.toList
      ++ dropTrailing isBlank (if x.open? then u.gap.toList else []))) := by
  rw [Taken.text, hts, List.append_cons, tokensBefore_append,
    ← String.ofList_toList (s := sourceOf x.open? (front ++ [u])), sourceOf_eq]
  exact trimEnd_behind hlexeme _ _

/-- What was taken off tokens ends in the gap in front of those that are left. -/
theorem span_halves {sql lead : String} {tokens : List Token}
    (hstream : TokenStream.ofString? sql = some ⟨lead, tokens⟩) {α : Type}
    {before ts front : List Token} {u : Token} {x : Taken α} (htokens : tokens = before ++ ts)
    (hts : ts = front ++ u :: x.rest) :
    ∃ w o gap back, u.gap.toList = gap ++ back ∧ (w = true → x.rest = [])
      ∧ Lexer.Halves w gap back o
      ∧ (spanOf sql.utf8ByteSize ts x).stop
        = bytes (lead.toList ++ (chars (before ++ front) ++ (u.lexeme.toList ++ gap))) := by
  have hspelled := spelled_of_stream hstream
  rw [htokens, hts, ← List.append_assoc] at hspelled
  have hstop : (spanOf sql.utf8ByteSize ts x).stop = bytes (lead.toList ++ (chars (before ++ front)
      ++ (u.lexeme.toList ++ dropTrailing isBlank (if x.open? then u.gap.toList else [])))) := by
    show sql.utf8ByteSize - byteSize ts + (x.text ts).utf8ByteSize = _
    rw [offset_eq hstream htokens, text_of_taken (lexeme_of_spelled hspelled) hts,
      Text.utf8ByteSize_ofList, Lexer.chars_append]
    simp only [Text.bytes_append, Nat.add_assoc]
  obtain ⟨w, hgap, hlast⟩ := gap_of_spelled hspelled
  rw [hstop]
  cases x.open? with
  | true =>
      obtain ⟨o, back, hback, hhalves⟩ := hgap.trim
      exact ⟨w, o, _, back, hback, hlast, hhalves, rfl⟩
  | false => exact ⟨w, false, [], u.gap.toList, rfl, hlast, .closed .nil hgap, rfl⟩

/-! ## Statements cut before a clause -/

theorem parts_of_parse {sql : String} {s : Select} (h : parse sql = .ok s) :
    ∃ lead tokens list items sources tables rest,
      TokenStream.ofString? sql = some ⟨lead, tokens⟩
        ∧ Parts (expr (tokens.length + 1)) sql.utf8ByteSize tokens s list items sources tables rest
        ∧ Ended rest ∧ s.tree.Fits := by
  obtain ⟨lead, tokens, rest, hstream, hselect, hended, hfits⟩ := parse_iff.mp h
  obtain ⟨list, items, sources, tables, hparts⟩ := parts_of_select hselect
  exact ⟨lead, tokens, list, items, sources, tables, rest, hstream, hparts, hended, hfits⟩

/-- The pieces of a statement in front of FROM. -/
theorem Parts.pieces {depth size : Nat} {ts list sources rest : List Token} {s : Select}
    {items : Taken (List SelectItem)} {tables : Taken (List TableRef)}
    (h : Parts (expr depth) size ts s list items sources tables rest) (hdepth : ts.length < depth) :
    ∃ words front t, ts = words ++ (front ++ t :: items.rest) ∧ list = front ++ t :: items.rest
      ∧ Heads s.distinct words
      ∧ (s.distinct = false → keyword .distinct (front ++ [t]) = none)
      ∧ Listed front t (s.items.map SelectItem.bare) := by
  obtain ⟨words, rfl, hwords, hdistinct⟩ := heads_of_read h.list_eq
  rw [List.length_append] at hdepth
  obtain ⟨front, t, rfl, hlisted⟩ :=
    listed_of_commaList h.items_eq (edge_from (h.body .filter)).1 (by omega)
  rw [h.items_value]
  exact ⟨words, front, t, rfl, rfl, hwords, fun hd => keyword_gap (hdistinct hd) t.gap [], hlisted⟩

/-- Where a statement is cut before a kind of clause, its tokens are those in
    front of the clauses, or all of them with the semicolon. -/
theorem stream_truncateBefore {sql lead : String} {s : Select} {depth : Nat}
    {tokens front list sources rest : List Token} {t : Token} {items : Taken (List SelectItem)}
    {tables : Taken (List TableRef)} {k : ClauseKind} (hparse : parse sql = .ok s)
    (hstream : TokenStream.ofString? sql = some ⟨lead, tokens⟩)
    (h : Parts (expr depth) sql.utf8ByteSize tokens s list items sources tables rest)
    (hended : Ended rest)
    (hsplit : tokens = front ++ t :: restBefore (expr depth) sql.utf8ByteSize tables k) :
    ∃ gap rest', Ended rest' ∧ TokenStream.ofString? ((Descriptor.extract sql).truncateBefore k)
      = some ⟨lead, front ++ { t with gap } :: rest'⟩ := by
  rw [hsplit] at hstream
  -- cut at the start of a clause, or not at all if no clause from there on is written, where only
  -- a semicolon may be left
  rcases cutBefore_eq hparse h k with hcut | ⟨hcut, hrest⟩
  · obtain ⟨gap, htrimmed⟩ := stream_trimmed hstream
    refine ⟨gap, [], Ended.nil, ?_⟩
    rw [Descriptor.truncateBefore, hcut, Descriptor.extract,
      slice_offset hstream (List.append_cons front t _)]
    exact htrimmed
  · have htext : (Descriptor.extract sql).truncateBefore k = trimEnd sql := by
      rw [Descriptor.truncateBefore, hcut]
      exact congrArg trimEnd (Text.slice_whole sql)
    have hsql : sql = String.ofList (lead.toList ++ chars (front ++ t :: rest)) := by
      rw [← hrest, ← toList_of_stream hstream, String.ofList_toList]
    rw [hrest] at hstream
    rcases hended.cases with rfl | ⟨u, rfl, hu⟩
    · obtain ⟨gap, htrimmed⟩ := stream_trimmed hstream
      refine ⟨gap, [], Ended.nil, ?_⟩
      rw [htext, hsql]
      exact htrimmed
    · rw [show front ++ t :: [u] = front ++ [t] ++ u :: [] by simp] at hstream hsql
      obtain ⟨gap, htrimmed⟩ := stream_trimmed hstream
      refine ⟨t.gap, [{ u with gap }], Ended.semicolon hu, ?_⟩
      rw [htext, hsql]
      rw [show front ++ { t with gap := t.gap } :: [{ u with gap }]
        = front ++ [t] ++ [{ u with gap }] by simp]
      exact htrimmed

/-- A statement cut before a kind of clause, as its tokens: the first words, the
    SELECT list through `t`, what is behind it through `b`, and at most a
    semicolon.  The SELECT list ends within the gap behind `t`. -/
structure Layout (sql : String) (s : Select) (k : ClauseKind) where
  lead : String
  words : List Token
  front : List Token
  t : Token
  bodyFront : List Token
  b : Token
  rest : List Token
  stream : TokenStream.ofString? ((Descriptor.extract sql).truncateBefore k)
    = some ⟨lead, words ++ (front ++ t :: (bodyFront ++ b :: rest))⟩
  heads : Heads s.distinct words
  undistinct : s.distinct = false → keyword .distinct (front ++ [t]) = none
  listed : Listed front t (s.items.map SelectItem.bare)
  readsBody : ReadsBody s k bodyFront b
  ended : Ended rest
  fits : s.tree.Fits
  gap : List Char
  back : List Char
  swallows : Bool
  gap_eq : t.gap.toList = gap ++ back
  halves : Lexer.Halves false gap back swallows
  stop_eq : s.itemsSpan.stop
    = bytes (lead.toList ++ (chars (words ++ front) ++ (t.lexeme.toList ++ gap)))

theorem layout_of_parse {sql : String} {s : Select} (h : parse sql = .ok s) (k : ClauseKind) :
    Nonempty (Layout sql s k) := by
  obtain ⟨lead, tokens, list, items, sources, tables, rest, hstream, hparts, hended, hfits⟩ :=
    parts_of_parse h
  obtain ⟨words, front, t, htokens, hlist, hwords, hdistinct, hlisted⟩ :=
    hparts.pieces (Nat.lt_succ_self _)
  have hlen : items.rest.length < tokens.length + 1 := by
    rw [htokens]
    simp only [List.length_append, List.length_cons]
    omega
  obtain ⟨bodyFront, b, hbody, hreads⟩ := hparts.readsBody hended hlen k
  have hsplit : tokens = words ++ (front ++ t :: bodyFront)
      ++ b :: restBefore (expr (tokens.length + 1)) sql.utf8ByteSize tables k := by
    rw [← List.append_assoc, List.append_cons] at htokens
    rw [hbody] at htokens
    simpa using htokens
  obtain ⟨gap, rest', hended', hstream'⟩ :=
    stream_truncateBefore h hstream hparts hended hsplit
  rw [List.append_assoc, List.append_assoc, List.cons_append] at hstream'
  obtain ⟨w, o, front', back, hgap, hlast, hhalves, hstop⟩ :=
    span_halves hstream (hlist ▸ htokens) hlist
  have hw : w = false := by
    cases w with
    | false => rfl
    | true =>
        rw [hlast rfl] at hbody
        exact absurd hbody.symm (List.append_ne_nil_of_right_ne_nil _ (List.cons_ne_nil _ _))
  exact ⟨{
    lead, words, front, t, bodyFront, b := { b with gap }, rest := rest', stream := hstream'
    heads := hwords, undistinct := hdistinct, listed := hlisted, readsBody := hreads
    ended := hended', fits := hfits, gap := front', back, swallows := o, gap_eq := hgap
    halves := hw ▸ hhalves, stop_eq := hparts.items_span ▸ hstop }⟩

section Layouts

variable {sql : String} {s : Select} {k : ClauseKind} (l : Layout sql s k)

/-- The tokens behind the SELECT list. -/
def Layout.body : List Token := l.bodyFront ++ l.b :: l.rest

/-- With another SELECT list and the same words in front, the text is read as
    the statement with that list. -/
theorem Layout.parse {text : String} {front : List Token} {t : Token} {items : List SelectItem}
    (hstream : TokenStream.ofString? text = some ⟨l.lead, l.words ++ (front ++ t :: l.body)⟩)
    (hdistinct : s.distinct = false → keyword .distinct (front ++ [t]) = none)
    (hitems : Listed front t items) :
    ∃ s', Sql.parse text = .ok s' ∧ s'.tree = { s.tree.upTo k with items } := by
  obtain ⟨s', hselect, htree⟩ := select_of_pieces l.heads hdistinct hitems l.readsBody l.ended t.gap
    l.b.gap text.utf8ByteSize ((l.words ++ (front ++ t :: l.body)).length + 1)
    (by simp only [Layout.body, List.length_append, List.length_cons]; omega)
  have hfits : s'.tree.Fits := by
    intro j n hj
    rw [htree] at hj
    exact l.fits.upTo k j n hj
  exact ⟨s', parse_iff.mpr ⟨l.lead, _, l.rest, hstream, hselect, l.ended, hfits⟩, htree⟩

end Layouts

/-- A statement cut before a kind of clause is accepted, and says what the
    statement says without the clauses from that kind on. -/
theorem parse_truncateBefore {sql : String} {s : Select} (h : parse sql = .ok s) (k : ClauseKind) :
    ∃ s', parse ((Descriptor.extract sql).truncateBefore k) = .ok s'
      ∧ s'.tree = s.tree.upTo k := by
  obtain ⟨l⟩ := layout_of_parse h k
  exact l.parse l.stream l.undistinct l.listed

end QueryReplay.Sql
