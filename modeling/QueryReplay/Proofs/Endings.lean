import QueryReplay.Proofs.Cutting
import QueryReplay.Sql.Admission

/-! # Endings — statements without what stands around them

    A statement is normalized by taking blanks off both ends of its text, and
    semicolons off the last one, without looking at its tokens.  Nothing of a
    token goes with them: behind the last token there is a gap and at most one
    semicolon with a gap of its own, and a gap is still one when its end is
    taken off (`Gap.dropTrailing`), perhaps a line comment that stays open.  So
    the tokens are the same but for the gaps at the ends (`stream_normalize`),
    and they are read as the same tree (`readsAs_of_parse`). -/

namespace QueryReplay.Sql

open QueryReplay.Sql.Parser QueryReplay.Sql.StatementParser
open QueryReplay.Sql.ExprParser (expr)
open QueryReplay.Text (isBlank dropTrailing)
open Lexer (chars Gap Lexeme startsGap isGapBlank isWordChar)

/-! ## The characters that are taken off -/

/-- What is taken off the end of a statement. -/
def isEnding (c : Char) : Bool := c == ';' || isBlank c

theorem isEnding_of_isBlank {c : Char} (h : isBlank c = true) : isEnding c = true := by
  rw [isEnding, h, Bool.or_true]

theorem isEnding_false {c : Char} (hblank : isBlank c = false) (hmark : c ≠ ';') :
    isEnding c = false := by
  rw [isEnding, hblank, Bool.or_false]
  exact beq_eq_false_iff_ne.mpr hmark

theorem toList_normalize (sql : String) :
    (normalize sql).toList = dropTrailing isEnding (sql.toList.dropWhile isBlank) := by
  have htrim : (Text.trim sql).toList = dropTrailing isBlank (sql.toList.dropWhile isBlank) := by
    rw [Text.trim, Text.trimEnd, Text.trimStart, String.toList_ofList, String.toList_ofList]
  rw [normalize, String.toList_ofList, htrim]
  exact Text.dropTrailing_behind_imp (fun _ => isEnding_of_isBlank) _

/-- What is left of a text without leading blanks has none, either. -/
theorem dropWhile_dropTrailing (p : Char → Bool) {cs : List Char}
    (h : cs.head?.any isBlank = false) :
    (dropTrailing p cs).dropWhile isBlank = dropTrailing p cs := by
  obtain ⟨ds, hsplit, -, -⟩ := Text.dropTrailing_split p cs
  cases hleft : dropTrailing p cs with
  | nil => rfl
  | cons c left =>
      rw [hsplit, hleft] at h
      exact List.dropWhile_cons_of_neg (Bool.eq_false_iff.mp h)

/-! ## The ends of a text -/

/-- Blanks in front of a text go with those of the gap there. -/
theorem Lexer.Gap.dropWhile {o : Bool} {g : List Char} (h : Gap o g) {cs : List Char}
    (hcs : cs.head?.any isBlank = false) :
    (g ++ cs).dropWhile isBlank = g.dropWhile isBlank ++ cs ∧ Gap o (g.dropWhile isBlank) := by
  induction h with
  | nil =>
      refine ⟨?_, .nil⟩
      cases cs with
      | nil => rfl
      | cons c cs => exact List.dropWhile_cons_of_neg (Bool.eq_false_iff.mp hcs)
  | @blank o c g hc _ ih =>
      have hblank := Lexer.isBlank_of_isGapBlank hc
      rw [List.cons_append, List.dropWhile_cons_of_pos hblank, List.dropWhile_cons_of_pos hblank]
      exact ih
  | line hbody hgap _ => exact ⟨rfl, .line hbody hgap⟩
  | block hbody hgap _ => exact ⟨rfl, .block hbody hgap⟩
  | last hbody => exact ⟨rfl, .last hbody⟩

/-- What is left of a gap without its end is one. -/
theorem gap_withoutEnding {o : Bool} {g : List Char} (h : Gap o g) :
    ∃ o' back, g = dropTrailing isEnding g ++ back ∧ Gap o' (dropTrailing isEnding g) := by
  obtain ⟨o', back, hsplit, hhalves⟩ := h.dropTrailing
    (fun _ hc => isEnding_of_isBlank (Lexer.isBlank_of_isGapBlank hc)) (by decide) (by decide)
  exact ⟨o', back, hsplit, hhalves.front_gap⟩

/-- A token that does not end a statement ends in a character that stays. -/
theorem Lexer.Lexeme.ends_unended {k : TokenKind} {cs : List Char} (h : Lexeme k cs)
    (hk : k ≠ .symbol .semicolon) : ∃ front c, cs = front ++ [c] ∧ isEnding c = false := by
  obtain ⟨front, c, hcs, hblank⟩ := h.ends
  refine ⟨front, c, hcs, isEnding_false hblank ?_⟩
  rintro rfl
  have hlast : cs.getLast? = some ';' := by rw [hcs, List.getLast?_concat]
  have hmem : ';' ∈ cs := hcs ▸ List.mem_append_right front (List.mem_singleton_self ';')
  have hword : ∀ {d : Char}, isWordChar d = true → d ≠ ';' := by
    rintro d hd rfl
    exact absurd hd (by decide)
  -- a semicolon stands inside of quotes and marks only, and these do not end in one
  cases h with
  | @quoted body _ =>
      rw [← List.cons_append, List.getLast?_concat] at hlast
      exact absurd hlast (by decide)
  | text hbody =>
      obtain ⟨body, rfl⟩ := hbody.ends
      rw [← List.cons_append, List.getLast?_concat] at hlast
      exact absurd hlast (by decide)
  | word hstart hrest =>
      rcases List.mem_cons.mp hmem with heq | hmem
      · exact hword (Lexer.isWordChar_of_isWordStart hstart) heq.symm
      · exact hword (hrest _ hmem) rfl
  | whole hd hdigits =>
      rcases List.mem_cons.mp hmem with heq | hmem
      · exact hword (Lexer.isWordChar_of_isDigit hd) heq.symm
      · exact hword (Lexer.isWordChar_of_isDigit (hdigits _ hmem)) rfl
  | fraction hdigits hp hplaces =>
      rcases List.mem_append.mp hmem with hmem | hmem
      · exact hword (Lexer.isWordChar_of_isDigit (hdigits _ hmem)) rfl
      rcases List.mem_cons.mp hmem with heq | hmem
      · exact nomatch heq
      rcases List.mem_cons.mp hmem with heq | hmem
      · exact hword (Lexer.isWordChar_of_isDigit hp) heq.symm
      · exact hword (Lexer.isWordChar_of_isDigit (hplaces _ hmem)) rfl
  | @symbol s _ hs =>
      have hmarks : ∀ x ∈ Lexer.symbols, ';' ∈ x.2 → x.1 = .semicolon := by decide
      exact hk (congrArg TokenKind.symbol (hmarks _ hs hmem))

/-! ## The tokens of a normalized text -/

/-- A gap of its own in front of the tokens of a text. -/
theorem stream_lead {sql lead : String} {tokens : List Token}
    (h : TokenStream.ofString? sql = some ⟨lead, tokens⟩) {o : Bool} {lead' : List Char}
    (hgap : Gap o lead') (hopen : o = true → tokens = []) :
    TokenStream.ofString? (String.ofList (lead' ++ chars tokens))
      = some ⟨String.ofList lead', tokens⟩ := by
  obtain ⟨-, hstart, -, hspelled⟩ := Lexer.ofString_iff.mp h
  refine Lexer.ofString_iff.mpr ⟨?_, hstart, ⟨o, ?_, hopen⟩, hspelled⟩
  · rw [String.toList_ofList, String.toList_ofList]
  · rw [String.toList_ofList]
    exact hgap

/-- The end of a text behind its last token or semicolon, taken off. -/
theorem stream_ending {sql lead : String} {front rest : List Token} {t : Token}
    (h : TokenStream.ofString? sql = some ⟨lead, front ++ t :: rest⟩)
    (ht : t.kind ≠ .symbol .semicolon) (hended : Ended rest) :
    ∃ gap rest', Ended rest'
      ∧ TokenStream.ofString? (String.ofList (dropTrailing isEnding sql.toList))
        = some ⟨lead, front ++ { t with gap } :: rest'⟩ := by
  have hspelled := spelled_of_stream h
  obtain ⟨o, hgap, -⟩ := gap_of_spelled hspelled
  obtain ⟨init, c, hlexeme, hc⟩ := (lexeme_of_spelled hspelled).ends_unended ht
  -- nothing is taken off in front of the gap behind the last token
  have hfront : ∀ cs, dropTrailing isEnding (lead.toList ++ (chars front ++ (t.lexeme.toList ++ cs)))
      = lead.toList ++ (chars front ++ (t.lexeme.toList ++ dropTrailing isEnding cs)) := by
    intro cs
    have hassoc : ∀ cs, lead.toList ++ (chars front ++ (t.lexeme.toList ++ cs))
        = (lead.toList ++ chars front ++ init) ++ [c] ++ cs := by
      intro cs
      rw [hlexeme]
      simp only [List.append_assoc]
    rw [hassoc, hassoc, Text.dropTrailing_behind _ hc]
  obtain ⟨o', back, hsplit, hcut⟩ := gap_withoutEnding hgap
  have hchars := toList_of_stream h
  rw [Lexer.chars_append, Lexer.chars_cons] at hchars
  rcases hended.cases with rfl | ⟨u, rfl, hu⟩
  · refine ⟨String.ofList (dropTrailing isEnding t.gap.toList), [], Ended.nil, ?_⟩
    rw [hchars, Lexer.chars_nil, List.append_nil, hfront]
    exact stream_cut h hsplit hcut
  · rw [List.append_cons] at h
    obtain ⟨ou, hgapu, -⟩ := gap_of_spelled (spelled_of_stream h)
    have hmark : u.lexeme.toList = [';'] := (lexeme_of_spelled (spelled_of_stream h)).semicolon hu
    rw [hchars, Lexer.chars_cons, Lexer.chars_nil, List.append_nil, hmark, hfront]
    by_cases hnil : dropTrailing isEnding u.gap.toList = []
    · -- the semicolon goes with the gap behind it
      have hmarkNil : dropTrailing isEnding ([';'] ++ u.gap.toList) = [] := by
        rw [Text.dropTrailing_append_nil _ hnil]
        decide
      refine ⟨String.ofList (dropTrailing isEnding t.gap.toList), [], Ended.nil, ?_⟩
      rw [Text.dropTrailing_append_nil _ hmarkNil]
      rw [← List.append_cons] at h
      exact stream_cut h hsplit hcut
    · -- the gap behind the semicolon holds a comment, and both stay
      obtain ⟨ou', backu, hsplitu, hcutu⟩ := gap_withoutEnding hgapu
      refine ⟨t.gap, [{ u with gap := String.ofList (dropTrailing isEnding u.gap.toList) }],
        Ended.semicolon hu, ?_⟩
      rw [← List.append_assoc t.gap.toList, Text.dropTrailing_append _ hnil]
      have hstream := stream_cut h hsplitu hcutu
      rw [hmark, Lexer.chars_append, Lexer.chars_cons, Lexer.chars_nil, List.append_nil] at hstream
      simp only [List.append_assoc, List.singleton_append] at hstream ⊢
      exact hstream

/-- The tokens of a normalized statement are its own but for the gaps at the ends
    and a last semicolon. -/
theorem stream_normalize {sql lead : String} {front rest : List Token} {t : Token}
    (h : TokenStream.ofString? sql = some ⟨lead, front ++ t :: rest⟩)
    (ht : t.kind ≠ .symbol .semicolon) (hended : Ended rest)
    (hhead : (chars (front ++ t :: rest)).head?.any isBlank = false) :
    ∃ lead' gap rest', Ended rest'
      ∧ TokenStream.ofString? (normalize sql) = some ⟨lead', front ++ { t with gap } :: rest'⟩ := by
  obtain ⟨o, hlead, hopen⟩ := (Lexer.ofString_iff.mp h).2.2.1
  obtain ⟨hdrop, hleadGap⟩ := hlead.dropWhile hhead
  have hstream := stream_lead h hleadGap hopen
  obtain ⟨gap, rest', hended', hcut⟩ := stream_ending hstream ht hended
  refine ⟨String.ofList (lead.toList.dropWhile isBlank), gap, rest', hended', ?_⟩
  rw [← String.ofList_toList (s := normalize sql), toList_normalize, toList_of_stream h, hdrop]
  rw [String.toList_ofList] at hcut
  exact hcut

/-! ## What is read -/

/-- The tokens, with any gap behind the last of them, are all of a text that says
    what the statement says. -/
def ReadsAs (s : Select) (front : List Token) (t : Token) : Prop :=
  ∀ (text lead gap : String) (rest : List Token), Ended rest →
    TokenStream.ofString? text = some ⟨lead, front ++ { t with gap } :: rest⟩ → Says text s.tree

/-- First words, a SELECT list and all that is behind FROM are read as one
    statement, whatever stands around them. -/
theorem readsAs_of_pieces {s : Select} {words front bodyFront rest : List Token} {t b : Token}
    {size depth : Nat} (hwords : Heads s.distinct words)
    (hdistinct : s.distinct = false → keyword .distinct (front ++ [t]) = none)
    (hitems : Listed front t (s.items.map SelectItem.bare))
    (hbody : Body (expr depth) size ClauseKind.all (bodyFront ++ b :: rest) s.tables s.joins
      (ClauseKind.all.map s.located) rest)
    (hended : Ended rest) (hdepth : bodyFront.length + 2 ≤ depth) (hfits : s.tree.Fits) :
    ReadsAs s (words ++ (front ++ t :: bodyFront)) b := by
  intro text lead gap rest' hended' hstream
  obtain ⟨joins, clauses, hread, hjoins, hclauses⟩ : ∃ joins clauses,
      Body (expr ((words ++ (front ++ t :: bodyFront) ++ { b with gap } :: rest').length + 1))
        text.utf8ByteSize ClauseKind.all (bodyFront ++ { b with gap } :: rest') s.tables joins
        clauses rest'
      ∧ s.joins.map Join.bare = joins.map Join.bare
      ∧ (ClauseKind.all.map s.located).map (Option.map Located.node)
        = clauses.map (Option.map Located.node) := by
    -- the clauses are read in front of either ending
    have hbehind : ∀ {us : List Token}, Ended us → Behind .filter us := fun h => .inl h
    refine hbody.relocated (hbehind hended).edge (hbehind hended').edge (hbehind hended).comma
      (hbehind hended').comma (fun k _ => ⟨hended.noClause k _ _, hended'.noClause k _ _⟩) rfl rfl
      hdepth ?_
    simp only [List.length_append, List.length_cons]
    omega
  obtain ⟨s', hselect, hdistinct', hitems', htables, rfl, rfl, -⟩ := select_of_body
    (List.append_nil _) hwords hdistinct hitems hread hended' t.gap (by
      simp only [List.length_append, List.length_cons]
      omega)
  -- the pieces make up the same tree, clause by clause
  have htree : s'.tree = s.tree := by
    have hclause : ∀ k, (s'.located k).map Located.node = (s.located k).map Located.node := by
      intro k
      rw [List.map_map, List.map_map] at hclauses
      exact (List.map_inj_left.mp hclauses k k.mem_all).symm
    show Tree.mk s'.distinct (s'.items.map SelectItem.bare) s'.tables (s'.joins.map Join.bare)
      (fun k => (s'.located k).map Located.node) = _
    rw [hdistinct', hitems', htables, ← hjoins, funext hclause]
    rfl
  refine ⟨s', parse_iff.mpr ⟨lead, _, rest', hstream, ?_, hended', htree ▸ hfits⟩, htree⟩
  rw [List.append_assoc, List.append_assoc, List.cons_append] at hselect ⊢
  exact hselect

theorem Heads.opener {distinct : Bool} {words : List Token} (h : Heads distinct words) :
    ∃ u more, words = u :: more ∧ u.kind = .keyword .select := by
  cases h with
  | all hu => exact ⟨_, _, rfl, hu⟩
  | distinct hu _ => exact ⟨_, _, rfl, hu⟩

/-- The tokens of a statement are read as it whatever stands around them. -/
theorem readsAs_of_parse {sql : String} {s : Select} (h : parse sql = .ok s) :
    ∃ lead front rest t, TokenStream.ofString? sql = some ⟨lead, front ++ t :: rest⟩
      ∧ t.kind ≠ .symbol .semicolon ∧ Ended rest
      ∧ (chars (front ++ t :: rest)).head?.any isBlank = false ∧ ReadsAs s front t := by
  obtain ⟨lead, tokens, list, items, sources, tables, rest, hstream, hparts, hended, hfits⟩ :=
    parts_of_parse h
  obtain ⟨words, front, t, htokens, -, hwords, hdistinct, hlisted⟩ :=
    hparts.pieces (Nat.lt_succ_self _)
  have hbody : Body (expr (tokens.length + 1)) sql.utf8ByteSize ClauseKind.all items.rest s.tables
      s.joins (ClauseKind.all.map s.located) rest :=
    ⟨sources, tables, hparts.sources_eq, hparts.tables_eq, hparts.tables_value, hparts.joins_value,
      hparts.clauses⟩
  obtain ⟨used, hused, hphrase⟩ := hbody.phrase (expr_takes _)
  obtain ⟨bodyFront, b, rfl, hb⟩ := hphrase.ends
  rw [List.append_assoc, List.singleton_append] at hused
  rw [hused] at hbody htokens
  have hsplit : tokens = words ++ (front ++ t :: bodyFront) ++ b :: rest := by
    rw [htokens]
    simp only [List.append_assoc, List.cons_append]
  refine ⟨lead, words ++ (front ++ t :: bodyFront), rest, b, hsplit ▸ hstream,
    hphrase.unended b (List.mem_append_right _ (List.mem_singleton_self b)), hended, ?_,
    readsAs_of_pieces hwords hdistinct hlisted hbody hended ?_ hfits⟩
  · obtain ⟨u, more, rfl, hu⟩ := hwords.opener
    rw [hsplit] at hstream
    obtain ⟨c, letters, hlexeme, hc, -⟩ := (spelled_of_stream hstream).1.keyword hu
    rw [List.cons_append, List.cons_append, Lexer.chars_cons, hlexeme]
    exact Lexer.isBlank_of_isWordChar (Lexer.isWordChar_of_isWordStart hc)
  · rw [htokens]
    simp only [List.length_append, List.length_cons]
    omega

/-- Normalizing keeps what an accepted statement says, and leaves a normalized text as it is. -/
theorem says_normalize :
    (∀ (sql : String) (s : Select), parse sql = .ok s → Says (normalize sql) s.tree)
      ∧ ∀ sql : String, normalize (normalize sql) = normalize sql := by
  constructor
  · intro sql s h
    obtain ⟨lead, front, rest, t, hstream, ht, hended, hhead, hreads⟩ := readsAs_of_parse h
    obtain ⟨lead', gap, rest', hended', hnormalized⟩ := stream_normalize hstream ht hended hhead
    exact hreads _ lead' gap rest' hended' hnormalized
  · intro sql
    refine String.toList_inj.mp ?_
    rw [toList_normalize, toList_normalize, dropWhile_dropTrailing _ Lexer.head_dropWhile]
    exact Text.dropTrailing_of_imp (fun _ h => h) _

/-- Behind a last semicolon stands a line comment that ends in more of them. -/
theorem says_normalize_comment : ∃ s, parse "\n SELECT a FROM t ; -- done;\u2003;\n" = .ok s
    ∧ normalize "\n SELECT a FROM t ; -- done;\u2003;\n" = "SELECT a FROM t ; -- done"
    ∧ Says (normalize "\n SELECT a FROM t ; -- done;\u2003;\n") s.tree := by
  obtain ⟨s, hparse⟩ := accepted_of_isOk
    (show (parse "\n SELECT a FROM t ; -- done;\u2003;\n").isOk = true by decide +kernel)
  exact ⟨s, hparse, by decide +kernel, says_normalize.1 _ s hparse⟩

end QueryReplay.Sql
