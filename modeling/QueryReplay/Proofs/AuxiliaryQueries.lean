import QueryReplay.Proofs.HeadedLists
import QueryReplay.Proofs.Questions
import QueryReplay.Proofs.Relations

/-! # Auxiliary queries — what the composed statements say

    A replay puts three kinds of statements together: one for the identities of
    rows, one for the values of expressions row by row, and one for groups with
    their keys.  They are lists under headers, made of the statement's own texts.

    * behind SELECT and in front of FROM, the joins and WHERE a list makes a
      statement of its items (`says_selecting`), unless it ends in a comment
      (`parse_selecting_open`);
    * the identities are a list that never does (`identity_extra`), so their
      question always says what it should (`says_identityQuery`), and the one for
      values does when the texts do not end in one (`says_perRowQuery_iff`);
    * behind the SELECT list of the statement a list adds its items, unless it or
      that list ends in a comment, or it runs into FROM (`says_keyedQuery_iff`). -/

namespace QueryReplay

namespace Sql

open QueryReplay.Sql.Parser QueryReplay.Sql.StatementParser
open QueryReplay.Sql.ExprParser (expr)
open QueryReplay.Text (slice)
open Lexer (chars Spelled Gap Lexeme startsGap joins isGapBlank isWordChar)

/-! ## Identities of rows -/

/-- The identity of a row of a table, by what the statement calls the table. -/
def TableRef.rowId (t : TableRef) : GroupKey :=
  ⟨.column ⟨some t.qualifier, "rowid"⟩, quoteName t.qualifier ++ ".rowid"⟩

/-- An identifier has no quotes in it. -/
theorem identifier_unquoted {t : Token} {name : String} (hlexeme : Lexeme t.kind t.lexeme.toList)
    (h : t.identifier? = some name) : ∀ c ∈ name.toList, c ≠ '"' := by
  rcases Token.kind_of_identifier h with hk | hk
  · obtain ⟨c, cs, hcs, hstart, hrest, -⟩ := hlexeme.isWord (.inl hk)
    obtain rfl : t.lexeme = name := by
      rw [Token.identifier?, hk] at h
      exact Option.some.inj h
    rw [hcs]
    rintro d hd rfl
    rcases List.mem_cons.mp hd with rfl | hd
    · exact absurd hstart (by decide)
    · exact absurd (hrest _ hd) (by decide)
  · obtain ⟨body, hcs, hbody⟩ := hlexeme.inQuotes hk
    obtain rfl : String.ofList body = name := by
      rw [Token.identifier?, hk, hcs] at h
      have hname : String.ofList (body ++ ['"']).dropLast = name := Option.some.inj h
      rwa [List.dropLast_concat] at hname
    rw [String.toList_ofList]
    exact hbody

theorem table_unquoted {ts : List Token} {t : Taken TableRef} (h : table ts = some t)
    (hts : ∀ u ∈ ts, Lexeme u.kind u.lexeme.toList) : ∀ c ∈ t.value.qualifier.toList, c ≠ '"' := by
  unfold table at h
  cases hname : identifier ts with
  | none => rw [hname] at h; exact nomatch h
  | some name =>
      rw [hname] at h
      obtain rfl := Option.some.inj h
      obtain ⟨u, rfl, hu⟩ := identifier_some hname
      show ∀ c ∈ ((optAlias name.rest).1.getD name.value).toList, c ≠ '"'
      rcases halias : optAlias name.rest with ⟨_ | a, rest⟩
      · exact identifier_unquoted (hts u List.mem_cons_self) hu
      · obtain ⟨words, v, hwords, hv, -⟩ := optAlias_some halias
        refine identifier_unquoted (hts v (List.mem_cons_of_mem u ?_)) hv
        rw [hwords]
        exact List.mem_append_right words List.mem_cons_self

theorem join_unquoted {e : Parser Expr} {size : Nat} {ts : List Token} {t : Taken Join}
    (h : join e size ts = some t) (hts : ∀ u ∈ ts, Lexeme u.kind u.lexeme.toList) :
    ∀ c ∈ t.value.table.qualifier.toList, c ≠ '"' := by
  rw [join_eq] at h
  obtain ⟨⟨kind, behind⟩, hkind, h⟩ := Option.bind_eq_some_iff.mp h
  obtain ⟨right, hright, rfl⟩ := Option.map_eq_some_iff.mp h
  obtain ⟨used, rfl, -⟩ := joinKind_run hkind
  have hname := table_unquoted hright fun u hu => hts u (List.mem_append_right used hu)
  cases onCondition e right.rest <;> exact hname

/-- No table of a statement is called by a name with quotes in it. -/
theorem allTables_unquoted {sql : String} {s : Select} (h : parse sql = .ok s) :
    ∀ t ∈ s.allTables, ∀ c ∈ t.qualifier.toList, c ≠ '"' := by
  obtain ⟨lead, tokens, list, items, sources, tables, rest, hstream, hparts, -, -⟩ := parts_of_parse h
  have htokens : ∀ u ∈ tokens, Lexeme u.kind u.lexeme.toList := by
    intro u hu
    obtain ⟨front, behind, rfl⟩ := List.append_of_mem hu
    exact lexeme_of_spelled (spelled_of_stream hstream)
  have hsources : sources <:+ tokens := by
    obtain ⟨words, front, t, rfl, -⟩ := hparts.pieces (Nat.lt_succ_self _)
    obtain ⟨f, hf, -⟩ := keyword_some hparts.sources_eq
    rw [hf]
    exact ⟨words ++ front ++ [t, f], by simp⟩
  intro t ht
  rcases List.mem_append.mp ht with ht | ht
  · rw [hparts.tables_value] at ht
    obtain ⟨ts', rest', o, hread, -, hsuffix⟩ := (segments_of_commaList hparts.tables_eq).each
      (fun _ _ h => table_takes.suffix h) t ht
    exact table_unquoted hread fun u hu => htokens u ((hsuffix.trans hsources).subset hu)
  · rw [hparts.joins_value] at ht
    obtain ⟨j, hj, rfl⟩ := List.mem_map.mp ht
    -- the joins are taken one by one
    have hjoins := manyUpTo_invariant
      (p := join (expr (tokens.length + 1)) sql.utf8ByteSize)
      (fun (vs : List Join) ts => ts <:+ tokens
        ∧ ∀ j ∈ vs, ∀ c ∈ j.table.qualifier.toList, c ≠ '"')
      (by
        rintro vs ts t ⟨hts, hvs⟩ hread
        refine ⟨((join_takes (expr_takes _) _).suffix hread).trans hts, fun j hj => ?_⟩
        rcases List.mem_append.mp hj with hj | hj
        · exact hvs j hj
        · obtain rfl := List.mem_singleton.mp hj
          exact join_unquoted hread fun u hu => htokens u (hts.subset hu))
      tables.rest.length [] true tables.rest
      ⟨(table_takes.commaList.suffix hparts.tables_eq).trans hsources, fun _ hj => nomatch hj⟩
    exact hjoins.2 j hj

theorem quoteName_eq {name : String} (h : ∀ c ∈ name.toList, c ≠ '"') :
    quoteName name = String.ofList ('"' :: (name.toList ++ ['"'])) := by
  have hflat : name.toList.flatMap (fun c => if c == '"' then ['"', '"'] else [c]) = name.toList := by
    refine (List.flatMap_congr fun c hc => ?_).trans (List.flatMap_singleton' name.toList)
    exact if_neg (fun hquote => h c hc (beq_iff_eq.mp hquote))
  rw [quoteName, hflat]
  rfl

/-- A quoted name and `rowid` behind a point are read as that column. -/
def rowIdReading {name : String} (h : ∀ c ∈ name.toList, c ≠ '"') :
    Reading (quoteName name ++ ".rowid") (.column ⟨some name, "rowid"⟩) where
  front := [⟨.quoted, String.ofList ('"' :: (name.toList ++ ['"'])), ""⟩, ⟨.symbol .dot, ".", ""⟩]
  t := ⟨.name, "rowid", ""⟩
  gap := ""
  rest := []
  depth := 4
  o := true
  stream := by
    refine Lexer.ofString_iff.mpr ⟨?_, ?_, ⟨false, .nil, nofun⟩, ?_, ⟨false, .nil, nofun⟩, rfl, rfl,
      .symbol (by decide), ⟨false, .nil, nofun⟩, by decide, by decide,
      (Lexeme.word (by decide) (List.all_eq_true.mp (by decide)) :
        Lexeme (Lexer.wordKind ['r', 'o', 'w', 'i', 'd']) ['r', 'o', 'w', 'i', 'd']),
      ⟨false, .nil, nofun⟩, rfl, rfl, trivial⟩
    · rw [quoteName_eq h]
      simp [Lexer.chars_cons]
    · rw [List.cons_append, Lexer.chars_cons, String.toList_ofList]
      exact Lexer.startsGap_cons _ (by decide) (by decide) (by decide)
    · rw [String.toList_ofList]
      exact .quoted h
  read := by
    have hread : ∀ lexeme : String, expr 4 ([⟨.quoted, lexeme, ""⟩, ⟨.symbol .dot, ".", ""⟩]
        ++ [⟨.name, "rowid", ""⟩]) = some ⟨.column
          ⟨some (String.ofList (lexeme.toList.drop 1).dropLast), "rowid"⟩, [], true⟩ := fun _ => rfl
    rw [hread, String.toList_ofList, List.drop_one, List.tail_cons, List.dropLast_concat,
      String.ofList_toList]
  stop := fun _ ht => nomatch ht
  unstarred := rfl
  depth_le := Nat.le_refl 4

/-- The qualifiers of a statement are those of its tables, in FROM and then in the joins. -/
theorem qualifiers_eq {sql : String} {s : Select} (h : parse sql = .ok s) :
    (Descriptor.extract sql).qualifiers = s.allTables.map TableRef.qualifier := by
  have hselect := Descriptor.select?_extract h
  have htable : (Descriptor.extract sql).fromTable? = some s.base.name := by
    rw [Descriptor.extract, Descriptor.fromTable?, h]
  have hfirst : (Descriptor.extract sql).fromQualifier? = some s.base.qualifier := by
    rw [Descriptor.fromQualifier?, Descriptor.fromAlias?, hselect, htable, Option.bind_some]
    cases halias : s.base.alias? <;> simp [TableRef.qualifier, halias]
  have hjoins : (Descriptor.extract sql).joins.map JoinClause.qualifier
      = (s.moreTables ++ s.joins.map Join.table).map TableRef.qualifier := by
    rw [Descriptor.joins, hselect]
    show s.joinClauses.map JoinClause.qualifier = _
    rw [Select.joinClauses, List.map_append, List.map_append, List.map_map, List.map_map,
      List.map_map]
    rfl
  rw [Descriptor.qualifiers, hfirst, hjoins]
  rfl

/-- The identities that are asked for are one item per table. -/
theorem identityItems_eq {sql : String} {s : Select} (h : parse sql = .ok s) :
    identityItems (.extract sql)
      = headed identityHeader ((s.allTables.map TableRef.rowId).map GroupKey.text) := by
  rw [identityItems, qualifiers_eq h, List.map_map, List.map_map]
  rfl

/-- They begin with a quote. -/
theorem identityItems_head {sql : String} {s : Select} (h : parse sql = .ok s) (more : String) :
    (identityItems (.extract sql) ++ more).toList.head? = some '"' := by
  have htables : s.allTables = s.base :: (s.moreTables ++ s.joins.map Join.table) := rfl
  rw [identityItems_eq h, htables, List.map_cons, List.map_cons, headed, List.zipIdx_cons,
    List.map_cons]
  show (", ".intercalate ((quoteName s.base.qualifier ++ ".rowid" ++ " AS " ++ identityHeader
    ++ toString 0) :: _) ++ more).toList.head? = _
  simp only [String.append_assoc, String.intercalate_cons_append, String.toList_append]
  rw [quoteName, String.toList_ofList]
  rfl

theorem isHeader_identity : IsHeader identityHeader := ⟨by decide, by decide⟩

theorem isHeader_expression : IsHeader expressionHeader := ⟨by decide, by decide⟩

theorem isHeader_key : IsHeader keyHeader := ⟨by decide, by decide⟩

/-- The identities of rows are a list of items. -/
theorem identity_extra {sql : String} {s : Select} (h : parse sql = .ok s) :
    Nonempty (Extra (identityItems (.extract sql))
      (headedItems identityHeader (s.allTables.map TableRef.rowId))) := by
  have hreading : ∀ k ∈ s.allTables.map TableRef.rowId,
      Nonempty (Reading k.text k.expr) ∧ endsInComment k.text = false := by
    intro k hk
    obtain ⟨t, ht, rfl⟩ := List.mem_map.mp hk
    have hname := allTables_unquoted h t ht
    exact ⟨⟨rowIdReading hname⟩, endsInComment_of_stream (rowIdReading hname).stream .nil⟩
  rw [identityItems_eq h]
  cases headed_cases isHeader_identity (List.cons_ne_nil _ _) fun k hk => (hreading k hk).1 with
  | whole _ x => exact ⟨x⟩
  | cut hopen _ =>
      obtain ⟨k, hk, hopen⟩ := hopen
      exact nomatch hopen.symm.trans (hreading k hk).2

/-! ## Statements of such lists -/

/-- Tokens that begin with a quote begin with no keyword. -/
theorem keyword_none_of_quote {ts : List Token} (h : Spelled ts) (hquote : (chars ts).head? = some '"')
    (k : Keyword) : keyword k ts = none := by
  cases hread : keyword k ts with
  | none => rfl
  | some rest =>
      obtain ⟨t, rfl, ht⟩ := keyword_some hread
      obtain ⟨c, cs, hcs, hc, -⟩ := h.1.keyword ht
      rw [Lexer.chars_cons, hcs] at hquote
      obtain rfl := Option.some.inj hquote
      exact absurd hc (by decide)

/-- SELECT with a blank behind it. -/
def selectWords : List Token := [⟨.keyword .select, "SELECT", " "⟩]

theorem heads_selectWords : Heads false selectWords := .all rfl

/-- A text that begins with a quote, behind SELECT. -/
theorem stream_selecting {text lead : String} {ts : List Token}
    (h : TokenStream.ofString? text = some ⟨lead, ts⟩) (hquote : text.toList.head? = some '"') :
    TokenStream.ofString? ("SELECT " ++ text) = some ⟨"", selectWords ++ ts⟩
      ∧ keyword .distinct ts = none := by
  obtain ⟨htext, hstart, ⟨o, hlead, -⟩, hspelled⟩ := Lexer.ofString_iff.mp h
  -- no gap begins with the quote
  have hnil : lead.toList = [] := by
    cases hcs : lead.toList with
    | nil => rfl
    | cons c cs =>
        rw [htext, hcs] at hquote
        obtain rfl := Option.some.inj hquote
        rw [hcs] at hlead
        cases hlead with
        | blank hc _ => exact absurd hc (by decide)
  rw [hnil, List.nil_append] at htext
  have hselect : TokenStream.ofString? "SELECT " = some ⟨"", [] ++ selectWords⟩ := by decide
  have hstream := stream_append hselect hspelled hstart ⟨nofun, nofun, nofun⟩ (.singleton _)
    (.blank rfl .nil) (joins_blank rfl _ _ _)
  rw [← htext, String.ofList_toList] at hstream
  exact ⟨hstream, keyword_none_of_quote hspelled (htext ▸ hquote) .distinct⟩

/-- A list of items in front of FROM, the joins and WHERE of a statement. -/
theorem says_selecting {sql text : String} {s : Select} {items : List SelectItem}
    (h : parse sql = .ok s) (x : Extra text items) (hquote : text.toList.head? = some '"') :
    Says ("SELECT " ++ text ++ " " ++ (Descriptor.extract sql).relationText?.getD "")
      { s.tree.upTo .groupBy with distinct := false, items } := by
  obtain ⟨hselect, hdistinct⟩ := stream_selecting x.stream hquote
  have hgap : ∀ c ∈ x.u.gap.toList ++ [' '], isGapBlank c = true := by
    intro c hc
    rcases List.mem_append.mp hc with hc | hc
    · exact x.gap_blank c hc
    · exact List.mem_singleton.mp hc ▸ rfl
  have hapart := heads_selectWords.apart x.listed.shape.apart
  rw [← List.append_assoc] at hselect hapart
  have hbefore := stream_behind hselect x.listed.shape.final hapart (show Spelled [] from trivial) rfl
    (Lexer.gap_of_blanks hgap) nofun (by
      rw [Lexer.chars_nil, List.append_nil]
      exact not_joins_behind hselect (Lexer.gap_of_blanks x.gap_blank) fun _ => joins_blank rfl _ _ _)
  rw [Lexer.chars_nil, List.append_nil] at hbefore
  obtain ⟨relation, s', hrelation, hparse, htree⟩ := parse_behind h hbefore
    heads_selectWords (fun _ => keyword_gap hdistinct _ _) (x.listed.gap _)
    (by rw [String.toList_ofList]; exact List.append_ne_nil_of_right_ne_nil _ (List.cons_ne_nil ' ' []))
    (by rw [String.toList_ofList]; exact hgap)
  rw [hrelation]
  exact ⟨s', hparse, htree⟩

/-- A list that ends in a comment takes the rest of the line with it. -/
theorem parse_selecting_open {text : String} (w : Swallowing text)
    (hquote : w.list.toList.head? = some '"') {more : String}
    (hline : '\n' ∉ ("SELECT " ++ text ++ more).toList) (s : Select) :
    parse ("SELECT " ++ text ++ more) ≠ .ok s := by
  obtain ⟨hselect, hdistinct⟩ := stream_selecting w.stream hquote
  rw [w.between_eq] at hline ⊢
  refine parse_open hselect heads_selectWords (fun _ => hdistinct) w.listed w.gap_open
    (fun c hc heq => ?_) s
  rw [String.toList_append, String.toList_ofList] at hline
  exact hline (List.mem_append_right _ (heq ▸ hc))

/-- The question for identities selects the identity of a row of each table. -/
theorem says_identityQuery {sql : String} {s : Select} (h : parse sql = .ok s) :
    Says (identityQuery (.extract sql)) { s.tree.upTo .groupBy with
      distinct := false, items := headedItems identityHeader (s.allTables.map TableRef.rowId) } := by
  obtain ⟨x⟩ := identity_extra h
  have hquote := identityItems_head h ""
  rw [String.append_empty] at hquote
  exact says_selecting h x hquote

/-- The question for values row by row selects them behind the identities exactly when
    none of their texts ends in a comment. -/
theorem says_perRowQuery_iff {sql : String} {s : Select} (h : parse sql = .ok s)
    {requested : List GroupKey} (hne : requested ≠ []) (hwrites : ∀ k ∈ requested, s.Writes k)
    (hline : (∃ k ∈ requested, endsInComment k.text = true) →
      '\n' ∉ (perRowQuery (.extract sql) (requested.map GroupKey.text)).toList) :
    Says (perRowQuery (.extract sql) (requested.map GroupKey.text)) { s.tree.upTo .groupBy with
        distinct := false
        items := headedItems identityHeader (s.allTables.map TableRef.rowId)
          ++ headedItems expressionHeader requested }
      ↔ ∀ k ∈ requested, endsInComment k.text = false := by
  obtain ⟨x⟩ := identity_extra h
  have hcall : perRowQuery (.extract sql) (requested.map GroupKey.text)
      = "SELECT " ++ (identityItems (.extract sql) ++ ", "
          ++ headed expressionHeader (requested.map GroupKey.text))
        ++ (" " ++ (Descriptor.extract sql).relationText?.getD "") := by
    rw [perRowQuery]
    simp only [String.append_assoc]
  cases headed_cases isHeader_expression hne fun k hk => reading_of_writes h (hwrites k hk) with
  | whole hclosed y =>
      refine iff_of_true ?_ hclosed
      have hquote := identityItems_head h (", " ++ headed expressionHeader (requested.map GroupKey.text))
      rw [← String.append_assoc] at hquote
      have hsays := says_selecting h (x.append y) hquote
      rw [hcall, ← String.append_assoc]
      exact hsays
  | cut hopen w =>
      refine iff_of_false (fun ⟨s', hparse, _⟩ => ?_) (fun hclosed => ?_)
      -- the identities stand in front of the list that ends in a comment
      · have hquote := identityItems_head h (", " ++ w.list)
        rw [← String.append_assoc] at hquote
        rw [hcall] at hline hparse
        exact parse_selecting_open (x.swallow w) hquote (hline hopen) s' hparse
      · obtain ⟨k, hk, hopen⟩ := hopen
        exact nomatch hopen.symm.trans (hclosed k hk)

section Keyed

variable {sql text : String} {s : Select} {k : ClauseKind} (l : Layout sql s k)

/-- Items on one line behind a list that ends in a comment are not added. -/
theorem not_says_swallowed (hopen : l.swallows = true) (hline : '\n' ∉ text.toList)
    {items : List SelectItem} (hne : items ≠ []) :
    ¬ Says (String.ofList l.listChars ++ ", " ++ text ++ String.ofList (l.back ++ chars l.body))
      { s.tree.upTo k with items := s.tree.items ++ items } := by
  have hcs : ∀ c ∈ (", " ++ text).toList, c ≠ '\n' := by
    rintro c hc rfl
    rw [String.toList_append] at hc
    rcases List.mem_append.mp hc with hc | hc
    · exact absurd hc (by decide)
    · exact hline hc
  obtain ⟨s', hparse, htree⟩ := l.parse_swallowed hopen hcs
  rw [String.ofList_append, String.ofList_append, String.ofList_toList, ← String.append_assoc,
    ← String.append_assoc] at hparse
  rintro ⟨s'', hparse', htree'⟩
  obtain rfl : s' = s'' := Except.ok.inj (hparse.symm.trans hparse')
  have hitems : s.tree.items = s.tree.items ++ items := congrArg Tree.items (htree.symm.trans htree')
  exact hne (List.append_right_eq_self.mp hitems.symm)

/-- Items that end in a comment take FROM with them when it is on their line. -/
theorem parse_spliced_open (hclosed : l.swallows = false) (w : Swallowing text)
    (hline : '\n' ∉ (String.ofList l.listChars ++ ", " ++ text
      ++ String.ofList (l.back ++ chars l.body)).toList) (s' : Select) :
    parse (String.ofList l.listChars ++ ", " ++ text ++ String.ofList (l.back ++ chars l.body))
      ≠ .ok s' := by
  have hstream := stream_comma l.list_stream l.shape.final
    (by rw [List.append_assoc]; exact l.heads.apart (l.shape.gap _).apart)
    (by rw [String.toList_ofList]; exact hclosed ▸ l.halves.front_gap) w.stream
  rw [w.between_eq, String.toList_ofList] at hline ⊢
  rw [List.append_assoc, ← List.cons_append, ← List.cons_append, ← List.append_assoc l.front] at hstream
  refine parse_open hstream l.heads (fun h => ?_) (l.listed.append rfl w.listed _) w.gap_open
    (fun c hc heq => ?_) s'
  · rw [List.append_assoc]
    exact keyword_gap (l.undistinct h) _ _
  · rw [String.toList_append, String.toList_ofList] at hline
    exact hline (List.mem_append_right _ (heq ▸ hc))

end Keyed

/-- The question for groups with their keys adds the keys to the SELECT list exactly when
    neither this list nor a key ends in a comment and the keys do not run into FROM. -/
theorem says_keyedQuery_iff {sql : String} {s : Select} (h : parse sql = .ok s)
    {keys : List GroupKey} {k : ClauseKind} {call : String}
    (hcall : keyedQuery? (.extract sql) keys k = some call) (hwrites : ∀ key ∈ keys, s.Writes key)
    (hlistLine : endsInComment (slice sql 0 s.itemsSpan.stop) = true →
      '\n' ∉ (headed keyHeader (keys.map GroupKey.text)).toList)
    (hline : (∃ key ∈ keys, endsInComment key.text = true) → '\n' ∉ call.toList) :
    Says call { s.tree.upTo k with items := s.tree.items ++ headedItems keyHeader keys }
      ↔ endsInComment (slice sql 0 s.itemsSpan.stop) = false
        ∧ (∀ key ∈ keys, endsInComment key.text = false)
        ∧ runsInto (headed keyHeader (keys.map GroupKey.text))
            (slice sql s.itemsSpan.stop sql.utf8ByteSize) = false := by
  obtain ⟨l⟩ := layout_of_parse h k
  -- without keys there is no such question
  have hne : keys ≠ [] := by
    rintro rfl
    cases (if_pos (Bool.or_true _)).symm.trans hcall
  have hitems : headedItems keyHeader keys ≠ [] := by
    rw [headedItems, Ne, List.map_eq_nil_iff, List.zipIdx_eq_nil_iff]
    exact hne
  unfold keyedQuery? at hcall
  split at hcall
  · cases hcall
  rw [l.withSelectAppended_eq h] at hcall
  obtain rfl := Option.some.inj hcall
  rw [l.endsInComment_eq] at hlistLine ⊢
  -- the first of these that goes wrong decides: the SELECT list, the keys, the seam
  cases hlist : l.swallows with
  | true =>
      exact iff_of_false (not_says_swallowed l hlist (hlistLine hlist) hitems)
        fun hcond => absurd hcond.1 (by decide)
  | false =>
      cases headed_cases isHeader_key hne fun key hkey => reading_of_writes h (hwrites key hkey) with
      | cut hopen w =>
          refine iff_of_false ?_ (fun hcond => ?_)
          · rintro ⟨s', hparse, -⟩
            exact parse_spliced_open l hlist w (hline hopen) s' hparse
          · obtain ⟨key, hkey, hopen⟩ := hopen
            cases hopen.symm.trans (hcond.2.1 key hkey)
      | whole hclosed x =>
          cases hjoined : runsInto (headed keyHeader (keys.map GroupKey.text))
              (slice sql s.itemsSpan.stop sql.utf8ByteSize) with
          | false => exact iff_of_true (parse_spliced l x hlist hjoined) ⟨rfl, hclosed, rfl⟩
          | true =>
              refine iff_of_false ?_ fun hcond => absurd hcond.2.2 (by decide)
              rintro ⟨s', hparse, -⟩
              exact parse_runTogether l x hlist hjoined s' hparse

end Sql

open Sql (Descriptor GroupKey Says endsInComment runsInto headedItems)

/-- All that a replay asks about a statement that the grammar reads: whole tables, the
    statement or a front of it, and the three kinds of composed questions, whose parts
    are expressions with the texts that the statement writes.  The question for
    identities always says what it is made of: the identity of a row of each table, of
    the FROM, the joins and the WHERE of the statement.  The one for values row by row
    does so exactly when none of the texts ends in a line comment, and the one for groups
    exactly when neither its keys nor the SELECT list do and the keys do not run into
    FROM.  What is behind a comment is told to be lost as far as it is on one line. -/
theorem replay_questions {σ : Type} (engine : Engine σ) (sql : String) (s : σ) {parsed : Sql.Select}
    (h : Sql.parse (Sql.normalize sql) = .ok parsed) :
    (∀ call ∈ (replay engine sql s).calls,
        Question (.extract (Sql.normalize sql)) parsed call)
    ∧ Says (identityQuery (.extract (Sql.normalize sql))) { parsed.tree.upTo .groupBy with
        distinct := false
        items := headedItems identityHeader (parsed.allTables.map Sql.TableRef.rowId) }
    ∧ (∀ requested : List GroupKey, requested ≠ [] → (∀ k ∈ requested, parsed.Writes k) →
        ((∃ k ∈ requested, endsInComment k.text = true) → '\n' ∉
          (perRowQuery (.extract (Sql.normalize sql)) (requested.map GroupKey.text)).toList) →
        (Says (perRowQuery (.extract (Sql.normalize sql)) (requested.map GroupKey.text))
            { parsed.tree.upTo .groupBy with
              distinct := false
              items := headedItems identityHeader (parsed.allTables.map Sql.TableRef.rowId)
                ++ headedItems expressionHeader requested }
          ↔ ∀ k ∈ requested, endsInComment k.text = false))
    ∧ (∀ (keys : List GroupKey) (k : Sql.ClauseKind) (call : String),
        keyedQuery? (.extract (Sql.normalize sql)) keys k = some call →
        (∀ key ∈ keys, parsed.Writes key) →
        (endsInComment (Text.slice (Sql.normalize sql) 0 parsed.itemsSpan.stop) = true →
          '\n' ∉ (headed keyHeader (keys.map GroupKey.text)).toList) →
        ((∃ key ∈ keys, endsInComment key.text = true) → '\n' ∉ call.toList) →
        (Says call { parsed.tree.upTo k with
            items := parsed.tree.items ++ headedItems keyHeader keys }
          ↔ endsInComment (Text.slice (Sql.normalize sql) 0 parsed.itemsSpan.stop) = false
            ∧ (∀ key ∈ keys, endsInComment key.text = false)
            ∧ runsInto (headed keyHeader (keys.map GroupKey.text))
                (Text.slice (Sql.normalize sql) parsed.itemsSpan.stop
                  (Sql.normalize sql).utf8ByteSize) = false)) := by
  refine ⟨?asked, Sql.says_identityQuery h, ?perRow, ?keyed⟩
  case asked =>
    rw [replay_calls]
    exact Dialogue.asks_run engine (Replay.statement_asks h) s
  case perRow => exact fun requested => Sql.says_perRowQuery_iff h
  case keyed => exact fun keys k call => Sql.says_keyedQuery_iff h

/-- Groups with a condition on rows and on groups: its questions say what they are made
    of. -/
theorem replay_questions_grouped :
    ∃ parsed, Sql.parse "SELECT d, COUNT(*) FROM t WHERE a > 1 GROUP BY d HAVING COUNT(*) > 1"
        = .ok parsed
      ∧ (∀ call ∈ (replay (Engine.scripted none)
            "SELECT d, COUNT(*) FROM t WHERE a > 1 GROUP BY d HAVING COUNT(*) > 1"
            [.ok ⟨["rowid", "a", "d"], [[.int 1, .int 5, .int 7]]⟩, .error "down"]).calls,
          Question (.extract "SELECT d, COUNT(*) FROM t WHERE a > 1 GROUP BY d HAVING COUNT(*) > 1")
            parsed call)
      ∧ Says "SELECT \"t\".rowid AS __sqlstep_id_0 FROM t WHERE a > 1"
          { parsed.tree.upTo .groupBy with
            distinct := false
            items := headedItems identityHeader (parsed.allTables.map Sql.TableRef.rowId) }
      ∧ Says "SELECT \"t\".rowid AS __sqlstep_id_0, d AS __sqlstep_expr_0 FROM t WHERE a > 1"
          { parsed.tree.upTo .groupBy with
            distinct := false
            items := headedItems identityHeader (parsed.allTables.map Sql.TableRef.rowId)
              ++ headedItems expressionHeader parsed.groupKeys }
      ∧ Says "SELECT d, COUNT(*), d AS __sqlstep_key_0 FROM t WHERE a > 1 GROUP BY d"
          { parsed.tree.upTo .having with
            items := parsed.tree.items ++ headedItems keyHeader parsed.groupKeys } := by
  have hnormal : Sql.normalize "SELECT d, COUNT(*) FROM t WHERE a > 1 GROUP BY d HAVING COUNT(*) > 1"
      = "SELECT d, COUNT(*) FROM t WHERE a > 1 GROUP BY d HAVING COUNT(*) > 1" := by decide +kernel
  obtain ⟨parsed, hparsed⟩ := Sql.accepted_of_isOk (show (Sql.parse
    "SELECT d, COUNT(*) FROM t WHERE a > 1 GROUP BY d HAVING COUNT(*) > 1").isOk = true by
      decide +kernel)
  -- what the conditions look at: the texts of the keys and the end of the list
  have hfacts : ((Sql.parse
      "SELECT d, COUNT(*) FROM t WHERE a > 1 GROUP BY d HAVING COUNT(*) > 1").toOption.map
        fun p => (p.groupKeys.map GroupKey.text, p.itemsSpan.stop)) = some (["d"], 18) := by
    decide +kernel
  rw [hparsed] at hfacts
  obtain ⟨htexts, hstop⟩ := Prod.mk.inj (Option.some.inj hfacts)
  have hne : parsed.groupKeys ≠ [] := fun hnil => by
    rw [hnil] at htexts
    exact nomatch htexts
  -- no text of the statement ends in a comment, so all three calls are splices that are meant
  have hclosed : ∀ k ∈ parsed.groupKeys, endsInComment k.text = false := by
    intro k hk
    have htext := List.mem_map_of_mem (f := GroupKey.text) hk
    rw [htexts] at htext
    rw [List.mem_singleton.mp htext]
    decide +kernel
  have hnone : ¬ ∃ k ∈ parsed.groupKeys, endsInComment k.text = true := fun ⟨k, hk, hopen⟩ =>
    nomatch hopen.symm.trans (hclosed k hk)
  have hlist : endsInComment (Text.slice
      "SELECT d, COUNT(*) FROM t WHERE a > 1 GROUP BY d HAVING COUNT(*) > 1" 0 18) = false := by
    decide +kernel
  -- the texts that are spliced, written out
  have hcall : keyedQuery? (.extract
      "SELECT d, COUNT(*) FROM t WHERE a > 1 GROUP BY d HAVING COUNT(*) > 1") parsed.groupKeys .having
      = some "SELECT d, COUNT(*), d AS __sqlstep_key_0 FROM t WHERE a > 1 GROUP BY d" := by
    have hsome : parsed.groupKeys.isEmpty = false := List.isEmpty_eq_false_iff.mpr hne
    rw [keyedQuery?, htexts, hsome]
    decide +kernel
  obtain ⟨hasked, hidentity, hperRow, hkeyed⟩ := replay_questions (Engine.scripted none)
    "SELECT d, COUNT(*) FROM t WHERE a > 1 GROUP BY d HAVING COUNT(*) > 1"
    [.ok ⟨["rowid", "a", "d"], [[.int 1, .int 5, .int 7]]⟩, .error "down"] (hnormal ▸ hparsed)
  rw [hnormal] at hasked hidentity hperRow hkeyed
  have hsaysRows := (hperRow parsed.groupKeys hne (fun _ hk => .inr hk)
    fun hopen => absurd hopen hnone).mpr hclosed
  have hsaysGroups := (hkeyed parsed.groupKeys .having _ hcall (fun _ hk => .inr hk)
    (fun hopen => by rw [hstop, hlist] at hopen; exact nomatch hopen)
    fun hopen => absurd hopen hnone).mpr
      ⟨by rw [hstop]; exact hlist, hclosed, by rw [hstop, htexts]; decide +kernel⟩
  refine ⟨parsed, hparsed, hasked, ?_, ?_, hsaysGroups⟩
  · have htext : identityQuery (.extract
        "SELECT d, COUNT(*) FROM t WHERE a > 1 GROUP BY d HAVING COUNT(*) > 1")
        = "SELECT \"t\".rowid AS __sqlstep_id_0 FROM t WHERE a > 1" := by decide +kernel
    exact htext ▸ hidentity
  · have htext : perRowQuery (.extract
        "SELECT d, COUNT(*) FROM t WHERE a > 1 GROUP BY d HAVING COUNT(*) > 1") ["d"]
        = "SELECT \"t\".rowid AS __sqlstep_id_0, d AS __sqlstep_expr_0 FROM t WHERE a > 1" := by
      decide +kernel
    rw [htexts, htext] at hsaysRows
    exact hsaysRows

/-- A comment behind an expression is a part of its text: the question for its values
    has the header and FROM in the comment, and is no statement. -/
theorem replay_perRow_swallowed :
    (Sql.parse (Sql.normalize "SELECT a + 1 -- x\nFROM t")).isOk = true
      ∧ "SELECT \"t\".rowid AS __sqlstep_id_0, a + 1 -- x AS __sqlstep_expr_0 FROM t" ∈
          (replay (Engine.scripted none) "SELECT a + 1 -- x\nFROM t"
            [.ok ⟨["__sqlstep_rowid", "a"], [[.int 1, .int 5]]⟩]).calls
      ∧ ∀ tree, ¬ Says
          "SELECT \"t\".rowid AS __sqlstep_id_0, a + 1 -- x AS __sqlstep_expr_0 FROM t" tree := by
  refine ⟨by decide +kernel, by decide +kernel, ?_⟩
  rintro tree ⟨s, hs, -⟩
  have hrejected : (Sql.parse
      "SELECT \"t\".rowid AS __sqlstep_id_0, a + 1 -- x AS __sqlstep_expr_0 FROM t").isOk = false := by
    decide +kernel
  rw [hs] at hrejected
  exact nomatch hrejected

end QueryReplay
