import QueryReplay.Proofs.Cutting

/-! # Expressions — read back from their own texts

    Of an expression in the SELECT list or in GROUP BY its text is kept, to be put
    into other statements.  That text is cut into the tokens that the expression
    was read from, with a part of the gap behind the last of them, and they are
    read as the expression again (`Reading`).

    * an item and a group key are expressions in front of tokens that do not go on
      with them (`stands_of_item`, `stands_of_groupKey`);
    * so are all that a statement writes (`stands_of_writes`), and their texts by
      themselves are read as they are (`reading_of_writes`). -/

namespace QueryReplay.Sql

open QueryReplay.Sql.Parser QueryReplay.Sql.StatementParser
open QueryReplay.Sql.ExprParser (expr)
open QueryReplay.Text (dropTrailing isBlank)
open Lexer (chars Spelled Gap Lexeme startsGap)

/-- The text is cut into tokens that are read as the expression, also with another
    gap behind the last of them, and are no `t.*`. -/
structure Reading (text : String) (e : Expr) where
  front : List Token
  t : Token
  gap : String
  rest : List Token
  depth : Nat
  o : Bool
  stream : TokenStream.ofString? text = some ⟨"", front ++ [{ t with gap }]⟩
  read : expr depth (front ++ t :: rest) = some ⟨e, rest, o⟩
  stop : Stop rest
  unstarred : tableWildcard (front ++ t :: rest) = none
  depth_le : front.length + 2 ≤ depth

/-- The statement has the expression, with this text, as an item or as a group key. -/
def Select.Writes (s : Select) (k : GroupKey) : Prop :=
  (∃ alias?, SelectItem.expr k.expr alias? k.text ∈ s.items) ∨ k ∈ s.groupKeys

/-! ## Expressions among tokens -/

/-- The expression was read somewhere in the tokens, and its text was kept. -/
inductive StandsIn (tokens : List Token) : GroupKey → Prop
  | intro {front rest : List Token} {t : Token} {e : Expr} {depth : Nat} {o : Bool}
      (hsuffix : front ++ t :: rest <:+ tokens)
      (hread : expr depth (front ++ t :: rest) = some ⟨e, rest, o⟩) (hstop : Stop rest)
      (htable : tableWildcard (front ++ t :: rest) = none) (hdepth : front.length + 2 ≤ depth) :
      StandsIn tokens ⟨e, (⟨e, rest, o⟩ : Taken Expr).text (front ++ t :: rest)⟩

/-- What a parser leaves is the end of what it was given. -/
theorem Takes.suffix {α : Type} {p : Parser α} (h : Takes p) {ts : List Token} {t : Taken α}
    (ht : p ts = some t) : t.rest <:+ ts := by
  obtain ⟨used, rfl, -⟩ := h ts t ht
  exact List.suffix_append used t.rest

/-- An expression that was taken off tokens stands in them. -/
theorem stands_of_expr {depth : Nat} {ts tokens : List Token} {c : Taken Expr}
    (hread : expr depth ts = some c) (hstop : Stop c.rest) (htable : tableWildcard ts = none)
    (hdepth : ts.length < depth) (hsuffix : ts <:+ tokens) :
    StandsIn tokens ⟨c.value, c.text ts⟩ := by
  obtain ⟨used, hused, hphrase⟩ := expr_takes depth ts c hread
  obtain ⟨front, t, rfl, -⟩ := hphrase.ends
  rw [List.append_assoc, List.singleton_append] at hused
  subst hused
  simp only [List.length_append, List.length_cons] at hdepth
  exact .intro hsuffix hread hstop htable (by omega)

/-- The expression of an item stands in front of an alias or of an edge. -/
theorem stands_of_item {depth : Nat} {ts rest tokens : List Token} {e : Expr}
    {alias? : Option String} {text : String} {o : Bool}
    (h : item (expr depth) ts = some ⟨.expr e alias? text, rest, o⟩) (hrest : Edge rest)
    (hdepth : ts.length < depth) (hsuffix : ts <:+ tokens) : StandsIn tokens ⟨e, text⟩ := by
  obtain ⟨c, hread, htable, rfl, rfl, halias⟩ := item_expr h
  refine stands_of_expr hread ?_ htable hdepth hsuffix
  cases alias? with
  | some name =>
      obtain ⟨words, u, hwords, hu, has⟩ := optAlias_some halias
      rw [hwords]
      exact fun t ht => (alias_head hu has t ht).1
  | none =>
      unfold optAlias at halias
      cases hname : identifier (optKeyword .as c.rest).2 with
      | some name => rw [hname] at halias; exact nomatch (Prod.mk.inj halias).1
      | none =>
          rw [hname] at halias
          obtain rfl : c.rest = rest := (Prod.mk.inj halias).2
          exact hrest.stop

/-- What begins like `t.*` is a column in front of a point. -/
theorem expr_of_tableWildcard {ts : List Token} {w : Taken SelectItem}
    (h : tableWildcard ts = some w) (depth : Nat) :
    ∃ c point behind, expr (depth + 1) ts = some c ∧ c.rest = point :: behind
      ∧ point.kind = .symbol .dot := by
  obtain ⟨name, a, point, star, rfl, hname, hgap, hpoint, hpointGap, hstar, -⟩ :=
    tableWildcard_some h
  -- once the tokens are written out the parser runs on them
  obtain ⟨kind, lexeme, gap⟩ := a
  obtain ⟨_, point, pointGap⟩ := point
  obtain ⟨_, star, starGap⟩ := star
  obtain rfl := hpoint
  obtain rfl := hstar
  obtain rfl : gap = "" := String.isEmpty_iff.mp hgap
  obtain rfl : pointGap = "" := String.isEmpty_iff.mp hpointGap
  rcases Token.kind_of_identifier hname with hkind | hkind
  · obtain rfl : kind = .name := hkind
    exact ⟨⟨.column ⟨none, lexeme⟩, _, true⟩, _, _, rfl, rfl, rfl⟩
  · obtain rfl : kind = .quoted := hkind
    exact ⟨⟨.column ⟨none, _⟩, _, true⟩, _, _, rfl, rfl, rfl⟩

/-- A group key stands in front of an edge. -/
theorem stands_of_groupKey {depth : Nat} {ts rest tokens : List Token} {k : GroupKey} {o : Bool}
    (h : StatementParser.groupKey (expr depth) ts = some ⟨k, rest, o⟩) (hrest : Edge rest)
    (hdepth : ts.length < depth) (hsuffix : ts <:+ tokens) : StandsIn tokens k := by
  obtain ⟨c, hread, heq⟩ := Option.map_eq_some_iff.mp h
  obtain ⟨rfl, rfl, -⟩ := Taken.mk.inj heq
  refine stands_of_expr hread hrest.stop ?_ hdepth hsuffix
  cases htable : tableWildcard ts with
  | none => rfl
  | some w =>
      obtain ⟨depth, rfl⟩ : ∃ n, depth = n + 1 := ⟨depth - 1, by omega⟩
      obtain ⟨c', point, behind, hread', hpoint, hkind⟩ := expr_of_tableWildcard htable depth
      obtain rfl := Option.some.inj (hread.symm.trans hread')
      -- a point is no edge
      have hstop := hrest.stop point (by rw [hpoint]; rfl)
      rw [Token.continues, hkind] at hstop
      cases hstop

/-- Each part of a list was taken off an end of the tokens, in front of a comma or of
    what is behind the list. -/
theorem Segments.each {α : Type} {p : Parser α} {rest ts : List Token} {vs : List α}
    (h : Segments p rest ts vs) (hp : ∀ ts t, p ts = some t → t.rest <:+ ts) :
    ∀ v ∈ vs, ∃ ts' rest' o, p ts' = some ⟨v, rest', o⟩ ∧ (Edge rest → Edge rest') ∧ ts' <:+ ts := by
  induction h with
  | @last ts v o hread =>
      intro v' hv
      obtain rfl := List.mem_singleton.mp hv
      exact ⟨ts, rest, o, hread, id, List.suffix_refl ts⟩
  | @comma ts more c v vs o hread hc _ ih =>
      intro v' hv
      rcases List.mem_cons.mp hv with rfl | hv
      · exact ⟨ts, _, o, hread, fun _ => edge_comma hc more, List.suffix_refl ts⟩
      · obtain ⟨ts', rest', o', hread', hrest', hsuffix⟩ := ih v' hv
        exact ⟨ts', rest', o', hread', hrest',
          hsuffix.trans ((List.suffix_cons c more).trans (hp ts _ hread))⟩

/-- So is what an item leaves. -/
theorem item_suffix {e : Parser Expr} (he : Takes e) (ts : List Token) (t : Taken SelectItem)
    (h : item e ts = some t) : t.rest <:+ ts := by
  obtain ⟨front, u, rfl, -⟩ := item_some he h
  exact (List.suffix_cons u t.rest).trans (List.suffix_append front _)

/-! ## Expressions of a statement -/

section Parts

variable {depth size : Nat} {ts list sources rest : List Token} {s : Select}
  {items : Taken (List SelectItem)} {tables : Taken (List TableRef)}
  (h : Parts (expr depth) size ts s list items sources tables rest)
include h

/-- The list of items is an end of the statement's tokens. -/
theorem Parts.list_suffix : list <:+ ts := by
  obtain ⟨words, rfl, -⟩ := heads_of_read h.list_eq
  exact List.suffix_append words list

/-- The tokens in front of the clauses are an end of those from the SELECT list on. -/
theorem Parts.clauses_suffix (hdepth : ts.length < depth) :
    (many (join (expr depth) size) tables.rest).rest <:+ list := by
  obtain ⟨-, front, t, -, hlist, -⟩ := h.pieces hdepth
  obtain ⟨f, hf, -⟩ := keyword_some h.sources_eq
  obtain ⟨joined, hjoined, -⟩ := joins_extends (expr_takes depth) size tables.rest
  have hsources : sources <:+ items.rest := hf ▸ List.suffix_cons f sources
  have hitems : items.rest <:+ list :=
    hlist ▸ (List.suffix_cons t items.rest).trans (List.suffix_append front _)
  exact List.IsSuffix.trans ⟨joined, hjoined.symm⟩
    ((table_takes.commaList.suffix h.tables_eq).trans (hsources.trans hitems))

/-- The group keys as they were read, behind WHERE. -/
theorem Parts.groupBy_eq (hselect : select (expr depth) size ts = some (s, rest)) :
    s.groupBy = (optClause (clause size [.group, .by] (commaList (StatementParser.groupKey (expr depth))))
      (optClause (clauseOf (expr depth) size .filter)
        (many (join (expr depth) size) tables.rest).rest).2).1 := by
  obtain ⟨behind, hkeyword, hdistinct⟩ := Option.map_eq_some_iff.mp h.list_eq
  unfold select at hselect
  simp only [hkeyword, hdistinct, h.items_eq, h.sources_eq, h.tables_eq, Option.bind_eq_bind,
    Option.bind_some, Option.pure_def] at hselect
  cases hvalue : tables.value with
  | nil => rw [hvalue] at hselect; exact nomatch hselect
  | cons base more =>
      rw [hvalue] at hselect
      obtain ⟨hs, -⟩ := Prod.mk.inj (Option.some.inj hselect)
      rw [show clauseOf (expr depth) size .filter
        = clause size [.where] ((expr depth).map .condition) from rfl, clause_map]
      exact (congrArg Select.groupBy hs).symm

/-- GROUP BY is a list of keys in front of an edge. -/
theorem Parts.groupKeys_segments (hselect : select (expr depth) size ts = some (s, rest))
    (hended : Ended rest) (hdepth : ts.length < depth) (hkeys : s.groupKeys ≠ []) :
    ∃ body behind, Segments (StatementParser.groupKey (expr depth)) behind body s.groupKeys
      ∧ body <:+ list ∧ Edge behind := by
  have hgroupBy := h.groupBy_eq hselect
  have hedge := (h.behind hended .having).edge
  have hbefore : restBefore (expr depth) size tables .having
      = (optClause (clauseOf (expr depth) size .groupBy) (optClause (clauseOf (expr depth) size .filter)
        (many (join (expr depth) size) tables.rest).rest).2).2 := rfl
  rw [hbefore, show clauseOf (expr depth) size .groupBy = clause size [.group, .by]
    ((commaList (StatementParser.groupKey (expr depth))).map
      fun keys => .keys (keys.map GroupKey.expr)) from rfl, clause_map] at hedge
  obtain ⟨used, hused, -⟩ := optClause_extends (clauseOf_takes (expr_takes depth) size .filter)
    (many (join (expr depth) size) tables.rest).rest
  have hsuffix := List.IsSuffix.trans ⟨used, hused.symm⟩ (h.clauses_suffix hdepth)
  -- GROUP BY is read from where WHERE ends
  generalize (optClause (clauseOf (expr depth) size .filter)
    (many (join (expr depth) size) tables.rest).rest).2 = behindWhere at hgroupBy hedge hsuffix
  unfold optClause ExprParser.optional at hgroupBy hedge
  cases hclause : clause size [.group, .by] (commaList (StatementParser.groupKey (expr depth)))
      behindWhere with
  | none =>
      rw [hclause] at hgroupBy
      exact absurd (by rw [Select.groupKeys, hgroupBy]; rfl) hkeys
  | some c =>
      rw [hclause] at hgroupBy hedge
      obtain ⟨body, hwords, hread⟩ := Option.bind_eq_some_iff.mp hclause
      obtain ⟨b, hbody, hc⟩ := Option.bind_eq_some_iff.mp hread
      obtain rfl := Option.some.inj hc
      obtain ⟨words, rfl, -⟩ := keywords_run hwords
      have hvalue : s.groupKeys = b.value := by
        rw [Select.groupKeys, hgroupBy]
        rfl
      rw [hvalue]
      exact ⟨body, b.rest, segments_of_commaList hbody,
        (List.suffix_append words body).trans hsuffix, hedge⟩

/-- All expressions that a statement writes stand behind its first words. -/
theorem Parts.stands (hselect : select (expr depth) size ts = some (s, rest)) (hended : Ended rest)
    (hdepth : ts.length < depth) {k : GroupKey} (hk : s.Writes k) : StandsIn list k := by
  have hlist : list.length < depth := Nat.lt_of_le_of_lt h.list_suffix.length_le hdepth
  rcases hk with ⟨alias?, hitem⟩ | hkey
  · rw [h.items_value] at hitem
    obtain ⟨ts', rest', o, hread, hrest', hsuffix⟩ :=
      (segments_of_commaList h.items_eq).each (item_suffix (expr_takes depth)) _ hitem
    exact stands_of_item hread (hrest' (edge_from (h.body .filter)).1)
      (Nat.lt_of_le_of_lt hsuffix.length_le hlist) hsuffix
  · obtain ⟨body, behind, hsegments, hbody, hedge⟩ :=
      h.groupKeys_segments hselect hended hdepth (List.ne_nil_of_mem hkey)
    obtain ⟨ts', rest', o, hread, hrest', hsuffix⟩ :=
      hsegments.each (fun _ _ ht => (groupKey_takes (expr_takes depth)).suffix ht) _ hkey
    have hsuffix' := hsuffix.trans hbody
    exact stands_of_groupKey hread (hrest' hedge) (Nat.lt_of_le_of_lt hsuffix'.length_le hlist)
      hsuffix'

end Parts

/-! ## Texts by themselves -/

/-- Behind a token no gap begins. -/
theorem Lexer.Spelled.startsGap_behind {front rest : List Token} (h : Spelled (front ++ rest))
    (hne : front ≠ []) : startsGap (chars rest) = false := by
  obtain ⟨init, u, rfl⟩ := List.eq_nil_or_concat front |>.resolve_left hne
  rw [List.concat_eq_append, List.append_assoc, List.singleton_append] at h
  exact h.behind.2.2.1

/-- The text of an expression by itself is cut into the tokens that it was read from. -/
theorem reading_of_stands {sql lead : String} {words tokens : List Token} {k : GroupKey}
    (hstream : TokenStream.ofString? sql = some ⟨lead, words ++ tokens⟩) (hwords : words ≠ [])
    (h : StandsIn tokens k) : Nonempty (Reading k.text k.expr) := by
  cases h with
  | @intro front rest t e depth o hsuffix hread hstop htable hdepth =>
      obtain ⟨more, rfl⟩ := hsuffix
      have hspelled := spelled_of_stream hstream
      rw [← List.append_assoc] at hspelled
      have hstart := hspelled.startsGap_behind (List.append_ne_nil_of_left_ne_nil hwords more)
      have hspelled := hspelled.behind
      obtain ⟨w, hgap, -⟩ := gap_of_spelled hspelled
      -- the text has a front of the gap, or nothing of it
      obtain ⟨o', back, hback, hfront⟩ : ∃ o' back,
          t.gap.toList = dropTrailing isBlank (if o then t.gap.toList else []) ++ back
            ∧ Gap o' (dropTrailing isBlank (if o then t.gap.toList else [])) := by
        cases o with
        | true =>
            obtain ⟨o', back, hback, hhalves⟩ := hgap.trim
            exact ⟨o', back, hback, hhalves.front_gap⟩
        | false => exact ⟨false, t.gap.toList, rfl, .nil⟩
      have htext := text_of_taken (x := ⟨e, rest, o⟩) (lexeme_of_spelled hspelled)
        (rfl : front ++ t :: rest = _)
      generalize dropTrailing isBlank (if o then t.gap.toList else []) = gap at hback hfront htext
      have hcut := hspelled.cut hback hfront
      have hchars : chars (front ++ [{ t with gap := String.ofList gap }])
          = chars front ++ (t.lexeme.toList ++ gap) := by
        rw [Lexer.chars_append, Lexer.chars_cons, String.toList_ofList, Lexer.chars_nil,
          List.append_nil]
      refine ⟨⟨front, t, String.ofList gap, rest, depth, o, ?_, hread, hstop, htable, hdepth⟩⟩
      rw [htext]
      refine Lexer.ofString_iff.mpr ⟨?_, ?_, ⟨false, .nil, nofun⟩, hcut⟩
      · rw [String.toList_ofList, hchars]
        rfl
      · refine @Lexer.not_startsGap_of_append _ (back ++ chars rest) ?_
        rw [Lexer.chars_append, Lexer.chars_cons, hback] at hstart
        rw [hchars]
        simp only [List.append_assoc] at hstart ⊢
        exact hstart

theorem Heads.ne_nil {distinct : Bool} {words : List Token} (h : Heads distinct words) :
    words ≠ [] := by
  cases h <;> exact List.cons_ne_nil _ _

/-- The text of every expression that a statement writes is read as that expression. -/
theorem reading_of_writes {sql : String} {s : Select} (h : parse sql = .ok s) {k : GroupKey}
    (hk : s.Writes k) : Nonempty (Reading k.text k.expr) := by
  obtain ⟨lead, tokens, rest, hstream, hselect, hended, -⟩ := parse_iff.mp h
  obtain ⟨list, items, sources, tables, hparts⟩ := parts_of_select hselect
  have hstands := hparts.stands hselect hended (Nat.lt_succ_self _) hk
  obtain ⟨words, rfl, hwords, -⟩ := heads_of_read hparts.list_eq
  exact reading_of_stands hstream hwords.ne_nil hstands

end QueryReplay.Sql
