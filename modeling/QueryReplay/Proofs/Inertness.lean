import QueryReplay.Proofs.Literals
import QueryReplay.Proofs.Parallel

/-! # Inertness — what a text literal holds does not matter

    Two statements that differ in the contents of one text literal are both
    accepted or both rejected, and say the same but for that value
    (`parse_inert`).  The route: the text in front of the literal and the text
    behind it are cut into tokens each by itself, so the token lists differ in
    one literal (`ofString_literal`); the parsers keep abreast on them
    (`select_parallel`); and which of the text literals of the statement it is
    does not depend on what it holds (`select_passes`). -/

namespace QueryReplay.Sql

open QueryReplay.Sql.Parser QueryReplay.Sql.StatementParser
open QueryReplay.Sql.ExprParser (expr literal?)
open Regions (EndsOutside)

/-! ## Statements on lists abreast -/

/-- A statement corresponds to another one by its parts. -/
theorem Corresponds.select {T : String → String → Prop} {S : Span → Span → Prop} {s s' : Select}
    (hdistinct : s.distinct = s'.distinct) (htables : s.tables = s'.tables)
    (hitems : Corresponds T S s.items s'.items) (hitemsSpan : S s.itemsSpan s'.itemsSpan)
    (hfromSpan : S s.fromSpan s'.fromSpan) (hjoins : Corresponds T S s.joins s'.joins)
    (hfilter : Corresponds T S s.filter s'.filter) (hgroup : Corresponds T S s.groupBy s'.groupBy)
    (hhaving : Corresponds T S s.having s'.having) (horder : Corresponds T S s.orderBy s'.orderBy)
    (hlimit : Corresponds T S s.limit s'.limit) (hoffset : Corresponds T S s.offset s'.offset) :
    Corresponds T S s s' where
  sameSkeleton := by
    obtain ⟨hbase, hmore⟩ := List.cons.inj htables
    show Select.mk _ _ _ _ _ _ _ _ _ _ _ _ _ = Select.mk _ _ _ _ _ _ _ _ _ _ _ _ _
    rw [hdistinct, hbase, hmore, hitems.sameSkeleton, hjoins.sameSkeleton, hfilter.sameSkeleton,
      hgroup.sameSkeleton, hhaving.sameSkeleton, horder.sameSkeleton, hlimit.sameSkeleton,
      hoffset.sameSkeleton]
  sameTexts := List.rel_append hitems.sameTexts (List.rel_append hjoins.sameTexts
    (List.rel_append hfilter.sameTexts (List.rel_append hgroup.sameTexts
      (List.rel_append hhaving.sameTexts (List.rel_append horder.sameTexts
        (List.rel_append hlimit.sameTexts hoffset.sameTexts))))))
  sameSpans := .cons hitemsSpan (.cons hfromSpan (List.rel_append hitems.sameSpans
    (List.rel_append hjoins.sameSpans (List.rel_append hfilter.sameSpans
      (List.rel_append hgroup.sameSpans (List.rel_append hhaving.sameSpans
        (List.rel_append horder.sameSpans
          (List.rel_append hlimit.sameSpans hoffset.sameSpans))))))))

namespace Exchange

variable {x : Exchange} {ts ts' : List Token}

/-- Names are the same in both. -/
theorem identifier_parallel (hts : x.Abreast ts ts') :
    Together (fun n n' => n.value = n'.value ∧ x.Onward ts ts' n.rest n'.rest)
      (identifier ts) (identifier ts') := by
  rcases hts.uncons with ⟨rfl, rfl⟩ | ⟨t, t', rest, rest', rfl, rfl, hsame, hrest⟩
  · exact .fail
  · unfold identifier
    dsimp only
    rw [hsame.identifier]
    cases t'.identifier? with
    | none => exact .fail
    | some name => exact .done ⟨rfl, hrest⟩

/-- An alias is there in both or in neither. -/
theorem optAlias_parallel (hts : x.Abreast ts ts') :
    (optAlias ts).1 = (optAlias ts').1 ∧ x.Onward ts ts' (optAlias ts).2 (optAlias ts').2 := by
  have has := (optKeyword_parallel .as hts).2
  have hname := identifier_parallel has.abreast
  unfold optAlias
  generalize identifier (optKeyword .as ts).2 = a at hname ⊢
  generalize identifier (optKeyword .as ts').2 = b at hname ⊢
  cases hname with
  | fail => exact ⟨rfl, hts.onward⟩
  | done h => exact ⟨congrArg some h.1, has.trans h.2⟩

theorem table_parallel : x.Parallel table table := by
  intro ts ts' hts
  have hname := identifier_parallel hts
  unfold table
  generalize identifier ts = a at hname ⊢
  generalize identifier ts' = b at hname ⊢
  cases hname with
  | fail => exact .fail
  | @done n n' h =>
      obtain ⟨hvalue, hrest⟩ := h
      obtain ⟨halias, hbehind⟩ := optAlias_parallel hrest.abreast
      refine .done ⟨.of_plain ?_ rfl rfl rfl rfl, hrest.trans hbehind, ?_⟩
      · show (⟨n.value, (optAlias n.rest).1⟩ : TableRef) = ⟨n'.value, (optAlias n'.rest).1⟩
        rw [hvalue, halias]
      · show (optAlias n.rest).1.isNone = (optAlias n'.rest).1.isNone
        rw [halias]

theorem rowCount_parallel : x.Parallel rowCount rowCount := by
  intro ts ts' hts
  rcases hts.uncons with ⟨rfl, rfl⟩ | ⟨t, t', rest, rest', rfl, rfl, hsame, hrest⟩
  · exact .fail
  · have hcount : t.count? = t'.count? := hsame.apply fun _ _ _ => rfl
    unfold rowCount
    dsimp only
    rw [hcount]
    cases t'.count? with
    | none => exact .fail
    | some n => exact .done ⟨.of_plain rfl rfl rfl rfl rfl, hrest, rfl⟩

theorem wildcard_parallel : x.Parallel wildcard wildcard := fun _ _ hts =>
  (symbol_parallel .star hts).map fun _ _ hrest => ⟨.of_plain rfl rfl rfl rfl rfl, hrest, rfl⟩

theorem tableWildcard_parallel : x.Parallel tableWildcard tableWildcard := by
  intro ts ts' hts
  rcases hts.uncons with ⟨rfl, rfl⟩ | ⟨t, t', us, us', rfl, rfl, ht, hus⟩
  · exact .fail
  rcases hus.abreast.uncons with ⟨rfl, rfl⟩ | ⟨p, p', vs, vs', rfl, rfl, hp, hvs⟩
  · exact .fail
  rcases hvs.abreast.uncons with ⟨rfl, rfl⟩ | ⟨s, s', rest, rest', rfl, rfl, hs, hrest⟩
  · exact .fail
  have hgap : ∀ {u u' : Token}, x.SameToken u u' → u.gap = u'.gap := by
    rintro u u' (rfl | ⟨rfl, rfl⟩) <;> rfl
  have hkind : ∀ {u u' : Token} (s : Symbol), x.SameToken u u' → u.isSymbol s = u'.isSymbol s := by
    intro u u' s h
    rw [Token.isSymbol, Token.isSymbol, h.kind]
  rw [tableWildcard, tableWildcard, ht.identifier, hgap ht, hgap hp, hkind .dot hp, hkind .star hs]
  cases t'.identifier? with
  | none => exact .fail
  | some name =>
      dsimp only
      split
      · exact .done ⟨.of_plain rfl rfl rfl rfl rfl, (hus.trans hvs).trans hrest, rfl⟩
      · exact .fail

/-- The keywords of a join. -/
theorem joinKind_parallel (hts : x.Abreast ts ts') :
    Together (fun a a' => a.1 = a'.1 ∧ x.Onward ts ts' a.2 a'.2) (joinKind ts) (joinKind ts') := by
  have hjoin : ∀ {us us' : List Token} (kind : JoinKind), x.Onward ts ts' us us' →
      Together (fun a a' => a.1 = a'.1 ∧ x.Onward ts ts' a.2 a'.2)
        ((keyword .join us).bind fun rest => some (kind, rest))
        ((keyword .join us').bind fun rest => some (kind, rest)) := by
    intro us us' kind hus
    exact (keyword_parallel .join hus.abreast).bind fun _ _ hrest => .done ⟨rfl, hus.trans hrest⟩
  have houter : ∀ (k : Keyword) (kind : JoinKind),
      Together (fun a a' => a.1 = a'.1 ∧ x.Onward ts ts' a.2 a'.2)
        ((keyword k ts).bind fun rest =>
          (keyword .join (optKeyword .outer rest).2).bind fun rest => some (kind, rest))
        ((keyword k ts').bind fun rest =>
          (keyword .join (optKeyword .outer rest).2).bind fun rest => some (kind, rest)) := by
    intro k kind
    refine (keyword_parallel k hts).bind fun rest rest' hrest => ?_
    exact hjoin kind (hrest.trans (optKeyword_parallel .outer hrest.abreast).2)
  unfold joinKind
  refine Together.or ?_ ((houter .full .full).or ((houter .left .left).or
    ((houter .right .right).or ?_)))
  · exact (keyword_parallel .cross hts).bind fun rest rest' hrest => hjoin .cross hrest
  · exact hjoin .inner (optKeyword_parallel .inner hts).2

section Expression

variable {e e' : Parser Expr} (he : x.Parallel e e')
include he

/-- Items differ in their texts only. -/
theorem item_parallel : x.Parallel (item e) (item e') := by
  rw [item_eq, item_eq]
  refine wildcard_parallel.orElse (tableWildcard_parallel.orElse fun ts ts' hts => ?_)
  have hread := he ts ts' hts
  unfold aliased
  generalize e ts = a at hread ⊢
  generalize e' ts' = b at hread ⊢
  cases hread with
  | fail => exact .fail
  | @done t t' ht =>
      obtain ⟨halias, hbehind⟩ := optAlias_parallel ht.onward.abreast
      refine .done ⟨⟨?_, .cons (ht.text hts) ht.value.sameTexts, .nil⟩,
        ht.onward.trans hbehind, ?_⟩
      · show SelectItem.expr (skeleton t.value) (optAlias t.rest).1 ""
          = .expr (skeleton t'.value) (optAlias t'.rest).1 ""
        rw [halias, ht.value.sameSkeleton]
      · show (optAlias t.rest).1.isNone = (optAlias t'.rest).1.isNone
        rw [halias]

/-- The condition of a join, with its text. -/
theorem onCondition_parallel (hts : x.Abreast ts ts') :
    Together (fun c c' => x.Step ts ts' c.1 c'.1 ∧ x.SameText c.2 c'.2)
      (onCondition e ts) (onCondition e' ts') := by
  refine (keyword_parallel .on hts).bind fun rest rest' hrest => ?_
  exact (he rest rest' hrest.abreast).map fun c c' hc => ⟨hc.behind hrest, hc.text hrest.abreast⟩

/-- Joins differ in their texts and places only. -/
theorem join_parallel : x.Parallel (join e x.size) (join e' x.size') := by
  intro ts ts' hts
  rw [join_eq, join_eq]
  refine (joinKind_parallel hts).bind ?_
  rintro ⟨kind, rest⟩ ⟨kind', rest'⟩ ⟨rfl, hrest⟩
  refine (table_parallel rest rest' hrest.abreast).map fun right right' hright => ?_
  have htable : right.value = right'.value := hright.value.sameSkeleton
  have hon := hrest.trans hright.onward
  have hcondition := onCondition_parallel he hright.onward.abreast
  generalize onCondition e right.rest = a at hcondition ⊢
  generalize onCondition e' right'.rest = b at hcondition ⊢
  dsimp only
  rw [htable]
  cases hcondition with
  | fail =>
      refine ⟨⟨rfl, .nil, .cons ?_ .nil⟩, hon, rfl⟩
      exact (place hts hon).span rfl rfl rfl
  | @done c c' h =>
      obtain ⟨c, text⟩ := c
      obtain ⟨c', text'⟩ := c'
      obtain ⟨hc, htext⟩ := h
      have hwhole := hon.trans hc.onward
      refine ⟨⟨?_, ?_, .cons ?_ .nil⟩, hwhole, hc.open_eq⟩
      · show Join.mk kind right'.value (some (skeleton c.value)) (some "") ⟨0, 0⟩
          = ⟨kind, right'.value, some (skeleton c'.value), some "", ⟨0, 0⟩⟩
        rw [hc.value.sameSkeleton]
      · exact .cons htext hc.value.some.sameTexts
      · exact (place hts hwhole).span rfl rfl hc.open_eq

theorem groupKey_parallel :
    x.Parallel (StatementParser.groupKey e) (StatementParser.groupKey e') := by
  intro ts ts' hts
  refine (he ts ts' hts).map fun t t' ht =>
    ⟨⟨?_, .cons (ht.text hts) ht.value.sameTexts, .nil⟩, ht.onward, ht.open_eq⟩
  show GroupKey.mk (skeleton t.value) "" = ⟨skeleton t'.value, ""⟩
  rw [ht.value.sameSkeleton]

theorem sortKey_parallel : x.Parallel (sortKey e) (sortKey e') := by
  intro ts ts' hts
  refine (he ts ts' hts).map fun t t' ht => ?_
  have hvalue : ∀ descending, Corresponds x.SameText x.SameSpan
      (⟨t.value, descending, t.text ts⟩ : SortKey) ⟨t'.value, descending, t'.text ts'⟩ := by
    intro descending
    refine ⟨?_, .cons (ht.text hts) ht.value.sameTexts, .nil⟩
    show SortKey.mk (skeleton t.value) descending "" = ⟨skeleton t'.value, descending, ""⟩
    rw [ht.value.sameSkeleton]
  have hasc := keyword_parallel .asc ht.onward.abreast
  have hdesc := keyword_parallel .desc ht.onward.abreast
  dsimp only
  generalize keyword .asc t.rest = a at hasc ⊢
  generalize keyword .asc t'.rest = b at hasc ⊢
  generalize keyword .desc t.rest = c at hdesc ⊢
  generalize keyword .desc t'.rest = d at hdesc ⊢
  cases hasc with
  | done hrest => exact ⟨hvalue false, ht.onward.trans hrest, rfl⟩
  | fail =>
      cases hdesc with
      | done hrest => exact ⟨hvalue true, ht.onward.trans hrest, rfl⟩
      | fail => exact ⟨hvalue false, ht.onward, rfl⟩

omit he in
/-- The words that open a clause stand in both or in neither. -/
theorem keywords_parallel (ks : List Keyword) (hts : x.Abreast ts ts') :
    Together (x.Onward ts ts') (ks.foldlM (fun ts k => keyword k ts) ts)
      (ks.foldlM (fun ts k => keyword k ts) ts') := by
  induction ks generalizing ts ts' with
  | nil => exact .done hts.onward
  | cons k ks ih =>
      rw [List.foldlM_cons, List.foldlM_cons]
      refine (keyword_parallel k hts).bind fun rest rest' hrest => ?_
      exact (ih hrest.abreast).mono fun _ _ h => hrest.trans h

omit he in
/-- A clause differs where its body does, and in its place. -/
theorem clause_parallel {α : Type} [Written α] {p p' : Parser α} (h : x.Parallel p p')
    (ks : List Keyword) : x.Parallel (clause x.size ks p) (clause x.size' ks p') := by
  intro ts ts' hts
  refine (keywords_parallel ks hts).bind fun rest rest' hrest => ?_
  refine (h rest rest' hrest.abreast).bind fun b b' hb => ?_
  have hon := hrest.trans hb.onward
  refine .done ⟨⟨?_, .cons (hb.text hrest.abreast) hb.value.sameTexts,
    .cons ((place hts hon).span rfl rfl hb.open_eq) hb.value.sameSpans⟩, hon, hb.open_eq⟩
  show Located.mk (skeleton b.value) ⟨0, 0⟩ "" = ⟨skeleton b'.value, ⟨0, 0⟩, ""⟩
  rw [hb.value.sameSkeleton]

/-- The clauses from SELECT on, on lists abreast. -/
theorem select_parallel (hts : x.Abreast ts ts') :
    Together (fun a a' => Corresponds x.SameText x.SameSpan a.1 a'.1 ∧ x.Onward ts ts' a.2 a'.2)
      (select e x.size ts) (select e' x.size' ts') := by
  -- clause by clause, each from where the one before it has stopped
  unfold select
  refine (keyword_parallel .select hts).bind fun rest rest' hrest => ?_
  obtain ⟨hdistinct, hlist⟩ := optKeyword_parallel .distinct hrest.abreast
  refine ((item_parallel he).commaList _ _ hlist.abreast).bind fun items items' hitems => ?_
  have hfromTokens := (hrest.trans hlist).trans hitems.onward
  refine (keyword_parallel .from hitems.onward.abreast).bind fun sources sources' hsources => ?_
  refine (table_parallel.commaList _ _ hsources.abreast).bind fun tables tables' htables => ?_
  have hjoins := (join_parallel he).many htables.onward.abreast
  obtain ⟨hfilter, hafterFilter⟩ := (clause_parallel he [.where]).optional hjoins.onward.abreast
  obtain ⟨hgroup, hafterGroup⟩ :=
    (clause_parallel (groupKey_parallel he).commaList [.group, .by]).optional hafterFilter.abreast
  obtain ⟨hhaving, hafterHaving⟩ := (clause_parallel he [.having]).optional hafterGroup.abreast
  obtain ⟨horder, hafterOrder⟩ :=
    (clause_parallel (sortKey_parallel he).commaList [.order, .by]).optional hafterHaving.abreast
  obtain ⟨hlimit, hafterLimit⟩ :=
    (clause_parallel rowCount_parallel [.limit]).optional hafterOrder.abreast
  obtain ⟨hoffset, hafterOffset⟩ :=
    (clause_parallel rowCount_parallel [.offset]).optional hafterLimit.abreast
  -- tables have no text of their own, so they are equal, not just alike
  have hvalue : tables.value = tables'.value := by
    have h := htables.value.sameSkeleton
    rwa [show skeleton tables.value = tables.value from List.map_id _,
      show skeleton tables'.value = tables'.value from List.map_id _] at h
  have hitemsSpan := (place hlist.abreast hitems.onward).span rfl rfl hitems.open_eq
  have hfromSpan := (place hitems.onward.abreast (hsources.trans htables.onward)).span
    rfl rfl htables.open_eq
  have hon := (((((((((hfromTokens.trans hsources).trans htables.onward).trans hjoins.onward).trans
    hafterFilter).trans hafterGroup).trans hafterHaving).trans hafterOrder).trans
    hafterLimit).trans hafterOffset)
  dsimp only
  rw [hvalue]
  cases hbase : tables'.value with
  | nil => exact .fail
  | cons base more =>
      exact .done ⟨.select hdistinct rfl hitems.value hitemsSpan hfromSpan hjoins.value hfilter
        hgroup hhaving horder hlimit hoffset, hon⟩

end Expression

/-- Of lists abreast both are at the end of the statement or neither. -/
theorem Abreast.ended (h : x.Abreast ts ts') : Ended ts ↔ Ended ts' := by
  have hempty : ∀ {us us' : List Token}, x.Abreast us us' → (us = [] ↔ us' = []) := by
    intro us us' hus
    rw [← List.length_eq_zero_iff, ← List.length_eq_zero_iff, hus.length]
  have hread := symbol_parallel .semicolon h
  unfold Ended
  generalize symbol .semicolon ts = a at hread ⊢
  generalize symbol .semicolon ts' = b at hread ⊢
  cases hread with
  | fail => exact hempty h
  | done hrest => exact hempty hrest.abreast

end Exchange

/-! ## Text literals in their order -/

/-- Only a text has a content. -/
theorem Token.content_nil {t : Token} (h : t.kind ≠ .text) : t.content?.toList = [] := by
  rw [content?, if_neg (fun hk => h (beq_iff_eq.mp hk))]
  rfl

/-- The content of a token is that of the literal it is read as. -/
theorem string_of_literal {t : Token} {v : Literal} (h : literal? t = some v) :
    t.content?.toList = v.string?.toList := by
  have hother : t.kind ≠ .text → v.string? = none → t.content?.toList = v.string?.toList := by
    intro hk hv
    rw [Token.content_nil hk, hv]
    rfl
  unfold literal? at h
  split at h
  · rename_i hk
    obtain rfl := Option.some.inj h
    refine hother (by rw [hk]; decide) ?_
    unfold ExprParser.numberLiteral
    dsimp only
    split <;> rfl
  · obtain ⟨s, hs, rfl⟩ := Option.map_eq_some_iff.mp h
    rw [hs]
    rfl
  case h_6 => cases h
  all_goals
    rename_i hk
    obtain rfl := Option.some.inj h
    exact hother (by rw [hk]; decide) rfl

/-- The values of text literals. -/
def stringTally : Tally String where
  toLeaves := stringLeaves
  good _ := True
  ofToken t := t.content?.toList
  symbol_nil h := Token.content_nil (by rw [h]; exact nofun)
  number_nil h := Token.content_nil (by rw [h]; exact nofun)
  keyword_nil h _ := Token.content_nil (by rw [h]; exact nofun)
  identifier_nil _ h := by
    rcases Token.kind_of_identifier h with hk | hk <;>
      exact Token.content_nil (by simp [hk])
  literal_eq := string_of_literal
  call_eq _ h := by
    unfold Token.functionName? at h
    split at h
    · rename_i hk
      exact Token.content_nil (by simp [hk])
    · rename_i hk
      exact Token.content_nil (by simp [hk])
    · exact nomatch h

/-- The text literals of a statement are those of its tokens. -/
theorem strings_of_parse {sql lead : String} {tokens : List Token} {s : Select}
    (hcut : TokenStream.ofString? sql = some ⟨lead, tokens⟩) (h : parse sql = .ok s) :
    s.strings = tokens.flatMap fun t => t.content?.toList := by
  obtain ⟨lead', tokens', rest, hcut', hselect, hended, -⟩ := parse_iff.mp h
  obtain ⟨-, rfl⟩ := TokenStream.mk.inj (Option.some.inj (hcut.symm.trans hcut'))
  have hgood : stringTally.Good tokens := fun _ _ => trivial
  have hkeywords : ∀ {t : Token} {k : Keyword}, t.kind = .keyword k → stringTally.ofToken t = [] :=
    fun hk => Token.content_nil (by simp [hk])
  obtain ⟨used, rfl, hused⟩ := Tally.select_passes (Tally.expr_tallied _) hkeywords hgood hselect
  have hrest : rest.flatMap (fun t => t.content?.toList) = [] := by
    rcases hended.cases with rfl | ⟨t, rfl, ht⟩
    · rfl
    · rw [List.flatMap_cons, List.flatMap_nil, Token.content_nil (by rw [ht]; exact nofun)]
      rfl
  rw [List.flatMap_append, hrest, List.append_nil]
  exact hused.symm

/-- A literal without quotes inside has its body as value. -/
theorem content_inMarks {s : String} (h : '\'' ∉ s.toList) (gap : String) :
    (⟨.text, inMarks s, gap⟩ : Token).content? = some s := by
  have hplain : ∀ cs : List Char, '\'' ∉ cs → Token.undouble cs = cs := by
    intro cs
    induction cs with
    | nil => exact fun _ => rfl
    | cons c cs ih =>
        intro hcs
        rw [Token.undouble, ih fun hc => hcs (List.mem_cons_of_mem c hc)]
        rintro rest rfl -
        exact hcs List.mem_cons_self
  show some (String.ofList (Token.undouble (((inMarks s).toList.drop 1).dropLast))) = some s
  rw [inMarks_toList, List.drop_succ_cons, List.drop_zero, List.dropLast_concat, hplain _ h,
    String.ofList_toList]

/-! ## The two statements -/

/-- The statements say the same but for the value of one text literal, which
    begins at `offset`: they have one skeleton, the same text literals in front of
    it and behind it, texts that are equal around it, and places that are the same
    or as far behind it. -/
structure SameButLiteral (offset : Nat) (here there : String) (a b : Select) : Prop where
  skeleton : skeleton a = skeleton b
  strings : ∃ before behind, a.strings = before ++ here :: behind
    ∧ b.strings = before ++ there :: behind
  texts : List.Forall₂ (SameAround here there) (texts a) (texts b)
  spans : List.Forall₂ (SamePlace offset here there) (spans a) (spans b)

/-- Results that are there together are both accepted or both rejected. -/
theorem Together.accepted {ε α : Type} {r : α → α → Prop} {x y : Except ε α}
    (h : Together r x.toOption y.toOption) :
    (x.isOk = true ↔ y.isOk = true) ∧ ∀ a b, x = .ok a → y = .ok b → r a b := by
  cases x with
  | error _ =>
      cases y with
      | error _ => exact ⟨Iff.rfl, fun _ _ hx => nomatch hx⟩
      | ok _ => exact nomatch h
  | ok a =>
      cases y with
      | error _ => exact nomatch h
      | ok b =>
          refine ⟨Iff.rfl, ?_⟩
          rintro _ _ ⟨⟩ ⟨⟩
          cases h with
          | done hab => exact hab

theorem toOption_none {ε α : Type} {x : Except ε α} (h : ∀ a, x ≠ .ok a) : x.toOption = none := by
  cases x with
  | error _ => rfl
  | ok a => exact absurd rfl (h a)

/-- A text is accepted by its tokens. -/
theorem parse_of_cut {sql lead : String} {tokens : List Token}
    (hcut : TokenStream.ofString? sql = some ⟨lead, tokens⟩) (s : Select) :
    parse sql = .ok s ↔ ∃ rest, select (expr (tokens.length + 1)) sql.utf8ByteSize tokens
      = some (s, rest) ∧ Ended rest ∧ s.tree.Fits := by
  constructor
  · intro h
    obtain ⟨lead', tokens', rest, hcut', hselect, hended, hfits⟩ := parse_iff.mp h
    obtain ⟨-, rfl⟩ := TokenStream.mk.inj (Option.some.inj (hcut.symm.trans hcut'))
    exact ⟨rest, hselect, hended, hfits⟩
  · rintro ⟨rest, hselect, hended, hfits⟩
    exact parse_iff.mpr ⟨lead, tokens, rest, hcut, hselect, hended, hfits⟩

/-- Row counts are part of the skeleton. -/
theorem Corresponds.fits {T : String → String → Prop} {S : Span → Span → Prop} {s s' : Select}
    (h : Corresponds T S s s') : s.tree.Fits ↔ s'.tree.Fits := by
  have hcount : ∀ {c c' : Option (Located Nat)}, Sql.skeleton c = Sql.skeleton c' →
      c.map Located.node = c'.map Located.node := by
    intro c c' hc
    cases c with
    | none =>
        cases c' with
        | none => rfl
        | some _ => exact nomatch hc
    | some c =>
        cases c' with
        | none => exact nomatch hc
        | some c' =>
            have hnode : c.node = c'.node := (Located.mk.inj (Option.some.inj hc)).1
            exact congrArg Option.some hnode
  have hlimit : Sql.skeleton s.limit = Sql.skeleton s'.limit := congrArg Select.limit h.sameSkeleton
  have hoffset : Sql.skeleton s.offset = Sql.skeleton s'.offset :=
    congrArg Select.offset h.sameSkeleton
  rw [fits_iff, fits_iff, checkCount_iff, checkCount_iff, checkCount_iff, checkCount_iff,
    hcount hlimit, hcount hoffset]

/-- Two texts whose tokens differ in one literal are both rejected, or correspond. -/
theorem Exchange.parse_parallel {x : Exchange} {sql sql' lead : String} {front : List Token}
    (hcut : TokenStream.ofString? sql = some ⟨lead, front ++ x.left :: x.back⟩)
    (hcut' : TokenStream.ofString? sql' = some ⟨lead, front ++ x.right :: x.back⟩)
    (hsize : sql.utf8ByteSize = x.size) (hsize' : sql'.utf8ByteSize = x.size')
    (hfront : byteSize front ≤ x.offset) :
    Together (Corresponds x.SameText x.SameSpan) (parse sql).toOption (parse sql').toOption := by
  have habreast : x.Abreast (front ++ x.left :: x.back) (front ++ x.right :: x.back) :=
    .before hfront
  have hselect := select_parallel
    (expr_parallel ((front ++ x.left :: x.back).length + 1)) habreast
  -- both statements are accepted on the same conditions, and these agree
  have hread := parse_of_cut hcut
  have hread' := parse_of_cut hcut'
  rw [hsize] at hread
  rw [hsize', ← habreast.length] at hread'
  generalize select _ x.size _ = a at hselect hread
  generalize select _ x.size' _ = b at hselect hread'
  cases hselect with
  | fail =>
      have hnone : (parse sql).toOption = none := toOption_none fun s hs => by
        obtain ⟨rest, hselect, -⟩ := (hread s).mp hs
        exact nomatch hselect
      have hnone' : (parse sql').toOption = none := toOption_none fun s hs => by
        obtain ⟨rest, hselect, -⟩ := (hread' s).mp hs
        exact nomatch hselect
      rw [hnone, hnone']
      exact .fail
  | @done y y' h =>
      obtain ⟨s, rest⟩ := y
      obtain ⟨s', rest'⟩ := y'
      obtain ⟨hvalue, hrest⟩ := h
      have hended : Ended rest ↔ Ended rest' := hrest.abreast.ended
      have hfits : s.tree.Fits ↔ s'.tree.Fits := hvalue.fits
      by_cases hok : Ended rest ∧ s.tree.Fits
      · rw [(hread s).mpr ⟨rest, rfl, hok⟩,
          (hread' s').mpr ⟨rest', rfl, hended.mp hok.1, hfits.mp hok.2⟩]
        exact .done hvalue
      · have hnone : (parse sql).toOption = none := toOption_none fun r hr => by
          obtain ⟨_, heq, h⟩ := (hread r).mp hr
          obtain ⟨rfl, rfl⟩ := Prod.mk.inj (Option.some.inj heq)
          exact hok h
        have hnone' : (parse sql').toOption = none := toOption_none fun r hr => by
          obtain ⟨_, heq, hrestEnded, hrestFits⟩ := (hread' r).mp hr
          obtain ⟨rfl, rfl⟩ := Prod.mk.inj (Option.some.inj heq)
          exact hok ⟨hended.mpr hrestEnded, hfits.mpr hrestFits⟩
        rw [hnone, hnone']
        exact .fail

/-- The two statements are both rejected, or say the same but for the literal. -/
theorem parse_together {p t s₁ s₂ : String} (hp : EndsOutside p.toList)
    (hend : p.toList.getLast? ≠ some '\'') (ht : t.toList.head? ≠ some '\'')
    (h₁ : '\'' ∉ s₁.toList) (h₂ : '\'' ∉ s₂.toList) :
    Together (SameButLiteral p.utf8ByteSize s₁ s₂)
      (parse (p ++ inMarks s₁ ++ t)).toOption (parse (p ++ inMarks s₂ ++ t)).toOption := by
  -- The tokens of the whole are those of the parts around the literal, if both parts have tokens.
  -- So either both texts have none, or the streams differ in one token and the parsers run in
  -- parallel on them.
  have hrejected : (∀ s, '\'' ∉ s.toList → TokenStream.ofString? (p ++ inMarks s ++ t) = none) →
      Together (SameButLiteral p.utf8ByteSize s₁ s₂)
        (parse (p ++ inMarks s₁ ++ t)).toOption (parse (p ++ inMarks s₂ ++ t)).toOption := by
    intro hnone
    rw [parse, parse, hnone s₁ h₁, hnone s₂ h₂]
    exact .fail
  cases hfront : TokenStream.ofString? p with
  | none => exact hrejected fun s hs => by rw [ofString_literal hp hend hs ht, hfront]; rfl
  | some front =>
  cases hbehind : TokenStream.ofString? t with
  | none => exact hrejected fun s hs => by rw [ofString_literal hp hend hs ht, hfront, hbehind]; rfl
  | some behind =>
      obtain ⟨lead, front⟩ := front
      obtain ⟨gap, back⟩ := behind
      have hcut : ∀ s, '\'' ∉ s.toList → TokenStream.ofString? (p ++ inMarks s ++ t)
          = some ⟨lead, front ++ ⟨.text, inMarks s, gap⟩ :: back⟩ := by
        intro s hs
        rw [ofString_literal hp hend hs ht, hfront, hbehind]
        rfl
      -- the offsets behind the literal are counted from the end, where both texts agree
      have hsize : ∀ s, (p ++ inMarks s ++ t).utf8ByteSize
          = p.utf8ByteSize + byteSize (⟨.text, inMarks s, gap⟩ :: back) := by
        intro s
        have hbytes : t.utf8ByteSize = gap.utf8ByteSize + byteSize back := by
          rw [Text.utf8ByteSize_eq_bytes, toList_of_stream hbehind, Text.bytes_append,
            ← Text.utf8ByteSize_eq_bytes, byteSize_eq]
        rw [String.utf8ByteSize_append, String.utf8ByteSize_append, hbytes,
          Exchange.byteSize_cons]
        dsimp only
        omega
      have hfrontSize : byteSize front ≤ p.utf8ByteSize := by
        rw [Text.utf8ByteSize_eq_bytes, toList_of_stream hfront, Text.bytes_append, byteSize_eq]
        exact Nat.le_add_left _ _
      have hparallel := Exchange.parse_parallel (x := ⟨s₁, s₂, gap, back, p.utf8ByteSize⟩)
        (hcut s₁ h₁) (hcut s₂ h₂) (hsize s₁) (hsize s₂) hfrontSize
      have hstrings : ∀ s r, '\'' ∉ s.toList → parse (p ++ inMarks s ++ t) = .ok r →
          r.strings = front.flatMap (fun t => t.content?.toList)
            ++ s :: back.flatMap fun t => t.content?.toList := by
        intro s r hs hr
        rw [strings_of_parse (hcut s hs) hr, List.flatMap_append, List.flatMap_cons,
          content_inMarks hs]
        rfl
      generalize hx : parse (p ++ inMarks s₁ ++ t) = y at hparallel ⊢
      generalize hx' : parse (p ++ inMarks s₂ ++ t) = y' at hparallel ⊢
      cases y with
      | error _ =>
          cases y' with
          | error _ => exact .fail
          | ok _ => exact nomatch hparallel
      | ok a =>
          cases y' with
          | error _ => exact nomatch hparallel
          | ok b =>
              cases hparallel with
              | done h =>
                  exact .done ⟨h.sameSkeleton, ⟨_, _, hstrings s₁ a h₁ hx, hstrings s₂ b h₂ hx'⟩,
                    h.sameTexts, h.sameSpans⟩

/-- What a text literal holds does not matter: with another literal in its place a
    statement is still accepted or still rejected, and says the same but for
    the value of that literal. -/
theorem parse_inert {p t s₁ s₂ : String} (hp : EndsOutside p.toList)
    (hend : p.toList.getLast? ≠ some '\'') (ht : t.toList.head? ≠ some '\'')
    (h₁ : '\'' ∉ s₁.toList) (h₂ : '\'' ∉ s₂.toList) :
    ((parse (p ++ inMarks s₁ ++ t)).isOk = true ↔ (parse (p ++ inMarks s₂ ++ t)).isOk = true)
      ∧ ∀ a b, parse (p ++ inMarks s₁ ++ t) = .ok a → parse (p ++ inMarks s₂ ++ t) = .ok b →
        SameButLiteral p.utf8ByteSize s₁ s₂ a b :=
  (parse_together hp hend ht h₁ h₂).accepted

/-- Marks that would end the statement or begin a comment, in an accepted statement. -/
theorem parse_inert_marks :
    (parse ("SELECT a FROM t WHERE b = " ++ inMarks "; DROP TABLE t /* (" ++ " AND c = 1")).isOk
        = true
      ∧ ((parse ("SELECT a FROM t WHERE b = " ++ inMarks "; DROP TABLE t /* (" ++ " AND c = 1")).isOk
            = true
          ↔ (parse ("SELECT a FROM t WHERE b = " ++ inMarks "x" ++ " AND c = 1")).isOk = true)
      ∧ ∀ a b,
        parse ("SELECT a FROM t WHERE b = " ++ inMarks "; DROP TABLE t /* (" ++ " AND c = 1") = .ok a →
        parse ("SELECT a FROM t WHERE b = " ++ inMarks "x" ++ " AND c = 1") = .ok b →
        SameButLiteral "SELECT a FROM t WHERE b = ".utf8ByteSize "; DROP TABLE t /* (" "x" a b :=
  ⟨by decide +kernel, parse_inert (by decide) (by decide) (by decide) (by decide) (by decide)⟩

end QueryReplay.Sql
