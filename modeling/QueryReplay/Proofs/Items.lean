import QueryReplay.Proofs.Clauses

/-! # Items — SELECT lists put together from items

    An item is read the same way in front of any edge (`ReadsItem`), so items
    can be put together with commas between them.  A list that was read comes
    apart into such items (`listed_of_commaList`), and what is put together from
    them is read as their list (`Listed.commaList`). -/

namespace QueryReplay.Sql

open QueryReplay.Sql.Parser QueryReplay.Sql.StatementParser
open QueryReplay.Sql.ExprParser (expr)
open Lexer (Apart IsFinal)

/-! ## One item -/

/-- An expression with or without an alias. -/
def aliased (e : Parser Expr) : Parser SelectItem := fun ts =>
  match e ts with
  | some e =>
    let name := optAlias e.rest
    some ⟨.expr e.value name.1 (e.text ts), name.2, name.1.isNone⟩
  | none => none

theorem item_eq (e : Parser Expr) : item e = wildcard.orElse (tableWildcard.orElse (aliased e)) :=
  rfl

/-- An item is a star, a table with a star, or an expression with or without an alias. -/
theorem item_cases {e : Parser Expr} {ts : List Token} {t : Taken SelectItem}
    (h : item e ts = some t) :
    wildcard ts = some t ∨ wildcard ts = none ∧ tableWildcard ts = some t
      ∨ wildcard ts = none ∧ tableWildcard ts = none ∧ aliased e ts = some t := by
  rcases orElse_cases h with hwild | ⟨hwild, h⟩
  · exact .inl hwild
  · rcases orElse_cases h with htable | ⟨htable, h⟩
    · exact .inr (.inl ⟨hwild, htable⟩)
    · exact .inr (.inr ⟨hwild, htable, h⟩)

theorem aliased_some {e : Parser Expr} (he : Takes e) {ts : List Token} {t : Taken SelectItem}
    (h : aliased e ts = some t) : ∃ used, ts = used ++ t.rest ∧ Phrase used := by
  unfold aliased at h
  cases hread : e ts with
  | none => rw [hread] at h; exact nomatch h
  | some c =>
      rw [hread] at h
      obtain rfl := Option.some.inj h
      obtain ⟨used, rfl, hused⟩ := he ts c hread
      obtain ⟨more, hmore, hextends⟩ := optAlias_extends c.rest
      refine ⟨used ++ more, ?_, hextends used hused⟩
      rw [List.append_assoc]
      exact congrArg (used ++ ·) hmore

theorem wildcard_some {ts : List Token} {t : Taken SelectItem} (h : wildcard ts = some t) :
    ∃ star, ts = star :: t.rest ∧ star.kind = .symbol .star ∧ t.value = .wildcard := by
  obtain ⟨rest, hread, rfl⟩ := Option.map_eq_some_iff.mp h
  obtain ⟨star, rfl, hstar⟩ := symbol_some hread
  exact ⟨star, rfl, hstar, rfl⟩

theorem wildcard_none {t : Token} {ts : List Token} :
    wildcard (t :: ts) = none ↔ t.kind ≠ .symbol .star := by
  show (if t.isSymbol .star = true then some ts else none).map _ = none ↔ _
  by_cases h : t.isSymbol .star = true
  · rw [if_pos h]
    exact ⟨nofun, fun hk => absurd (beq_iff_eq.mp h) hk⟩
  · rw [if_neg h]
    exact ⟨fun _ hk => h (beq_iff_eq.mpr hk), fun _ => rfl⟩

/-- The name, the point and the star of `t.*`. -/
theorem tableWildcard_some {ts : List Token} {t : Taken SelectItem} (h : tableWildcard ts = some t) :
    ∃ name a point star, ts = a :: point :: star :: t.rest ∧ a.identifier? = some name
      ∧ a.gap.isEmpty = true ∧ point.kind = .symbol .dot ∧ point.gap.isEmpty = true
      ∧ star.kind = .symbol .star ∧ t.value = .tableWildcard name := by
  unfold tableWildcard at h
  split at h
  · rename_i a point star rest
    split at h
    · rename_i name hname
      split at h
      · rename_i hcond
        simp only [Bool.and_eq_true] at hcond
        obtain ⟨⟨⟨hgap, hpoint⟩, hpointGap⟩, hstar⟩ := hcond
        obtain rfl := Option.some.inj h
        exact ⟨name, a, point, star, rfl, hname, hgap, beq_iff_eq.mp hpoint, hpointGap,
          beq_iff_eq.mp hstar, rfl⟩
      · exact nomatch h
    · exact nomatch h
  · exact nomatch h

theorem tableWildcard_of {name : String} {a point star : Token} (rest : List Token)
    (hname : a.identifier? = some name) (hgap : a.gap.isEmpty = true)
    (hpoint : point.kind = .symbol .dot) (hpointGap : point.gap.isEmpty = true)
    (hstar : star.kind = .symbol .star) :
    tableWildcard (a :: point :: star :: rest) = some ⟨.tableWildcard name, rest, false⟩ := by
  rw [tableWildcard]
  rw [hname, hgap, hpointGap, show point.isSymbol .dot = true from beq_iff_eq.mpr hpoint,
    show star.isSymbol .star = true from beq_iff_eq.mpr hstar]
  rfl

/-- The tokens of an item: no slash with a star behind it, and a final token at
    the end. -/
structure ItemShape (front : List Token) (t : Token) : Prop where
  apart : (front ++ [t]).IsChain Apart
  final : IsFinal t

/-- The gap behind an item does not matter. -/
theorem ItemShape.gap {front : List Token} {t : Token} (h : ItemShape front t) (gap : String) :
    ItemShape front { t with gap } := by
  obtain ⟨hfront, -, hseam⟩ := List.isChain_append.mp h.apart
  refine ⟨List.isChain_append.mpr ⟨hfront, .singleton _, fun x hx y hy => ?_⟩, h.final⟩
  obtain rfl : ({ t with gap } : Token) = y := Option.some.inj hy
  exact hseam x hx t rfl

theorem Phrase.itemShape {front : List Token} {t : Token} (h : Phrase (front ++ [t])) :
    ItemShape front t :=
  ⟨h.apart, Token.isFinal_of_endsPhrase h.endsPhrase⟩

theorem isFinal_star {t : Token} (h : t.kind = .symbol .star) : IsFinal t := by
  refine ⟨?_, ?_, ?_⟩ <;> (rw [h]; decide)

theorem item_some {e : Parser Expr} (he : Takes e) {ts : List Token} {t : Taken SelectItem}
    (h : item e ts = some t) : ∃ front u, ts = front ++ u :: t.rest ∧ ItemShape front u := by
  rcases item_cases h with hwild | ⟨-, htable⟩ | ⟨-, -, haliased⟩
  · obtain ⟨star, hts, hstar, -⟩ := wildcard_some hwild
    exact ⟨[], star, hts, .singleton star, isFinal_star hstar⟩
  · obtain ⟨name, a, point, star, hts, hname, -, hpoint, -, hstar, -⟩ :=
      tableWildcard_some htable
    have ha := Token.ne_slash_of_endsPhrase (Token.of_identifier hname).2
    refine ⟨[a, point], star, hts, List.isChain_cons_cons.mpr ⟨fun h => ha h.1,
      List.isChain_cons_cons.mpr ⟨fun h => ?_, .singleton star⟩⟩, isFinal_star hstar⟩
    rw [hpoint] at h
    exact nomatch h.1
  · obtain ⟨used, hused, hphrase⟩ := aliased_some he haliased
    obtain ⟨front, u, rfl, -⟩ := hphrase.ends
    exact ⟨front, u, by rw [hused, List.append_assoc]; rfl, hphrase.itemShape⟩

/-- The tokens are read as the item in front of any edge, whatever the gap
    behind them. -/
def ReadsItem (front : List Token) (t : Token) (v : SelectItem) : Prop :=
  ∀ (gap : String) (rest : List Token) (depth : Nat), Edge rest → front.length + 2 ≤ depth →
    ∃ v' o, item (expr depth) (front ++ { t with gap } :: rest) = some ⟨v', rest, o⟩ ∧ v'.bare = v

/-- Without a point behind the first token it is no `t.*`. -/
theorem tableWildcard_none {ts : List Token} (t : Token) (h : symbol .dot ts = none) :
    tableWildcard (t :: ts) = none := by
  cases hread : tableWildcard (t :: ts) with
  | none => rfl
  | some w =>
      obtain ⟨name, a, point, star, hts, -, -, hpoint, -⟩ := tableWildcard_some hread
      obtain ⟨-, rfl⟩ := List.cons.inj hts
      have hdot : symbol .dot (point :: star :: w.rest) = some (star :: w.rest) :=
        if_pos (beq_iff_eq.mpr hpoint)
      exact nomatch h.symm.trans hdot

/-- Tokens that do not begin with `t.*` do not do so in front of others, either,
    unless those begin with a point or a star. -/
theorem tableWildcard_front {used rest rest' : List Token} (hused : used ≠ [])
    (h : tableWildcard (used ++ rest) = none)
    (hrest' : ∀ t ∈ rest'.head?, t.kind ≠ .symbol .dot ∧ t.kind ≠ .symbol .star) :
    tableWildcard (used ++ rest') = none := by
  cases hread : tableWildcard (used ++ rest') with
  | none => rfl
  | some w =>
      obtain ⟨name, a, point, star, hts, hname, hgap, hpoint, hpointGap, hstar, -⟩ :=
        tableWildcard_some hread
      match used, hused with
      | [b], _ =>
          have hrest : rest' = point :: star :: w.rest := (List.cons.inj hts).2
          exact absurd hpoint (hrest' point (by rw [hrest]; rfl)).1
      | [b, c], _ =>
          have hrest : rest' = star :: w.rest := (List.cons.inj (List.cons.inj hts).2).2
          exact absurd hstar (hrest' star (by rw [hrest]; rfl)).2
      | b :: c :: d :: used, _ =>
          obtain ⟨rfl, htail⟩ := List.cons.inj hts
          obtain ⟨rfl, hlast⟩ := List.cons.inj htail
          obtain ⟨rfl, -⟩ := List.cons.inj hlast
          exact nomatch h.symm.trans
            (tableWildcard_of (used ++ rest) hname hgap hpoint hpointGap hstar)

/-- Tokens in front of an edge that are no `t.*` are none in front of another. -/
theorem tableWildcard_relocated {front rest rest' : List Token} {t : Token} (gap : String)
    (hends : t.endsPhrase = true) (hrest' : Edge rest')
    (h : tableWildcard (front ++ t :: rest) = none) :
    tableWildcard (front ++ { t with gap } :: rest') = none := by
  cases front with
  | nil => exact tableWildcard_none _ (hrest'.stop.symbol rfl)
  | cons a front =>
      refine tableWildcard_front (List.cons_ne_nil a front) h (fun u hu => ?_)
      obtain rfl : ({ t with gap } : Token) = u := Option.some.inj hu
      refine ⟨(Token.isFinal_of_endsPhrase hends).2.2, fun hk => ?_⟩
      rw [Token.endsPhrase, show t.kind = .symbol .star from hk] at hends
      cases hends

/-- An alias stands behind AS or by itself. -/
theorem optAlias_some {ts rest : List Token} {name : String} (h : optAlias ts = (some name, rest)) :
    ∃ words u, ts = words ++ u :: rest ∧ u.identifier? = some name
      ∧ (words = [] ∨ ∃ a, words = [a] ∧ a.kind = .keyword .as) := by
  unfold optAlias at h
  cases hname : identifier (optKeyword .as ts).2 with
  | none => rw [hname] at h; exact nomatch (Prod.mk.inj h).1
  | some taken =>
      rw [hname] at h
      obtain ⟨hvalue, rfl⟩ := Prod.mk.inj h
      obtain ⟨u, hu, hidentifier⟩ := identifier_some hname
      rw [Option.some.inj hvalue] at hidentifier
      unfold optKeyword at hu
      cases has : keyword .as ts with
      | none =>
          rw [has] at hu
          exact ⟨[], u, hu, hidentifier, .inl rfl⟩
      | some behind =>
          rw [has] at hu
          obtain ⟨a, hts, ha⟩ := keyword_some has
          exact ⟨[a], u, by rw [hts, ← hu]; rfl, hidentifier, .inr ⟨a, rfl, ha⟩⟩

theorem Token.kind_of_identifier {t : Token} {name : String} (h : t.identifier? = some name) :
    t.kind = .name ∨ t.kind = .quoted := by
  unfold identifier? at h
  split at h
  · rename_i hk
    exact .inl hk
  · rename_i hk
    exact .inr hk
  · exact nomatch h

/-- An identifier, alone or behind AS, is read as an alias. -/
theorem optAlias_of {words : List Token} {u : Token} {name : String} (rest : List Token)
    (hu : u.identifier? = some name)
    (hwords : words = [] ∨ ∃ a, words = [a] ∧ a.kind = .keyword .as) :
    optAlias (words ++ u :: rest) = (some name, rest) := by
  have hidentifier : identifier (u :: rest) = some ⟨name, rest, false⟩ := by
    show u.identifier?.map (fun name => (⟨name, rest, false⟩ : Taken String)) = _
    rw [hu]
    rfl
  have hbehind : (optKeyword .as (words ++ u :: rest)).2 = u :: rest := by
    rcases hwords with rfl | ⟨a, rfl, ha⟩
    · have hnone : keyword .as (u :: rest) = none := by
        refine if_neg (fun hk => ?_)
        have hk : u.kind = .keyword .as := beq_iff_eq.mp hk
        rcases Token.kind_of_identifier hu with h | h <;> exact nomatch h.symm.trans hk
      rw [List.nil_append, optKeyword, hnone]
    · have hsome : keyword .as (a :: u :: rest) = some (u :: rest) :=
        if_pos (beq_iff_eq.mpr ha)
      rw [List.singleton_append, optKeyword, hsome]
  unfold optAlias
  rw [hbehind, hidentifier]

/-- The tokens in front of an alias do not go on with the expression there. -/
theorem alias_head {words rest : List Token} {u : Token} {name : String}
    (hu : u.identifier? = some name)
    (hwords : words = [] ∨ ∃ a, words = [a] ∧ a.kind = .keyword .as) :
    ∀ t ∈ (words ++ u :: rest).head?,
      t.continues = false ∧ t.kind ≠ .symbol .dot ∧ t.kind ≠ .symbol .star := by
  have hkind : ∀ {t : Token}, t.kind = .keyword .as ∨ t.kind = .name ∨ t.kind = .quoted →
      t.continues = false ∧ t.kind ≠ .symbol .dot ∧ t.kind ≠ .symbol .star := by
    rintro t (h | h | h) <;>
      (unfold Token.continues; rw [h]; exact ⟨rfl, by decide, by decide⟩)
  intro t ht
  rcases hwords with rfl | ⟨a, rfl, ha⟩
  · obtain rfl : u = t := Option.some.inj ht
    exact hkind (.inr (Token.kind_of_identifier hu))
  · obtain rfl : a = t := Option.some.inj ht
    exact hkind (.inl ha)

/-- An expression in front of an edge is the same item in front of another. -/
theorem aliased_relocated {depth : Nat} {front rest : List Token} {t : Token} {v : SelectItem}
    {o : Bool} (h : aliased (expr depth) (front ++ t :: rest) = some ⟨v, rest, o⟩)
    (hrest : Edge rest) (hdepth : front.length + 2 ≤ depth) (gap : String)
    {rest' : List Token} (hrest' : Edge rest') {depth' : Nat} (hdepth' : front.length + 2 ≤ depth') :
    ∃ v' o', aliased (expr depth') (front ++ { t with gap } :: rest') = some ⟨v', rest', o'⟩
      ∧ v'.bare = v.bare := by
  have htwin : Twin rest rest' 0 (front.length + 1) (front ++ t :: rest)
      (front ++ { t with gap } :: rest') := by
    obtain ⟨used, hused, hphrase⟩ := aliased_some (expr_takes depth) h
    obtain rfl : used = front ++ [t] :=
      List.append_cancel_right (hused.symm.trans (List.append_cons front t rest))
    exact twin_of_level rfl rfl hphrase.endsPhrase (hphrase.balanced 0)
  have hread := expr_agrees hrest.stop hrest'.stop _ depth depth' hdepth hdepth' 0 _ _ _
    (Nat.lt_succ_self _) (fun hz => absurd hz (Nat.succ_ne_zero _)) htwin
  unfold aliased at h ⊢
  generalize expr depth (front ++ t :: rest) = a at hread h
  generalize expr depth' (front ++ { t with gap } :: rest') = b at hread ⊢
  cases hread with
  | fail => exact nomatch h
  | @done c c' hc =>
      obtain ⟨hvalue, j, -, -, hbehind⟩ := hc
      obtain ⟨halias, i, -, hrests⟩ := optAlias_twins hrest hrest' hbehind
      obtain ⟨rfl, hreached, -⟩ := Taken.mk.inj (Option.some.inj h)
      rw [hreached] at hrests
      refine ⟨_, _, congrArg some (congrArg₂ (Taken.mk _) hrests.reached.2 rfl), ?_⟩
      show SelectItem.expr c'.value _ "" = .expr c.value _ ""
      rw [halias, show c.value = c'.value from hvalue]

/-- An item that was read in front of an edge can be put in front of any other. -/
theorem readsItem_of_item {depth : Nat} {front rest : List Token} {t : Token} {v : SelectItem}
    {o : Bool} (h : item (expr depth) (front ++ t :: rest) = some ⟨v, rest, o⟩) (hrest : Edge rest)
    (hdepth : front.length + 2 ≤ depth) : ReadsItem front t v.bare := by
  intro gap rest' depth' hrest' hdepth'
  -- the head of the tokens is a star or no star, whatever the gap behind it
  have hwild' : wildcard (front ++ t :: rest) = none →
      wildcard (front ++ { t with gap } :: rest') = none := by
    intro hwild
    cases front with
    | nil => exact wildcard_none.mpr (wildcard_none.mp hwild)
    | cons u front => exact wildcard_none.mpr (wildcard_none.mp hwild)
  rcases item_cases h with hwild | ⟨hwild, htable⟩ | ⟨hwild, htable, haliased⟩
  · obtain ⟨star, hts, hstar, rfl⟩ := wildcard_some hwild
    have hfront := List.append_cancel_right
      ((List.append_cons front t rest).symm.trans (hts.trans (List.append_cons [] star rest)))
    obtain ⟨rfl, heq⟩ := List.append_inj' hfront rfl
    obtain rfl := (List.cons.inj heq).1
    have hread : wildcard ({ t with gap } :: rest') = some ⟨.wildcard, rest', false⟩ := by
      show (if ({ t with gap } : Token).isSymbol .star = true then some rest' else none).map _ = _
      rw [if_pos (show ({ t with gap } : Token).isSymbol .star = true from beq_iff_eq.mpr hstar)]
      rfl
    refine ⟨.wildcard, false, ?_, rfl⟩
    rw [List.nil_append, item_eq, Parser.orElse, hread]
  · obtain ⟨name, a, point, star, hts, hname, hgap, hpoint, hpointGap, hstar, rfl⟩ :=
      tableWildcard_some htable
    have hfront := List.append_cancel_right ((List.append_cons front t rest).symm.trans
      (hts.trans (List.append_cons [a, point] star rest)))
    obtain ⟨rfl, heq⟩ := List.append_inj' hfront rfl
    obtain rfl := (List.cons.inj heq).1
    have hread := @tableWildcard_of name a point { t with gap } rest' hname hgap hpoint
      hpointGap hstar
    refine ⟨.tableWildcard name, false, ?_, rfl⟩
    rw [item_eq, Parser.orElse, hwild' hwild]
    dsimp only
    rw [Parser.orElse, show [a, point] ++ { t with gap } :: rest'
      = a :: point :: { t with gap } :: rest' from rfl, hread]
  · have hends : t.endsPhrase = true := by
      obtain ⟨used, hused, hphrase⟩ := aliased_some (expr_takes depth) haliased
      obtain rfl : used = front ++ [t] :=
        List.append_cancel_right (hused.symm.trans (List.append_cons front t rest))
      exact hphrase.endsPhrase
    rw [item_eq, Parser.orElse, hwild' hwild]
    dsimp only
    rw [Parser.orElse, tableWildcard_relocated gap hends hrest' htable]
    exact aliased_relocated haliased hrest hdepth gap hrest' hdepth'

/-! ## Items with aliases -/

/-- An expression in front of tokens that do not go on with it is read the same in front
    of others that do not, and is no other kind of item there. -/
theorem expr_relocated {depth : Nat} {front rest : List Token} {t : Token} {e : Expr} {o : Bool}
    (h : expr depth (front ++ t :: rest) = some ⟨e, rest, o⟩) (hrest : Stop rest)
    (htable : tableWildcard (front ++ t :: rest) = none) (hdepth : front.length + 2 ≤ depth)
    (gap : String) {rest' : List Token} (hrest' : Stop rest') {depth' : Nat}
    (hdepth' : front.length + 2 ≤ depth') :
    ∃ o', expr depth' (front ++ { t with gap } :: rest') = some ⟨e, rest', o'⟩
      ∧ wildcard (front ++ { t with gap } :: rest') = none
      ∧ tableWildcard (front ++ { t with gap } :: rest') = none := by
  obtain ⟨used, hused, hphrase⟩ := expr_takes depth _ _ h
  obtain rfl : used = front ++ [t] :=
    List.append_cancel_right (hused.symm.trans (List.append_cons front t rest))
  have htwin : Twin rest rest' 0 (front.length + 1) (front ++ t :: rest)
      (front ++ { t with gap } :: rest') :=
    twin_of_level rfl rfl hphrase.endsPhrase (hphrase.balanced 0)
  have hread := expr_agrees hrest hrest' _ depth depth' hdepth hdepth' 0 _ _ _
    (Nat.lt_succ_self _) (fun hz => absurd hz (Nat.succ_ne_zero _)) htwin
  rw [h] at hread
  -- the first token is no star, and what begins with it is no `t.*`
  have hwild : wildcard (front ++ { t with gap } :: rest') = none := by
    cases front with
    | nil => exact wildcard_none.mpr (hphrase.head t rfl)
    | cons a front => exact wildcard_none.mpr (hphrase.head a rfl)
  have htable' : tableWildcard (front ++ { t with gap } :: rest') = none := by
    cases front with
    | nil => exact tableWildcard_none _ (hrest'.symbol rfl)
    | cons a front =>
        refine tableWildcard_front (List.cons_ne_nil a front) htable (fun v hv => ?_)
        obtain rfl : ({ t with gap } : Token) = v := Option.some.inj hv
        have hends := hphrase.endsPhrase
        refine ⟨(Token.isFinal_of_endsPhrase hends).2.2, fun hk => ?_⟩
        rw [Token.endsPhrase, show t.kind = .symbol .star from hk] at hends
        cases hends
  generalize hc' : expr depth' (front ++ { t with gap } :: rest') = c' at hread
  cases hread with
  | @done _ c' hc =>
      obtain ⟨hvalue, j, -, -, hbehind⟩ := hc
      obtain rfl : e = c'.value := hvalue
      exact ⟨c'.open?, congrArg some (congrArg₂ (Taken.mk c'.value) hbehind.reached.2 rfl), hwild,
        htable'⟩

/-- An expression that was read is the item of an alias behind it, whatever the
    gap between them and whatever is behind the alias. -/
theorem item_of_expr {depth : Nat} {front rest words : List Token} {t u : Token} {e : Expr}
    {name : String} {o : Bool} (h : expr depth (front ++ t :: rest) = some ⟨e, rest, o⟩)
    (hrest : Stop rest) (htable : tableWildcard (front ++ t :: rest) = none)
    (hdepth : front.length + 2 ≤ depth) (gap : String) (hu : u.identifier? = some name)
    (hwords : words = [] ∨ ∃ a, words = [a] ∧ a.kind = .keyword .as) (rest' : List Token)
    {depth' : Nat} (hdepth' : front.length + 2 ≤ depth') :
    ∃ text, item (expr depth') (front ++ { t with gap } :: (words ++ u :: rest'))
      = some ⟨.expr e (some name) text, rest', false⟩ := by
  have hhead := @alias_head words rest' u name hu hwords
  obtain ⟨o', hread, hwild, htable'⟩ := expr_relocated h hrest htable hdepth gap
    (fun t ht => (hhead t ht).1) hdepth'
  rw [item_eq, Parser.orElse, hwild]
  dsimp only
  rw [Parser.orElse, htable']
  dsimp only
  rw [aliased, hread]
  dsimp only
  rw [optAlias_of rest' hu hwords]
  exact ⟨_, rfl⟩

/-- No alias stands at an edge. -/
theorem Edge.optAlias {ts : List Token} (h : Edge ts) : optAlias ts = (none, ts) := by
  have has : (optKeyword .as ts).2 = ts := by rw [optKeyword, h.keyword rfl]
  rw [StatementParser.optAlias, has, h.identifier]

/-- Without an alias it is an item in front of any edge. -/
theorem readsItem_of_expr {depth : Nat} {front rest : List Token} {t : Token} {e : Expr} {o : Bool}
    (h : expr depth (front ++ t :: rest) = some ⟨e, rest, o⟩) (hrest : Stop rest)
    (htable : tableWildcard (front ++ t :: rest) = none) (hdepth : front.length + 2 ≤ depth) :
    ReadsItem front t (.expr e none "") := by
  intro gap rest' depth' hrest' hdepth'
  obtain ⟨o', hread, hwild, htable'⟩ :=
    expr_relocated h hrest htable hdepth gap hrest'.stop hdepth'
  rw [item_eq, Parser.orElse, hwild]
  dsimp only
  rw [Parser.orElse, htable']
  dsimp only
  rw [aliased, hread]
  dsimp only
  rw [hrest'.optAlias]
  exact ⟨_, _, rfl, rfl⟩

/-- The expression of an item is read first, then its alias, and it is no `t.*`. -/
theorem item_expr {e : Parser Expr} {ts rest : List Token} {v : Expr} {alias? : Option String}
    {text : String} {o : Bool} (h : item e ts = some ⟨.expr v alias? text, rest, o⟩) :
    ∃ c, e ts = some c ∧ tableWildcard ts = none ∧ v = c.value ∧ text = c.text ts
      ∧ optAlias c.rest = (alias?, rest) := by
  rcases item_cases h with hwild | ⟨-, htable⟩ | ⟨-, htable, haliased⟩
  · obtain ⟨-, -, -, hvalue⟩ := wildcard_some hwild
    exact nomatch hvalue
  · obtain ⟨_, _, _, _, -, -, -, -, -, -, hvalue⟩ := tableWildcard_some htable
    exact nomatch hvalue
  · unfold aliased at haliased
    cases hread : e ts with
    | none => rw [hread] at haliased; exact nomatch haliased
    | some c =>
        rw [hread] at haliased
        obtain ⟨hvalue, hrest, -⟩ := Taken.mk.inj (Option.some.inj haliased)
        obtain ⟨rfl, halias, rfl⟩ := SelectItem.expr.inj hvalue
        exact ⟨c, rfl, htable, rfl, rfl, Prod.ext halias hrest⟩

/-- An item with an alias ends with it, and is read the same with another alias
    and in front of other tokens. -/
theorem item_aliased {depth : Nat} {ts rest : List Token} {e : Expr} {name text : String} {o : Bool}
    (h : item (expr depth) ts = some ⟨.expr e (some name) text, rest, o⟩) (hdepth : ts.length < depth) :
    ∃ front u, ts = front ++ u :: rest ∧ u.identifier? = some name
      ∧ ∀ {u' : Token} {name' : String} (rest' : List Token) {depth' : Nat},
        u'.identifier? = some name' → front.length + 2 ≤ depth' →
        ∃ text', item (expr depth') (front ++ u' :: rest')
          = some ⟨.expr e (some name') text', rest', false⟩ := by
  obtain ⟨c, hread, htable, rfl, -, halias⟩ := item_expr h
  obtain ⟨words, u, hwords, hu, has⟩ := optAlias_some halias
  -- the expression ends in a token of its own, behind which the alias stands
  obtain ⟨used, rfl, hphrase⟩ := expr_takes depth _ _ hread
  obtain ⟨front, t, rfl, -⟩ := hphrase.ends
  have hstop : Stop c.rest := by
    rw [hwords]
    exact fun t ht => (alias_head hu has t ht).1
  have hsplit : front ++ [t] ++ c.rest = front ++ t :: c.rest := by simp
  rw [hsplit] at hread htable hdepth
  simp only [List.length_append, List.length_cons] at hdepth
  refine ⟨front ++ t :: words, u, ?_, hu, ?_⟩
  · rw [hsplit, hwords]
    simp
  · intro u' name' rest' depth' hu' hdepth'
    simp only [List.length_append, List.length_cons] at hdepth'
    obtain ⟨text', hitem⟩ := @item_of_expr depth front c.rest words t _ c.value _ c.open?
      hread hstop htable (by omega) t.gap hu' has rest' depth' (by omega)
    refine ⟨text', ?_⟩
    rw [List.append_assoc, List.cons_append]
    exact hitem

/-! ## Lists with commas -/

/-- A list of parts, each of which was taken in front of a comma or of the end. -/
inductive Segments {α : Type} (p : Parser α) (rest : List Token) : List Token → List α → Prop
  | last {ts : List Token} {v : α} {o : Bool} (h : p ts = some ⟨v, rest, o⟩) :
      Segments p rest ts [v]
  | comma {ts more : List Token} {c : Token} {v : α} {vs : List α} {o : Bool}
      (h : p ts = some ⟨v, c :: more, o⟩) (hc : c.kind = .symbol .comma)
      (hmore : Segments p rest more vs) : Segments p rest ts (v :: vs)

theorem afterComma_some {α : Type} {p : Parser α} {ts : List Token} {t : Taken α}
    (h : afterComma p ts = some t) :
    ∃ c more, ts = c :: more ∧ c.kind = .symbol .comma ∧ p more = some t := by
  unfold afterComma at h
  cases hcomma : symbol .comma ts with
  | none => rw [hcomma] at h; exact nomatch h
  | some more =>
      rw [hcomma] at h
      obtain ⟨c, rfl, hc⟩ := symbol_some hcomma
      exact ⟨c, more, rfl, hc, h⟩

/-- A list that was read comes apart into its parts. -/
theorem segments_of_commaList {α : Type} {p : Parser α} {ts : List Token} {t : Taken (List α)}
    (h : commaList p ts = some t) : Segments p t.rest ts t.value := by
  -- the parts behind the first, each one from where the part before it stopped
  have hmany : ∀ (fuel : Nat) (gone : List α) (o o' : Bool) (ts rest : List Token) (v : α),
      p ts = some ⟨v, rest, o'⟩ →
      ∃ vs, (manyUpTo (afterComma p) fuel gone o rest).value = gone.reverse ++ vs
        ∧ Segments p (manyUpTo (afterComma p) fuel gone o rest).rest ts (v :: vs) := by
    intro fuel
    induction fuel with
    | zero =>
        intro gone o o' ts rest v hread
        exact ⟨[], (List.append_nil _).symm, .last hread⟩
    | succ fuel ih =>
        intro gone o o' ts rest v hread
        rw [manyUpTo]
        cases hafter : afterComma p rest with
        | none => exact ⟨[], (List.append_nil _).symm, .last hread⟩
        | some t =>
            obtain ⟨c, more, rfl, hc, hmore⟩ := afterComma_some hafter
            obtain ⟨vs, hvalue, hsegments⟩ := ih (t.value :: gone) t.open? t.open? more t.rest
              t.value hmore
            refine ⟨t.value :: vs, ?_, .comma hread hc hsegments⟩
            rw [hvalue, List.reverse_cons, List.append_assoc]
            rfl
  unfold commaList at h
  cases hfirst : p ts with
  | none => rw [hfirst] at h; cases h
  | some first =>
      rw [hfirst] at h
      obtain rfl := Option.some.inj h
      obtain ⟨vs, hvalue, hsegments⟩ :=
        hmany first.rest.length [] true first.open? ts first.rest first.value hfirst
      rw [List.reverse_nil, List.nil_append] at hvalue
      show Segments p _ ts (first.value :: _)
      rw [many, hvalue]
      exact hsegments

/-- Parts with commas between them are read as their list. -/
theorem commaList_of_segments {α : Type} {p : Parser α} {ts rest : List Token} {vs : List α}
    (hp : ∀ ts t, p ts = some t → t.rest.length < ts.length) (h : Segments p rest ts vs)
    (hcomma : symbol .comma rest = none) : ∃ o, commaList p ts = some ⟨vs, rest, o⟩ := by
  have hafter : afterComma p rest = none := by rw [afterComma, hcomma]
  -- the first part is read by itself and the others behind their commas, with fuel for each token
  have hmany : ∃ first, p ts = some first ∧ ∃ more, vs = first.value :: more
      ∧ ∀ (fuel : Nat) (gone : List α) (o : Bool), first.rest.length ≤ fuel →
        ∃ o'', manyUpTo (afterComma p) fuel gone o first.rest
          = ⟨gone.reverse ++ more, rest, o''⟩ := by
    induction h with
    | @last ts v o hread =>
        refine ⟨_, hread, [], rfl, fun fuel gone o _ => ⟨o, ?_⟩⟩
        cases fuel with
        | zero => rw [manyUpTo, List.append_nil]
        | succ fuel => rw [manyUpTo, hafter, List.append_nil]
    | @comma ts more c v vs o hread hc hmore ih =>
        obtain ⟨first, hfirst, vs', rfl, hrun⟩ := ih
        refine ⟨_, hread, first.value :: vs', rfl, fun fuel gone o hfuel => ?_⟩
        have hlen := hp more first hfirst
        cases fuel with
        | zero => exact absurd hfuel (Nat.not_succ_le_zero _)
        | succ fuel =>
            have hnext : afterComma p (c :: more) = some first := by
              unfold afterComma
              rw [show symbol .comma (c :: more) = some more from if_pos (beq_iff_eq.mpr hc)]
              exact hfirst
            obtain ⟨o'', hrest⟩ := hrun fuel (first.value :: gone) first.open?
              (by simp only [List.length_cons] at hfuel; omega)
            refine ⟨o'', ?_⟩
            rw [manyUpTo, hnext]
            dsimp only
            rw [hrest, List.reverse_cons, List.append_assoc]
            rfl
  obtain ⟨first, hfirst, more, rfl, hrun⟩ := hmany
  obtain ⟨o, hrest⟩ := hrun first.rest.length [] true (Nat.le_refl _)
  refine ⟨o, ?_⟩
  unfold commaList
  rw [hfirst]
  dsimp only
  rw [many, hrest]
  rfl

/-! ## Lists of items -/

/-- Tokens that are the items of a list with commas between them, in front of
    any edge and whatever the gap behind them. -/
inductive Listed : List Token → Token → List SelectItem → Prop
  | one {front : List Token} {t : Token} {v : SelectItem} (h : ReadsItem front t v)
      (hshape : ItemShape front t) : Listed front t [v]
  | cons {front more : List Token} {t c u : Token} {v : SelectItem} {vs : List SelectItem}
      (h : ReadsItem front t v) (hshape : ItemShape front t) (hc : c.kind = .symbol .comma)
      (hmore : Listed more u vs) : Listed (front ++ t :: c :: more) u (v :: vs)

theorem Listed.ne_nil {front : List Token} {t : Token} {vs : List SelectItem}
    (h : Listed front t vs) : vs ≠ [] := by
  cases h <;> exact List.cons_ne_nil _ _

theorem Listed.shape {front : List Token} {t : Token} {vs : List SelectItem}
    (h : Listed front t vs) : ItemShape front t := by
  induction h with
  | one _ hshape => exact hshape
  | @cons front more t c u v vs _ hshape hc _ ih =>
      refine ⟨?_, ih.final⟩
      have hcomma : (c :: (more ++ [u])).IsChain Apart := by
        refine ih.apart.cons (fun x _ h => ?_)
        rw [hc] at h
        exact nomatch h.1
      have happend := hshape.apart.append hcomma fun x hx y _ h => by
        rw [List.getLast?_concat] at hx
        obtain rfl : t = x := Option.some.inj hx
        exact hshape.final.2.1 h.1
      simpa using happend

/-- The gap behind a list does not matter. -/
theorem Listed.gap {front : List Token} {t : Token} {vs : List SelectItem} (h : Listed front t vs)
    (gap : String) : Listed front { t with gap } vs := by
  induction h with
  | one hread hshape => exact .one (fun gap' => hread gap') (hshape.gap gap)
  | cons hread hshape hc _ ih => exact .cons hread hshape hc ih

theorem edge_comma {c : Token} (hc : c.kind = .symbol .comma) (ts : List Token) : Edge (c :: ts) := by
  intro t ht
  obtain rfl : c = t := Option.some.inj ht
  rw [Token.edges, hc]
  rfl

theorem item_shorter {e : Parser Expr} (he : Takes e) (ts : List Token) (t : Taken SelectItem)
    (h : item e ts = some t) : t.rest.length < ts.length := by
  obtain ⟨front, u, rfl, -⟩ := item_some he h
  simp only [List.length_append, List.length_cons]
  omega

theorem listed_of_segments {depth : Nat} {ts rest : List Token} {vs : List SelectItem}
    (h : Segments (item (expr depth)) rest ts vs) (hrest : Edge rest) (hdepth : ts.length < depth) :
    ∃ front t, ts = front ++ t :: rest ∧ Listed front t (vs.map SelectItem.bare) := by
  induction h with
  | last hread =>
      obtain ⟨front, t, rfl, hshape⟩ := item_some (expr_takes depth) hread
      simp only [List.length_append, List.length_cons] at hdepth
      exact ⟨front, t, rfl, .one (readsItem_of_item hread hrest (by omega)) hshape⟩
  | @comma ts behind c v vs o hread hc _ ih =>
      obtain ⟨front, t, rfl, hshape⟩ := item_some (expr_takes depth) hread
      simp only [List.length_append, List.length_cons] at hdepth
      obtain ⟨more, u, rfl, hlisted⟩ := ih (by omega)
      refine ⟨front ++ t :: c :: more, u, by simp only [List.append_assoc, List.cons_append], ?_⟩
      exact .cons (readsItem_of_item hread (edge_comma hc _) (by omega)) hshape hc hlisted

/-- A SELECT list that was read comes apart into its items. -/
theorem listed_of_commaList {depth : Nat} {ts : List Token} {items : Taken (List SelectItem)}
    (h : commaList (item (expr depth)) ts = some items) (hrest : Edge items.rest)
    (hdepth : ts.length < depth) :
    ∃ front t, ts = front ++ t :: items.rest
      ∧ Listed front t (items.value.map SelectItem.bare) :=
  listed_of_segments (segments_of_commaList h) hrest hdepth

theorem Listed.segments {front : List Token} {t : Token} {vs : List SelectItem}
    (h : Listed front t vs) (gap : String) {rest : List Token} (hrest : Edge rest) {depth : Nat}
    (hdepth : front.length + 2 ≤ depth) :
    ∃ vs', vs'.map SelectItem.bare = vs
      ∧ Segments (item (expr depth)) rest (front ++ { t with gap } :: rest) vs' := by
  induction h with
  | one hread _ =>
      obtain ⟨v', o, hitem, rfl⟩ := hread gap rest depth hrest hdepth
      exact ⟨[v'], rfl, .last hitem⟩
  | @cons front more t c u v vs hread _ hc _ ih =>
      simp only [List.length_append, List.length_cons] at hdepth
      obtain ⟨vs', rfl, hsegments⟩ := ih (by omega)
      obtain ⟨v', o, hitem, rfl⟩ :=
        hread t.gap (c :: (more ++ { u with gap } :: rest)) depth (edge_comma hc _) (by omega)
      refine ⟨v' :: vs', rfl, ?_⟩
      rw [List.append_assoc]
      exact .comma hitem hc hsegments

/-- What is put together from items is read as their list. -/
theorem Listed.commaList {front : List Token} {t : Token} {vs : List SelectItem}
    (h : Listed front t vs) (gap : String) {rest : List Token} (hrest : Edge rest)
    (hcomma : symbol .comma rest = none) {depth : Nat} (hdepth : front.length + 2 ≤ depth) :
    ∃ items, Parser.commaList (item (expr depth)) (front ++ { t with gap } :: rest) = some items
      ∧ items.rest = rest ∧ items.value.map SelectItem.bare = vs := by
  obtain ⟨vs', rfl, hsegments⟩ := h.segments gap hrest hdepth
  obtain ⟨o, hread⟩ := commaList_of_segments (item_shorter (expr_takes depth)) hsegments hcomma
  exact ⟨_, hread, rfl, rfl⟩

/-- Two lists with a comma between them, and any gap in front of it. -/
theorem Listed.append {front more : List Token} {t c u : Token} {vs ws : List SelectItem}
    (h : Listed front t vs) (hc : c.kind = .symbol .comma) (hmore : Listed more u ws)
    (gap : String) : Listed (front ++ { t with gap } :: c :: more) u (vs ++ ws) := by
  induction h with
  | one hread hshape =>
      refine .cons (fun gap' rest depth hrest hdepth => ?_) (hshape.gap gap) hc hmore
      exact hread gap' rest depth hrest hdepth
  | cons hread hshape hc' _ ih =>
      rw [List.append_assoc]
      exact .cons hread hshape hc' ih

/-- A list in front of a comma and of parts that were read. -/
theorem Listed.segments_before {front more rest : List Token} {t c : Token} {vs ws : List SelectItem}
    (h : Listed front t vs) (gap : String) (hc : c.kind = .symbol .comma) {depth : Nat}
    (hdepth : front.length + 2 ≤ depth) (hmore : Segments (item (expr depth)) rest more ws) :
    ∃ vs', Segments (item (expr depth)) rest (front ++ { t with gap } :: c :: more) vs' := by
  induction h with
  | one hread _ =>
      obtain ⟨v', o, hitem, -⟩ := hread gap (c :: more) depth (edge_comma hc _) hdepth
      exact ⟨_, .comma hitem hc hmore⟩
  | @cons front behind t c' u v vs hread _ hc' _ ih =>
      simp only [List.length_append, List.length_cons] at hdepth
      obtain ⟨vs', hsegments⟩ := ih (by omega)
      obtain ⟨v', o, hitem, -⟩ :=
        hread t.gap (c' :: (behind ++ { u with gap } :: c :: more)) depth (edge_comma hc' _) (by omega)
      refine ⟨v' :: vs', ?_⟩
      rw [List.append_assoc]
      exact .comma hitem hc' hsegments

/-- An item with an alias. -/
def SelectItem.isAliased : SelectItem → Bool
  | .expr _ (some _) _ => true
  | _ => false

/-- A list of items with aliases ends with the last of them, and its items are
    read also with another last alias and in front of other tokens. -/
theorem segments_aliased {depth : Nat} {ts rest : List Token} {vs : List SelectItem}
    (h : Segments (item (expr depth)) rest ts vs) (haliased : vs.all SelectItem.isAliased = true)
    (hdepth : ts.length < depth) :
    ∃ front u name, ts = front ++ u :: rest ∧ u.identifier? = some name
      ∧ ∀ {u' : Token} {name' : String} (rest' : List Token) {depth' : Nat},
        u'.identifier? = some name' → front.length + 2 ≤ depth' →
        ∃ vs', Segments (item (expr depth')) rest' (front ++ u' :: rest') vs' := by
  -- only the last item has its alias replaced; those before it stand in front of their commas as
  -- before
  induction h with
  | @last ts v o hread =>
      match v, haliased, hread with
      | .expr e (some name) text, _, hread =>
        obtain ⟨front, u, hts, hu, hagain⟩ := item_aliased hread hdepth
        refine ⟨front, u, name, hts, hu, ?_⟩
        intro u' name' rest' depth' hu' hdepth'
        obtain ⟨text', hitem⟩ := hagain rest' hu' hdepth'
        exact ⟨_, .last hitem⟩
  | @comma ts behind c v vs o hread hc _ ih =>
      obtain ⟨front, t, rfl, -⟩ := item_some (expr_takes depth) hread
      simp only [List.length_append, List.length_cons] at hdepth
      rw [List.all_cons, Bool.and_eq_true] at haliased
      obtain ⟨more, u, name, rfl, hu, hagain⟩ := ih haliased.2 (by omega)
      refine ⟨front ++ t :: c :: more, u, name, by simp, hu, ?_⟩
      intro u' name' rest' depth' hu' hdepth'
      simp only [List.length_append, List.length_cons] at hdepth'
      obtain ⟨vs', hsegments⟩ := hagain rest' hu' (show more.length + 2 ≤ depth' by omega)
      obtain ⟨v', o', hitem, -⟩ := readsItem_of_item hread (edge_comma hc _) (by omega) t.gap
        (c :: (more ++ u' :: rest')) depth' (edge_comma hc _) (by omega)
      refine ⟨v' :: vs', ?_⟩
      rw [List.append_assoc]
      exact .comma hitem hc hsegments

end QueryReplay.Sql
