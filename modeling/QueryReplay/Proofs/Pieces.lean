import QueryReplay.Proofs.Items

/-! # Pieces — statements taken apart and put together

    An accepted statement consists of its first words, its SELECT list, and what
    is behind FROM, of which the clauses from some kind on can be left out
    (`ReadsBody`).  Put together again, also with a different list or different
    gaps, the pieces are read as the statement with the clauses left out
    (`select_of_pieces`). -/

namespace QueryReplay.Sql

open QueryReplay.Sql.Parser QueryReplay.Sql.StatementParser
open QueryReplay.Sql.ExprParser (expr)

-- powers are the core library's, also beside the instances that Mathlib declares
attribute [local instance (high)] instPowNat

/-! ## Accepted texts -/

/-- Nothing but one semicolon is left. -/
def Ended (rest : List Token) : Prop := (symbol .semicolon rest).getD rest = []

/-- Nothing is left, or one semicolon. -/
theorem Ended.cases {rest : List Token} (h : Ended rest) :
    rest = [] ∨ ∃ t, rest = [t] ∧ t.kind = .symbol .semicolon := by
  unfold Ended at h
  cases hread : symbol .semicolon rest with
  | none => exact .inl (by rw [hread] at h; exact h)
  | some more =>
      obtain ⟨t, rfl, ht⟩ := symbol_some hread
      rw [hread] at h
      obtain rfl : more = [] := h
      exact .inr ⟨t, rfl, ht⟩

theorem Ended.nil : Ended [] := rfl

theorem Ended.semicolon {t : Token} (ht : t.kind = .symbol .semicolon) : Ended [t] := by
  rw [Ended, show symbol .semicolon [t] = some [] from if_pos (beq_iff_eq.mpr ht)]
  rfl

/-- The counts of rows fit 64 bits. -/
def Tree.Fits (t : Tree) : Prop := ∀ k n, t.clause? k = some (.rows n) → n < 2 ^ (64 : Nat)

/-- A statement that fits does so without its last clauses. -/
theorem Tree.Fits.upTo {t : Tree} (h : t.Fits) (k : ClauseKind) : (t.upTo k).Fits := by
  intro j n hj
  have hj : (if j ∈ k.andLater then none else t.clause? j) = some (.rows n) := hj
  split at hj
  · exact nomatch hj
  · exact h j n hj

/-- A row count is accepted if 64 bits hold it. -/
theorem checkCount_iff {c : Option (Located Nat)} :
    checkCount c = .ok () ↔ ∀ n, c.map Located.node = some n → n < 2 ^ (64 : Nat) := by
  cases c with
  | none => exact ⟨fun _ n hn => (nomatch hn), fun _ => rfl⟩
  | some c =>
      show (if c.node < 2 ^ (64 : Nat) then Except.ok () else _) = .ok () ↔ _
      by_cases h : c.node < 2 ^ (64 : Nat)
      · rw [if_pos h]
        exact ⟨fun _ n hn => Option.some.inj hn ▸ h, fun _ => rfl⟩
      · rw [if_neg h]
        exact ⟨nofun, fun hn => absurd (hn c.node rfl) h⟩

/-- A statement fits if both of its row counts are accepted. -/
theorem fits_iff {s : Select} :
    s.tree.Fits ↔ checkCount s.limit = .ok () ∧ checkCount s.offset = .ok () := by
  rw [checkCount_iff, checkCount_iff]
  have hrows : ∀ {c : Option (Located Nat)} {n : Nat},
      (c.map (Located.map ClauseTree.rows)).map Located.node = some (.rows n)
        ↔ c.map Located.node = some n := by
    intro c n
    cases c <;> simp [Located.map]
  constructor
  · intro h
    exact ⟨fun n hn => h .limit n (hrows.mpr hn), fun n hn => h .offset n (hrows.mpr hn)⟩
  · rintro ⟨hlimit, hoffset⟩ k n hk
    cases k with
    | limit => exact hlimit n (hrows.mp hk)
    | offset => exact hoffset n (hrows.mp hk)
    | filter =>
        obtain ⟨c, hc, hnode⟩ := Option.map_eq_some_iff.mp hk
        obtain ⟨l, -, rfl⟩ := Option.map_eq_some_iff.mp hc
        cases hnode
    | groupBy =>
        obtain ⟨c, hc, hnode⟩ := Option.map_eq_some_iff.mp hk
        obtain ⟨l, -, rfl⟩ := Option.map_eq_some_iff.mp hc
        cases hnode
    | having =>
        obtain ⟨c, hc, hnode⟩ := Option.map_eq_some_iff.mp hk
        obtain ⟨l, -, rfl⟩ := Option.map_eq_some_iff.mp hc
        cases hnode
    | orderBy =>
        obtain ⟨c, hc, hnode⟩ := Option.map_eq_some_iff.mp hk
        obtain ⟨l, -, rfl⟩ := Option.map_eq_some_iff.mp hc
        cases hnode

/-- A text is accepted when its tokens are a statement, at most a semicolon is
    left, and the counts fit. -/
theorem parse_iff {sql : String} {s : Select} :
    parse sql = .ok s ↔ ∃ lead tokens rest, TokenStream.ofString? sql = some ⟨lead, tokens⟩
      ∧ select (expr (tokens.length + 1)) sql.utf8ByteSize tokens = some (s, rest)
      ∧ Ended rest ∧ s.tree.Fits := by
  -- the two counts are checked behind the tree, whichever fails first
  have hchecks : ∀ s' : Select, (do
      checkCount s'.limit
      checkCount s'.offset
      return s' : Except ParseError Select) = .ok s ↔ s' = s ∧ s'.tree.Fits := by
    intro s'
    rw [fits_iff]
    cases checkCount s'.limit <;> cases checkCount s'.offset <;>
      simp [bind, Except.bind, pure, Except.pure]
  unfold parse
  cases hstream : TokenStream.ofString? sql with
  | none => exact ⟨nofun, fun ⟨_, _, _, h, _⟩ => nomatch h⟩
  | some stream =>
      obtain ⟨lead, tokens⟩ := stream
      dsimp only
      unfold statement?
      cases hselect : select (expr (tokens.length + 1)) sql.utf8ByteSize tokens with
      | none =>
          refine ⟨nofun, ?_⟩
          rintro ⟨lead', tokens', rest, hstream', hselect', -⟩
          obtain ⟨rfl, rfl⟩ := TokenStream.mk.inj (Option.some.inj hstream')
          exact nomatch hselect.symm.trans hselect'
      | some read =>
          obtain ⟨s', rest⟩ := read
          dsimp only
          by_cases hended : Ended rest
          · rw [if_pos (List.isEmpty_iff.mpr hended)]
            dsimp only
            rw [hchecks]
            constructor
            · rintro ⟨rfl, hfits⟩
              exact ⟨lead, tokens, rest, rfl, hselect, hended, hfits⟩
            · rintro ⟨lead', tokens', rest', hstream', hselect', -, hfits⟩
              obtain ⟨rfl, rfl⟩ := TokenStream.mk.inj (Option.some.inj hstream')
              obtain ⟨rfl, rfl⟩ := Prod.mk.inj (Option.some.inj (hselect.symm.trans hselect'))
              exact ⟨rfl, hfits⟩
          · rw [if_neg (fun h => hended (List.isEmpty_iff.mp h))]
            refine ⟨nofun, ?_⟩
            rintro ⟨lead', tokens', rest', hstream', hselect', hended', -⟩
            obtain ⟨rfl, rfl⟩ := TokenStream.mk.inj (Option.some.inj hstream')
            obtain ⟨rfl, rfl⟩ := Prod.mk.inj (Option.some.inj (hselect.symm.trans hselect'))
            exact absurd hended' hended

theorem accepted_of_isOk {sql : String} (h : (parse sql).isOk = true) : ∃ s, parse sql = .ok s := by
  cases hread : parse sql with
  | error e => rw [hread] at h; exact nomatch h
  | ok s => exact ⟨s, rfl⟩

/-- The statement that was read is the one that is described. -/
theorem Descriptor.select?_extract {sql : String} {s : Select} (h : parse sql = .ok s) :
    (extract sql).select? = some s := by
  rw [extract, select?, h]
  rfl

/-- The text is accepted and says this. -/
def Says (text : String) (tree : Tree) : Prop := ∃ s, parse text = .ok s ∧ s.tree = tree

/-! ## The first words -/

/-- SELECT, with DISTINCT behind it or not. -/
inductive Heads : Bool → List Token → Prop
  | all {t : Token} (ht : t.kind = .keyword .select) : Heads false [t]
  | distinct {t u : Token} (ht : t.kind = .keyword .select) (hu : u.kind = .keyword .distinct) :
      Heads true [t, u]

/-- The first words stand apart from what is behind them. -/
theorem Heads.apart {distinct : Bool} {words ts : List Token} (h : Heads distinct words)
    (hts : ts.IsChain Lexer.Apart) : (words ++ ts).IsChain Lexer.Apart := by
  have hword : ∀ {t : Token} {k : Keyword} {us : List Token}, t.kind = .keyword k →
      us.IsChain Lexer.Apart → (t :: us).IsChain Lexer.Apart := by
    intro t k us ht hus
    refine hus.cons (fun x _ h => ?_)
    rw [ht] at h
    exact nomatch h.1
  cases h with
  | all ht => exact hword ht hts
  | distinct ht hu => exact hword ht (hword hu hts)

/-- Behind the first words stands the list, which does not begin with a DISTINCT of its own. -/
theorem heads_of_read {ts list : List Token} {distinct : Bool}
    (h : (keyword .select ts).map (optKeyword .distinct) = some (distinct, list)) :
    ∃ words, ts = words ++ list ∧ Heads distinct words
      ∧ (distinct = false → keyword .distinct list = none) := by
  obtain ⟨behind, hselect, hread⟩ := Option.map_eq_some_iff.mp h
  obtain ⟨t, rfl, ht⟩ := keyword_some hselect
  unfold optKeyword at hread
  cases hdistinct : keyword .distinct behind with
  | none =>
      rw [hdistinct] at hread
      obtain ⟨rfl, rfl⟩ := Prod.mk.inj hread
      exact ⟨[t], rfl, .all ht, fun _ => hdistinct⟩
  | some rest =>
      rw [hdistinct] at hread
      obtain ⟨rfl, rfl⟩ := Prod.mk.inj hread
      obtain ⟨u, rfl, hu⟩ := keyword_some hdistinct
      exact ⟨[t, u], rfl, .distinct ht hu, nofun⟩

theorem keyword_of_kind {t : Token} {k : Keyword} (h : t.kind = .keyword k) (ts : List Token) :
    keyword k (t :: ts) = some ts :=
  if_pos (beq_iff_eq.mpr h)

/-- The first words are read in front of any list that does not begin with DISTINCT. -/
theorem Heads.read {distinct : Bool} {words list : List Token} (h : Heads distinct words)
    (hlist : distinct = false → keyword .distinct list = none) :
    (keyword .select (words ++ list)).map (optKeyword .distinct) = some (distinct, list) := by
  cases h with
  | all ht =>
      rw [List.singleton_append, keyword_of_kind ht, Option.map_some, optKeyword, hlist rfl]
  | @distinct t u ht hu =>
      rw [show [t, u] ++ list = t :: u :: list from rfl, keyword_of_kind ht, Option.map_some,
        optKeyword, keyword_of_kind hu]

/-- A keyword that is not at the front does not get there by another gap. -/
theorem keyword_gap {k : Keyword} {front rest : List Token} {t : Token}
    (h : keyword k (front ++ t :: rest) = none) (gap : String) (rest' : List Token) :
    keyword k (front ++ { t with gap } :: rest') = none := by
  have hhead : ∀ {u : Token} {us us' : List Token}, keyword k (u :: us) = none →
      keyword k (u :: us') = none := by
    intro u us us' hu
    cases hread : keyword k (u :: us') with
    | none => rfl
    | some more =>
        obtain ⟨u', heq, hu'⟩ := keyword_some hread
        obtain ⟨rfl, -⟩ := List.cons.inj heq
        exact nomatch hu.symm.trans (keyword_of_kind hu' us)
  cases front with
  | nil =>
      cases hread : keyword k ([] ++ { t with gap } :: rest') with
      | none => rfl
      | some more =>
          obtain ⟨u', heq, hu'⟩ := keyword_some hread
          obtain ⟨rfl, -⟩ := List.cons.inj heq
          exact nomatch h.symm.trans (keyword_of_kind (t := t) hu' rest)
  | cons u front => exact hhead h

/-- A text is not accepted when no FROM stands behind its SELECT list. -/
theorem parse_ne_ok {text lead : String} {distinct : Bool} {words ts rest : List Token}
    (hstream : TokenStream.ofString? text = some ⟨lead, words ++ ts⟩) (hwords : Heads distinct words)
    (hdistinct : distinct = false → keyword .distinct ts = none)
    (hitems : ∀ depth, ts.length < depth → ∃ vs, Segments (item (expr depth)) rest ts vs)
    (hcomma : symbol .comma rest = none) (hfrom : keyword .from rest = none) (s : Select) :
    parse text ≠ .ok s := by
  intro hparse
  obtain ⟨lead', tokens, behind, hstream', hselect, -⟩ := parse_iff.mp hparse
  obtain ⟨-, rfl⟩ := TokenStream.mk.inj (Option.some.inj (hstream'.symm.trans hstream))
  obtain ⟨list, items, sources, tables, hparts⟩ := parts_of_select hselect
  obtain ⟨vs, hsegments⟩ := hitems ((words ++ ts).length + 1)
    (by simp only [List.length_append]; omega)
  obtain ⟨o, hread⟩ := commaList_of_segments (item_shorter (expr_takes _)) hsegments hcomma
  obtain ⟨-, rfl⟩ := Prod.mk.inj (Option.some.inj (hparts.list_eq.symm.trans (hwords.read hdistinct)))
  obtain rfl := Option.some.inj (hparts.items_eq.symm.trans hread)
  exact nomatch hfrom.symm.trans hparts.sources_eq

/-! ## Within a statement -/

/-- Tokens within a statement: every parenthesis has its partner among them, and no
    semicolon ends the statement there. -/
structure Within (ts : List Token) : Prop where
  balanced : ∀ n, level? ts n = some n
  unended : ∀ t ∈ ts, t.kind ≠ .symbol .semicolon

/-- Runs are balanced, and no semicolon is in them. -/
theorem Run.within {ts : List Token} (h : Run ts) : Within ts := ⟨h.balanced, h.unended⟩

/-- Two parts within a statement make one. -/
theorem Within.append {ts us : List Token} (hts : Within ts) (hus : Within us) :
    Within (ts ++ us) where
  balanced n := by rw [level_append, hts.balanced, Option.bind_some, hus.balanced]
  unended := List.forall_mem_append.mpr ⟨hts.unended, hus.unended⟩

theorem Within.single {t : Token} (h : t.IsBetween) : Within [t] where
  balanced n := by
    show (t.level? n).bind (level? []) = some n
    rw [Token.level_other h.1 h.2.1]
    rfl
  unended := List.forall_mem_singleton.mpr h.2.2

theorem Within.keyword {t : Token} {k : Keyword} (h : t.kind = .keyword k) : Within [t] :=
  (Run.single (Token.plain_keyword h)).within

theorem Within.symbol {t : Token} {s : Symbol} (h : t.kind = .symbol s)
    (hs : s ∉ [.openParen, .closeParen, .semicolon]) : Within [t] := by
  refine .single ⟨?_, ?_, ?_⟩ <;>
    (rw [h]; intro hk; rw [TokenKind.symbol.inj hk] at hs; exact hs (by decide))

/-- An item is within the statement: its parentheses are its own. -/
theorem item_within {e : Parser Expr} (he : Takes e) {ts : List Token} {t : Taken SelectItem}
    (h : item e ts = some t) : ∃ used, ts = used ++ t.rest ∧ Within used := by
  rcases item_cases h with hwild | ⟨-, htable⟩ | ⟨-, -, haliased⟩
  · obtain ⟨star, hts, hstar, -⟩ := wildcard_some hwild
    exact ⟨[star], hts, .symbol hstar (by decide)⟩
  · obtain ⟨name, a, point, star, hts, hname, -, hpoint, -, hstar, -⟩ :=
      tableWildcard_some htable
    exact ⟨[a, point, star], hts, (Run.single (Token.of_identifier hname).1).within.append
      ((Within.symbol hpoint (by decide)).append (.symbol hstar (by decide)))⟩
  · obtain ⟨used, hused, hphrase⟩ := aliased_some he haliased
    exact ⟨used, hused, hphrase.within⟩

/-- The tokens of a list of items close every parenthesis they open. -/
theorem items_within {e : Parser Expr} (he : Takes e) {ts rest : List Token}
    {vs : List SelectItem} (h : Segments (item e) rest ts vs) :
    ∃ used, ts = used ++ rest ∧ Within used := by
  induction h with
  | last hread => exact item_within he hread
  | @comma ts more c v vs o hread hc _ ih =>
      obtain ⟨used, rfl, hused⟩ := item_within he hread
      obtain ⟨later, rfl, hlater⟩ := ih
      exact ⟨used ++ ([c] ++ later), by simp,
        hused.append ((Within.symbol hc (by decide)).append hlater)⟩

/-- A whole list is. -/
theorem Listed.within {front : List Token} {t : Token} {vs : List SelectItem}
    (h : Listed front t vs) : Within (front ++ [t]) := by
  obtain ⟨vs', -, hsegments⟩ := h.segments t.gap Edge.nil (Nat.le_refl _)
  obtain ⟨used, hused, hwithin⟩ := items_within (expr_takes _) hsegments
  rw [List.append_nil] at hused
  exact hused ▸ hwithin

/-- The words in front of the list hold no parenthesis and no semicolon. -/
theorem Heads.within {distinct : Bool} {words : List Token} (h : Heads distinct words) :
    Within words := by
  cases h with
  | all ht => exact .keyword ht
  | distinct ht hu => exact (Within.keyword ht).append (.keyword hu)

/-- What is in front of the end of a statement is within it. -/
theorem Parts.within {e : Parser Expr} (he : Takes e) {size : Nat}
    {ts list sources rest : List Token} {s : Select} {items : Taken (List SelectItem)}
    {tables : Taken (List TableRef)} (h : Parts e size ts s list items sources tables rest) :
    ∃ used, ts = used ++ rest ∧ Within used := by
  obtain ⟨words, rfl, hwords, -⟩ := heads_of_read h.list_eq
  obtain ⟨used, hused, hitems⟩ := items_within he (segments_of_commaList h.items_eq)
  have hread : Body e size ClauseKind.all items.rest _ _ _ rest :=
    ⟨sources, tables, h.sources_eq, h.tables_eq, h.tables_value, h.joins_value, h.clauses⟩
  obtain ⟨more, hmore, hbody⟩ := hread.phrase he
  refine ⟨words ++ (used ++ more), ?_, hwords.within.append (hitems.append hbody.within)⟩
  rw [hused, hmore]
  simp only [List.append_assoc]

/-! ## Clauses left out -/

/-- The first keyword of a clause. -/
def ClauseKind.opener : ClauseKind → Keyword
  | .filter => .where
  | .groupBy => .group
  | .having => .having
  | .orderBy => .order
  | .limit => .limit
  | .offset => .offset

/-- No two clauses open with the same keyword. -/
theorem ClauseKind.opener_injective {j k : ClauseKind} (h : j.opener = k.opener) : j = k := by
  revert h
  cases j <;> cases k <;> decide

/-- Every clause begins at an edge. -/
theorem ClauseKind.edges_opener (k : ClauseKind) : k.opener.edges = true := by
  cases k <;> rfl

/-- A clause begins with its first keyword, and its span begins there and ends with its body. -/
theorem clauseOf_some {e : Parser Expr} {size : Nat} {k : ClauseKind} {ts : List Token}
    {t : Taken (Located ClauseTree)} (h : clauseOf e size k ts = some t) :
    (∃ u more, ts = u :: more ∧ u.kind = .keyword k.opener)
      ∧ ∃ b : Taken ClauseTree, b.rest = t.rest ∧ t.value.span = spanOf size ts b := by
  obtain ⟨rest, hwords, hread⟩ := Option.bind_eq_some_iff.mp h
  obtain ⟨b, -, hread⟩ := Option.bind_eq_some_iff.mp hread
  obtain rfl := Option.some.inj hread
  refine ⟨?_, b, rfl, rfl⟩
  obtain ⟨more, hkeywords⟩ : ∃ more, k.keywords = k.opener :: more := by
    cases k <;> exact ⟨_, rfl⟩
  rw [hkeywords, List.foldlM_cons] at hwords
  obtain ⟨behind, hopener, -⟩ := Option.bind_eq_some_iff.mp hwords
  obtain ⟨u, hts, hu⟩ := keyword_some hopener
  exact ⟨u, behind, hts, hu⟩

/-- Without its first keyword a clause is missing. -/
theorem clauseOf_none {e : Parser Expr} {size : Nat} {k : ClauseKind} {ts : List Token}
    (h : ∀ u ∈ ts.head?, u.kind ≠ .keyword k.opener) : clauseOf e size k ts = none := by
  cases hread : clauseOf e size k ts with
  | none => rfl
  | some t =>
      obtain ⟨⟨u, more, rfl, hu⟩, -⟩ := clauseOf_some hread
      exact absurd hu (h u rfl)

/-- Where no clause begins, none is read. -/
theorem readClauses_none {e : Parser Expr} {size : Nat} {ks : List ClauseKind} {ts : List Token}
    (h : ∀ k ∈ ks, clauseOf e size k ts = none) :
    readClauses e size ks ts = (ks.map fun _ => none, ts) := by
  induction ks with
  | nil => rfl
  | cons k ks ih =>
      have hhead : optClause (clauseOf e size k) ts = (none, ts) := by
        rw [optClause, ExprParser.optional, h k List.mem_cons_self]
      rw [readClauses, hhead, ih fun j hj => h j (List.mem_cons_of_mem _ hj)]
      rfl

/-- Either no clause is read, or one begins here. -/
theorem readClauses_head (e : Parser Expr) (size : Nat) (ks : List ClauseKind) (ts : List Token) :
    readClauses e size ks ts = (ks.map fun _ => none, ts)
      ∨ ∃ k ∈ ks, ∃ u more, ts = u :: more ∧ u.kind = .keyword k.opener := by
  by_cases h : ∀ k ∈ ks, clauseOf e size k ts = none
  · exact .inl (readClauses_none h)
  · obtain ⟨k, hk, hne⟩ := not_forall₂.mp h
    obtain ⟨t, ht⟩ := Option.ne_none_iff_exists'.mp hne
    exact .inr ⟨k, hk, (clauseOf_some ht).1⟩

/-- What may stand behind the clauses before a kind: a clause from that kind on,
    or the end. -/
def Behind (k : ClauseKind) (rest : List Token) : Prop :=
  Ended rest ∨ ∃ j ∈ k.andLater, ∃ u more, rest = u :: more ∧ u.kind = .keyword j.opener

/-- What is behind the clauses of some kinds is an edge. -/
theorem Behind.edge {k : ClauseKind} {rest : List Token} (h : Behind k rest) : Edge rest := by
  rcases h with h | ⟨j, -, u, more, rfl, hu⟩
  · rcases h.cases with rfl | ⟨t, rfl, ht⟩
    · exact Edge.nil
    · intro u hu
      obtain rfl : t = u := Option.some.inj hu
      rw [Token.edges, ht]
      rfl
  · intro t ht
    obtain rfl : u = t := Option.some.inj ht
    rw [Token.edges, hu]
    exact j.edges_opener

/-- It begins with no comma, which would go on with a list. -/
theorem Behind.comma {k : ClauseKind} {rest : List Token} (h : Behind k rest) :
    symbol .comma rest = none := by
  have hkind : ∀ u ∈ rest.head?, u.kind ≠ .symbol .comma := by
    rcases h with h | ⟨j, -, u, more, rfl, hu⟩
    · rcases h.cases with rfl | ⟨t, rfl, ht⟩
      · exact fun _ h => (nomatch h)
      · intro u hu
        obtain rfl : t = u := Option.some.inj hu
        rw [ht]
        decide
    · intro t ht
      obtain rfl : u = t := Option.some.inj ht
      rw [hu]
      exact fun h => nomatch h
  cases hread : symbol .comma rest with
  | none => rfl
  | some more =>
      obtain ⟨c, rfl, hc⟩ := symbol_some hread
      exact absurd hc (hkind c rfl)

/-- No clause before the kind begins there. -/
theorem Behind.noClause {k : ClauseKind} {rest : List Token} (h : Behind k rest) {j : ClauseKind}
    (hj : j ∈ k.earlier) (e : Parser Expr) (size : Nat) : clauseOf e size j rest = none := by
  refine clauseOf_none (fun u hu hkind => ?_)
  rcases h with h | ⟨i, hi, v, more, rfl, hv⟩
  · rcases h.cases with rfl | ⟨t, rfl, ht⟩
    · exact nomatch hu
    · obtain rfl : t = u := Option.some.inj hu
      exact nomatch ht.symm.trans hkind
  · obtain rfl : v = u := Option.some.inj hu
    obtain rfl := ClauseKind.opener_injective (TokenKind.keyword.inj (hv.symm.trans hkind))
    exact ClauseKind.disjoint_earlier hj hi

/-- At the end of a statement no clause begins. -/
theorem Ended.noClause {rest : List Token} (h : Ended rest) (k : ClauseKind) (e : Parser Expr)
    (size : Nat) : clauseOf e size k rest = none := by
  refine clauseOf_none (fun u hu hkind => ?_)
  rcases h.cases with rfl | ⟨t, rfl, ht⟩
  · exact nomatch hu
  · obtain rfl : t = u := Option.some.inj hu
    exact nomatch ht.symm.trans hkind

/-! ## Taking a statement apart -/

/-- The tokens are read as FROM, the joins and the clauses of the statement
    before a kind, in front of the end and whatever the gap behind them. -/
def ReadsBody (s : Select) (k : ClauseKind) (front : List Token) (t : Token) : Prop :=
  ∀ (gap : String) (rest : List Token) (size depth : Nat), Ended rest → front.length + 2 ≤ depth →
    ∃ joins clauses, Body (expr depth) size k.earlier (front ++ { t with gap } :: rest) s.tables
        joins clauses rest
      ∧ s.joins.map Join.bare = joins.map Join.bare
      ∧ (k.earlier.map s.located).map (Option.map Located.node)
        = clauses.map (Option.map Located.node)

section Parts

variable {e : Parser Expr} {size : Nat} {ts list sources rest : List Token} {s : Select}
  {items : Taken (List SelectItem)} {tables : Taken (List TableRef)}

/-- The tokens that are left in front of the clauses from a kind on. -/
def restBefore (e : Parser Expr) (size : Nat) (tables : Taken (List TableRef)) (k : ClauseKind) :
    List Token :=
  (readClauses e size k.earlier (many (join e size) tables.rest).rest).2

/-- The clauses before a kind and those from it on. -/
theorem Parts.split (h : Parts e size ts s list items sources tables rest) (k : ClauseKind) :
    readClauses e size k.earlier (many (join e size) tables.rest).rest
        = (k.earlier.map s.located, restBefore e size tables k)
      ∧ readClauses e size k.andLater (restBefore e size tables k)
        = (k.andLater.map s.located, rest) := by
  have hall := h.clauses
  rw [← k.earlier_append_andLater, readClauses_append, List.map_append] at hall
  obtain ⟨hvalues, hrest⟩ := Prod.mk.inj hall
  obtain ⟨hearlier, hlater⟩ := List.append_inj hvalues
    (by rw [readClauses_length, List.length_map])
  exact ⟨Prod.ext hearlier rfl, Prod.ext hlater hrest⟩

/-- Behind the clauses before a kind comes a later clause, or the end. -/
theorem Parts.behind (h : Parts e size ts s list items sources tables rest) (hended : Ended rest)
    (k : ClauseKind) : Behind k (restBefore e size tables k) := by
  rcases readClauses_head e size k.andLater (restBefore e size tables k) with hnone | hopener
  · have hrest := (Prod.mk.inj ((h.split k).2.symm.trans hnone)).2
    exact .inl (hrest ▸ hended)
  · exact .inr hopener

/-- What a statement has behind FROM, up to a kind, was read as such. -/
theorem Parts.body (h : Parts e size ts s list items sources tables rest) (k : ClauseKind) :
    Body e size k.earlier items.rest s.tables s.joins (k.earlier.map s.located)
      (restBefore e size tables k) where
  read := ⟨sources, tables, h.sources_eq, h.tables_eq, h.tables_value, h.joins_value, (h.split k).1⟩

/-- What is behind the SELECT list of a statement, cut before a kind of clause. -/
theorem Parts.readsBody {depth : Nat}
    (h : Parts (expr depth) size ts s list items sources tables rest) (hended : Ended rest)
    (hdepth : items.rest.length < depth) (k : ClauseKind) :
    ∃ front t, items.rest = front ++ t :: restBefore (expr depth) size tables k
      ∧ ReadsBody s k front t := by
  have hbody := h.body k
  have hbehind := h.behind hended k
  obtain ⟨used, hused, hphrase⟩ := hbody.phrase (expr_takes depth)
  obtain ⟨front, t, rfl, -⟩ := hphrase.ends
  rw [List.append_assoc, List.singleton_append] at hused
  refine ⟨front, t, hused, ?_⟩
  intro gap rest' size' depth' hended' hdepth'
  rw [hused] at hbody hdepth
  simp only [List.length_append, List.length_cons] at hdepth
  have hbehind' : Behind k rest' := .inl hended'
  refine hbody.relocated hbehind.edge hbehind'.edge hbehind.comma hbehind'.comma
    (fun j hj => ⟨hbehind.noClause hj _ _, hbehind'.noClause hj _ _⟩) rfl rfl (by omega) hdepth'

end Parts

/-! ## Putting a statement together -/

/-- FROM is an edge behind a list. -/
theorem edge_from {e : Parser Expr} {size : Nat} {ks : List ClauseKind} {ts rest : List Token}
    {tables : List TableRef} {joins : List Join} {clauses : List (Option (Located ClauseTree))}
    (h : Body e size ks ts tables joins clauses rest) : Edge ts ∧ symbol .comma ts = none := by
  obtain ⟨sources, -, hfrom, -⟩ := h.read
  obtain ⟨f, rfl, hf⟩ := keyword_some hfrom
  refine ⟨fun t ht => ?_, if_neg fun hcomma => ?_⟩
  · obtain rfl : f = t := Option.some.inj ht
    rw [Token.edges, hf]
    rfl
  · rw [Token.isSymbol, hf] at hcomma
    cases hcomma

/-- First words, a SELECT list and what is behind FROM, put together, are a
    statement; the kinds of clauses that are not read there are absent. -/
theorem select_of_body {distinct : Bool} {words front body rest : List Token} {t : Token}
    {items : List SelectItem} {tables : List TableRef} {joins : List Join}
    {clauses : List (Option (Located ClauseTree))} {ks js : List ClauseKind} {size depth : Nat}
    (hkinds : ks ++ js = ClauseKind.all) (hwords : Heads distinct words)
    (hdistinct : distinct = false → keyword .distinct (front ++ [t]) = none)
    (hitems : Listed front t items)
    (hbody : Body (expr depth) size ks body tables joins clauses rest) (hended : Ended rest)
    (gap : String) (hdepth : front.length + 2 ≤ depth) :
    ∃ s', select (expr depth) size (words ++ (front ++ { t with gap } :: body)) = some (s', rest)
      ∧ s'.distinct = distinct ∧ s'.items.map SelectItem.bare = items ∧ s'.tables = tables
      ∧ s'.joins = joins ∧ ks.map s'.located = clauses ∧ js.map s'.located = js.map fun _ => none := by
  obtain ⟨hedge, hcomma⟩ := edge_from hbody
  obtain ⟨list, hlist, hrest, hvalue⟩ := hitems.commaList gap hedge hcomma hdepth
  obtain ⟨sources, taken, hfrom, htables, htablesValue, hjoinsValue, hmore⟩ := hbody.read
  have hhead : distinct = false → keyword .distinct (front ++ { t with gap } :: body) = none :=
    fun hd => keyword_gap (hdistinct hd) gap _
  obtain ⟨s', rest', hselect, hparts⟩ := @select_of_parts _ size _ _ _ _ _ _ (hwords.read hhead)
    hlist (hrest.symm ▸ hfrom) htables
  -- behind the clauses of the kinds that are read nothing is left to read
  have hnone : readClauses (expr depth) size js rest = (js.map fun _ => none, rest) :=
    readClauses_none fun j _ => hended.noClause j _ _
  have hall := hparts.clauses
  rw [← hkinds, readClauses_append, hmore, hnone, List.map_append] at hall
  obtain ⟨hvalues, rfl⟩ := Prod.mk.inj hall
  obtain ⟨hearlier, hlater⟩ := List.append_inj' hvalues
    (by rw [List.length_map, List.length_map])
  refine ⟨s', hselect, ?_, ?_, hparts.tables_value.trans htablesValue.symm,
    hparts.joins_value.trans hjoinsValue.symm, hearlier.symm, hlater.symm⟩
  · exact (Prod.mk.inj (Option.some.inj (hparts.list_eq.symm.trans (hwords.read hhead)))).1
  · rw [hparts.items_value]
    exact hvalue

/-- First words, a SELECT list and what is behind FROM, put together, are read
    as the statement that keeps the clauses before a kind. -/
theorem select_of_pieces {distinct : Bool} {words front bodyFront rest : List Token} {t b : Token}
    {items : List SelectItem} {s : Select} {k : ClauseKind} (hwords : Heads distinct words)
    (hdistinct : distinct = false → keyword .distinct (front ++ [t]) = none)
    (hitems : Listed front t items) (hbody : ReadsBody s k bodyFront b) (hended : Ended rest)
    (gap gap' : String) (size depth : Nat)
    (hdepth : words.length + front.length + bodyFront.length + 2 ≤ depth) :
    ∃ s', select (expr depth) size
        (words ++ (front ++ { t with gap } :: (bodyFront ++ { b with gap := gap' } :: rest)))
        = some (s', rest)
      ∧ s'.tree = { s.tree.upTo k with distinct, items } := by
  obtain ⟨joins, clauses, hread, hjoins, hclauses⟩ :=
    hbody gap' rest size depth hended (by omega)
  obtain ⟨s', hselect, rfl, rfl, htables, rfl, rfl, hlater⟩ := select_of_body
    k.earlier_append_andLater hwords hdistinct hitems hread hended gap (by omega)
  refine ⟨s', hselect, ?_⟩
  -- the clauses up to the cut are those that were read, and those behind it are gone
  have hclause : ∀ j, (s'.located j).map Located.node
      = if j ∈ k.andLater then none else (s.located j).map Located.node := by
    intro j
    split
    · rename_i hj
      rw [List.map_inj_left.mp hlater j hj]
      rfl
    · rename_i hj
      have hj' : j ∈ k.earlier := by
        have hall := j.mem_all
        rw [← k.earlier_append_andLater] at hall
        exact (List.mem_append.mp hall).resolve_right hj
      rw [List.map_map, List.map_map] at hclauses
      exact (List.map_inj_left.mp hclauses j hj').symm
  show Tree.mk s'.distinct (s'.items.map SelectItem.bare) s'.tables (s'.joins.map Join.bare)
    (fun j => (s'.located j).map Located.node) = _
  rw [htables, ← hjoins, funext hclause]
  rfl

end QueryReplay.Sql
