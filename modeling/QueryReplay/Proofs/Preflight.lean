import Mathlib
import QueryReplay.Proofs.Openers
import QueryReplay.Proofs.Parentheses
import QueryReplay.Proofs.Words

/-! # Preflight — the quick look at a statement and its grammar

    Before a statement runs its words are looked at, by a scan of their own.  Of
    a statement that the grammar accepts the two agree where the words are in
    plain sight (`InSight`): no block comment hides or shows one, no number runs
    into one that is looked for, and no function is called by one.  Then the
    statement is classified as a SELECT, the table behind the first word FROM is
    its base table, and there is no objection but to the parentheses, and to a
    FROM list that holds quoted names only.

    Mathlib is imported whole here: the lemmas about ASCII letters in either case
    (`Char.toLower_toUpper_eq_toLower` and its like) come with no smaller module of it. -/

namespace QueryReplay.Sql

open QueryReplay.Sql.Parser QueryReplay.Sql.StatementParser
open QueryReplay.Sql.ExprParser (expr)
open QueryReplay.Text (upper lower sameLetters trim)
open Lexer (Lexeme Spelled chars)
open Words (ofTokens Letters)

/-! ## Reserved words in any letter case -/

theorem lower_upper (s : String) : lower (upper s) = lower s := by
  rw [lower, upper, String.toList_ofList, List.map_map, lower]
  exact congrArg String.ofList (List.map_congr_left fun c _ => Char.toLower_toUpper_eq_toLower c)

theorem upper_lower (s : String) : upper (lower s) = upper s := by
  rw [upper, lower, String.toList_ofList, List.map_map, upper]
  exact congrArg String.ofList (List.map_congr_left fun c _ => Char.toUpper_toLower_eq_toUpper c)

/-- A keyword's own spelling is in small letters. -/
theorem Keyword.lower_word (k : Keyword) : lower k.word = k.word := by
  cases k <;> decide

/-- A word is a keyword when its letters are the keyword's in either case. -/
theorem Keyword.ofWord_iff {w : String} {k : Keyword} :
    Keyword.ofWord? w = some k ↔ lower w = k.word := by
  constructor
  · intro h
    have hfind : Keyword.all.find? (fun j => j.word == lower w) = some k := h
    have hword := List.find?_some hfind
    exact (beq_iff_eq.mp hword).symm
  · intro h
    have hfind : Keyword.ofWord? w = Keyword.all.find? fun j => j.word == k.word := by
      rw [Keyword.ofWord?, h]
    rw [hfind]
    cases hread : Keyword.all.find? fun j => j.word == k.word with
    | none => exact absurd (beq_self_eq_true _) (List.find?_eq_none.mp hread k k.mem_all)
    | some j =>
        have hword := List.find?_some hread
        exact congrArg some (Keyword.word_injective (beq_iff_eq.mp hword))

/-- The words the pre-flight compares in capitals are the ones the lexer takes for a keyword. -/
theorem Keyword.upper_iff {w : String} {k : Keyword} :
    upper w = upper k.word ↔ Keyword.ofWord? w = some k := by
  rw [Keyword.ofWord_iff]
  constructor
  · intro h
    rw [← lower_upper, h, lower_upper, k.lower_word]
  · intro h
    rw [← upper_lower, h]

/-- A word that is a keyword in capitals is made of letters alone. -/
theorem letters_of_upper {w : String} {k : Keyword} (h : upper w = upper k.word) :
    Letters w.toList := by
  have hall : ∀ j ∈ Keyword.all, (upper j.word).toList.all Char.isAlpha = true := by
    decide +kernel
  intro c hc
  rw [← Char.isAlpha_toUpper_eq_isAlpha]
  refine List.all_eq_true.mp (hall k k.mem_all) _ ?_
  rw [← h, upper, String.toList_ofList]
  exact List.mem_map_of_mem hc

theorem sameLetters_iff_upper {a b : String} : sameLetters a b = true ↔ upper a = upper b := by
  rw [Text.sameLetters_iff]
  constructor
  · intro h
    have hlower : lower a = lower b := congrArg String.ofList h
    rw [← upper_lower, hlower, upper_lower]
  · intro h
    have hlower : lower a = lower b := by rw [← lower_upper, h, lower_upper]
    rw [lower, lower, String.ofList_inj] at hlower
    exact hlower

/-- A token that is a reserved word, in any letter case. -/
theorem kind_of_upper {t : Token} {k : Keyword} (h : Lexeme t.kind t.lexeme.toList)
    (hword : t.kind.isWord = true) (hupper : upper t.lexeme = upper k.word) :
    t.kind = .keyword k := by
  have hk : t.kind = .name ∨ ∃ k, t.kind = .keyword k := by
    cases hkind : t.kind with
    | keyword j => exact .inr ⟨j, rfl⟩
    | name => exact .inl rfl
    | _ => rw [hkind] at hword; exact nomatch hword
  obtain ⟨-, -, -, -, -, hkind⟩ := h.isWord hk
  have hsome := Keyword.upper_iff.mp hupper
  rw [hkind, Lexer.wordKind, String.ofList_toList, hsome]

theorem upper_of_kind {t : Token} {k : Keyword} (h : Lexeme t.kind t.lexeme.toList)
    (hkind : t.kind = .keyword k) : upper t.lexeme = upper k.word := by
  obtain ⟨-, -, -, -, -, hword⟩ := h.isWord (.inr ⟨k, hkind⟩)
  have hsome := ofWord_of_wordKind (hword.symm.trans hkind)
  rw [String.ofList_toList] at hsome
  exact Keyword.upper_iff.mpr hsome

/-! ## Words that are not quoted -/

/-- The word in upper case, unless it is quoted. -/
def bareWord (w : String) : Option String :=
  if w.toList.head? == some '"' then none else some (upper w)

/-- The words in capitals come from the written words, one by one. -/
theorem upperWords_eq (sql : String) : upperWords sql = (writtenWords sql).filterMap bareWord := rfl

/-- What is kept of a written word is the word in capitals. -/
theorem bareWord_some {w x : String} (h : bareWord w = some x) : upper w = x := by
  unfold bareWord at h
  split at h
  · cases h
  · exact Option.some.inj h

theorem bareWord_wordy {t : Token} (h : Lexeme t.kind t.lexeme.toList)
    (hwordy : t.kind.isWordy = true) {x : String} (hx : t.lexeme.toList <+: x.toList) :
    bareWord x = some (upper x) := by
  obtain ⟨c, cs, hlexeme⟩ := List.exists_cons_of_ne_nil h.ne_nil
  obtain ⟨more, hmore⟩ := hx
  have hc : Words.isWordChar c = true :=
    h.wordChars hwordy c (by rw [hlexeme]; exact List.mem_cons_self)
  have hne : c ≠ '"' := Words.ne_of_isWordChar hc (Words.isWordChar_mark (by decide))
  refine if_neg ?_
  rw [← hmore, hlexeme]
  simpa using hne

/-- A quoted name leaves nothing the pre-flight would compare. -/
theorem bareWord_quoted {t : Token} (h : Lexeme t.kind t.lexeme.toList) (hk : t.kind = .quoted) :
    bareWord t.lexeme = none := by
  obtain ⟨body, hlexeme, -⟩ := h.inQuotes hk
  rw [bareWord, hlexeme]
  rfl

/-! ## Words in plain sight -/

/-- SELECT, BY and the first words of the clauses, which are looked for behind
    the words in front of them. -/
def TokenKind.isLookedFor : TokenKind → Bool
  | .keyword k => k == .select || k == .by || ClauseKind.all.any fun c => k == c.opener
  | _ => false

/-- Of two neighbours no number or point runs into one of these words, or FROM
    into a number or point in front of it. -/
def Parted (t u : Token) : Prop :=
  t.gap.isEmpty = true →
    (t.kind.isNumeric = true → u.kind ≠ .keyword .from)
      ∧ (u.kind.isNumeric = true → t.kind.isLookedFor = false)

instance (t u : Token) : Decidable (Parted t u) := inferInstanceAs (Decidable (_ → _ ∧ _))

/-- What keeps the words of a statement in plain sight. -/
structure InSight (s : Select) (stream : TokenStream) : Prop where
  /-- No comment is a block comment. -/
  lead : holdsBlock false stream.lead.toList = false
  gaps : ∀ t ∈ stream.tokens, holdsBlock false t.gap.toList = false
  parted : stream.tokens.IsChain Parted
  /-- No function is called GROUP or ORDER, and none in the SELECT list FROM. -/
  calls : ∀ k ∈ openerCalls.ofSelect s, k = .from
  items : .from ∉ s.items.flatMap openerCalls.ofItem

/-- The token begins a clause. -/
def Token.opensClause (t : Token) : Bool := ClauseKind.all.any fun c => t.isKeyword c.opener

/-- The tokens behind the first FROM. -/
def behindFrom (ts : List Token) : List Token := (ts.dropWhile (!·.isKeyword .from)).tail

/-- Behind FROM a word stands outside of quotes, before any clause. -/
def FromNamesWord (ts : List Token) : Prop :=
  ((behindFrom ts).find? (·.kind.isWordy)).any (!·.opensClause) = true

instance (ts : List Token) : Decidable (FromNamesWord ts) := inferInstanceAs (Decidable (_ = _))

/-- The words of a statement are those of its tokens. -/
theorem writtenWords_of_stream {sql lead : String} {tokens : List Token}
    (h : TokenStream.ofString? sql = some ⟨lead, tokens⟩)
    (hlead : holdsBlock false lead.toList = false)
    (hgaps : ∀ t ∈ tokens, holdsBlock false t.gap.toList = false) :
    writtenWords sql = ofTokens [] tokens := by
  obtain ⟨htext, hstart, ⟨o, hgap, hopen⟩, hspelled⟩ := Lexer.ofString_iff.mp h
  rw [writtenWords, htext, Words.scan_gap hgap hlead (fun ho => by rw [hopen ho]; rfl),
    Words.finish_nil, List.nil_append, ite_self, Words.scan_chars hspelled hstart hgaps]

section Parted

variable {t : Token} {ts : List Token} (hspelled : Spelled (t :: ts))
include hspelled

/-- A reserved word that nothing numeric runs into is a word of its own. -/
theorem ofTokens_keyword {k : Keyword} (hk : t.kind = .keyword k)
    (hends : t.gap.isEmpty = true → ∀ u ∈ ts.head?, u.kind.isNumeric = false) :
    ofTokens [] (t :: ts) = t.lexeme :: ofTokens [] ts := by
  have hwordy : t.kind.isWordy = true := by rw [hk]; rfl
  refine Words.ofTokens_single hspelled hwordy fun hgap u hu => ?_
  rw [TokenKind.isWordy, hends hgap u hu, Bool.or_false]
  cases hword : u.kind.isWord with
  | false => rfl
  | true =>
      obtain ⟨c, hc, halpha⟩ := Words.seals_touching hspelled hwordy hgap [] u hu hword
      rw [List.append_nil, List.mem_reverse] at hc
      have hletters := letters_of_upper (upper_of_kind hspelled.1 hk)
      exact absurd (halpha.symm.trans (hletters c hc)) (by decide)

/-- A keyword the pre-flight looks for is a written word by itself. -/
theorem ofTokens_lookedFor {k : Keyword} (hk : t.kind = .keyword k)
    (hlooked : t.kind.isLookedFor = true) (hparted : (t :: ts).IsChain Parted) :
    ofTokens [] (t :: ts) = t.lexeme :: ofTokens [] ts := by
  refine ofTokens_keyword hspelled hk fun hgap u hu => ?_
  obtain ⟨more, rfl⟩ := List.head?_eq_some_iff.mp hu
  cases hnumeric : u.kind.isNumeric with
  | false => rfl
  | true =>
      have hnot := ((List.isChain_cons_cons.mp hparted).1 hgap).2 hnumeric
      exact nomatch hlooked.symm.trans hnot

end Parted

theorem opensClause_iff {t : Token} :
    t.opensClause = true ↔ ∃ c : ClauseKind, t.kind = .keyword c.opener := by
  rw [Token.opensClause, List.any_eq_true]
  exact ⟨fun ⟨c, _, hc⟩ => ⟨c, beq_iff_eq.mp hc⟩, fun ⟨c, hc⟩ => ⟨c, c.mem_all, beq_iff_eq.mpr hc⟩⟩

/-- The words never taken for a table are the openers of the clauses. -/
theorem neverTables_iff {w : String} :
    neverTables.contains w = true ↔ ∃ c : ClauseKind, w = upper c.opener.word := by
  have hlist : neverTables = ClauseKind.all.map fun c => upper c.opener.word := by decide
  rw [hlist, List.contains_iff_mem, List.mem_map]
  exact ⟨fun ⟨c, _, hc⟩ => ⟨c, hc.symm⟩, fun ⟨c, hc⟩ => ⟨c, c.mem_all, hc.symm⟩⟩

/-- The first word outside of quotes opens a clause where the first token of a word does. -/
theorem bareWords_first {ts : List Token} (hspelled : Spelled ts) (hparted : ts.IsChain Parted) :
    match ts.find? (·.kind.isWordy) with
    | none => (ofTokens [] ts).filterMap bareWord = []
    | some t => ∃ x back, (ofTokens [] ts).filterMap bareWord = x :: back
        ∧ (neverTables.contains x = true ↔ t.opensClause = true) := by
  -- Tokens that are no part of words, and quoted names, give no bare word. So the first bare word
  -- is the one that the first other token begins, and only a keyword by itself can be one of
  -- those that are never tables.
  induction ts with
  | nil => rfl
  | cons t ts ih =>
      have hlexeme := hspelled.1
      -- the token begins the first word
      by_cases hwordy : t.kind.isWordy = true
      · rw [List.find?_cons_of_pos (p := fun u : Token => u.kind.isWordy) hwordy]
        -- a keyword that is looked for stands by itself, even where other tokens touch it
        by_cases hopens : t.opensClause = true
        · obtain ⟨c, hc⟩ := opensClause_iff.mp hopens
          have hlooked : t.kind.isLookedFor = true := by
            rw [hc]
            cases c <;> decide
          refine ⟨upper t.lexeme, (ofTokens [] ts).filterMap bareWord, ?_,
            ⟨fun _ => hopens, fun _ => neverTables_iff.mpr ⟨c, upper_of_kind hlexeme hc⟩⟩⟩
          rw [ofTokens_lookedFor hspelled hc hlooked hparted,
            List.filterMap_cons_some (bareWord_wordy hlexeme hwordy List.prefix_rfl)]
        · obtain ⟨x, back, hwords, hfront, hletters⟩ := Words.ofTokens_head hspelled hwordy
          refine ⟨upper x, back.filterMap bareWord, ?_, ⟨fun hnever => ?_, fun h => absurd h hopens⟩⟩
          · rw [hwords, List.filterMap_cons_some (bareWord_wordy hlexeme hwordy hfront)]
          · obtain ⟨c, hc⟩ := neverTables_iff.mp hnever
            obtain rfl := hletters (letters_of_upper hc)
            have hword : t.kind.isWord = true := by
              rcases Bool.or_eq_true_iff.mp hwordy with hword | hnumeric
              · exact hword
              · obtain ⟨d, hd, halpha⟩ := hlexeme.not_letters hnumeric
                exact nomatch halpha.symm.trans (letters_of_upper hc d hd)
            exact opensClause_iff.mpr ⟨c, kind_of_upper hlexeme hword hc⟩
      · rw [List.find?_cons_of_neg (p := fun u : Token => u.kind.isWordy) hwordy]
        have hwordy := Bool.eq_false_iff.mpr hwordy
        have hsame : (ofTokens [] (t :: ts)).filterMap bareWord
            = (ofTokens [] ts).filterMap bareWord := by
          by_cases hquoted : t.kind = .quoted
          · rw [Words.ofTokens_quoted hquoted, Words.finish_nil, List.nil_append,
              List.filterMap_cons_none (bareWord_quoted hlexeme hquoted)]
          · rw [Words.ofTokens_mark hwordy hquoted, Words.finish_nil, List.nil_append]
        rw [hsame]
        exact ih hspelled.2.2.2.2 hparted.tail

/-! ## The words of an accepted statement -/

section Statement

variable {sql lead : String} {s : Select} {depth size : Nat}
  {tokens list sources rest : List Token} {items : Taken (List SelectItem)}
  {tables : Taken (List TableRef)}

/-- Behind FROM stands the name of the first table, and nothing numeric behind it. -/
theorem Parts.base_name {e : Parser Expr} (h : Parts e size tokens s list items sources tables rest)
    (hended : Ended rest) : ∃ a more, sources = a :: more ∧ a.identifier? = some s.base.name
      ∧ ∀ u ∈ more.head?, u.kind.isNumeric = false := by
  have hlist : commaList table sources = (table sources).map fun first =>
      ⟨first.value :: (many (afterComma table) first.rest).value,
        (many (afterComma table) first.rest).rest, (many (afterComma table) first.rest).open?⟩ := by
    unfold commaList
    cases table sources <;> rfl
  have htable : table sources = (identifier sources).map fun name =>
      ⟨⟨name.value, (optAlias name.rest).1⟩, (optAlias name.rest).2,
        (optAlias name.rest).1.isNone⟩ := by
    unfold table
    cases identifier sources <;> rfl
  have htables := h.tables_eq
  rw [hlist, htable] at htables
  cases hname : identifier sources with
  | none => rw [hname] at htables; cases htables
  | some name =>
      rw [hname] at htables
      obtain rfl := Option.some.inj htables
      obtain ⟨a, rfl, ha⟩ := identifier_some hname
      have hbase : s.base = ⟨name.value, (optAlias name.rest).1⟩ :=
        (List.cons.inj h.tables_value).1
      refine ⟨a, name.rest, rfl, by rw [hbase]; exact ha, fun u hu => ?_⟩
      cases hnumeric : u.kind.isNumeric with
      | false => rfl
      | true =>
          -- what is numeric neither goes on with the FROM list nor begins anything behind it
          obtain ⟨more, hmore⟩ := List.head?_eq_some_iff.mp hu
          have hkeyword : ∀ k, keyword k name.rest = none := by
            intro k
            rw [hmore]
            refine if_neg fun hk => ?_
            rw [beq_iff_eq.mp hk] at hnumeric
            cases hnumeric
          have hcomma : symbol .comma name.rest = none := by
            rw [hmore]
            refine if_neg fun hk => ?_
            rw [beq_iff_eq.mp hk] at hnumeric
            cases hnumeric
          have hidentifier : identifier name.rest = none := by
            rw [hmore]
            show u.identifier?.map _ = none
            cases hread : u.identifier? with
            | none => rfl
            | some x =>
                rcases Token.kind_of_identifier hread with hk | hk <;>
                  (rw [hk] at hnumeric; cases hnumeric)
          have halias : optAlias name.rest = (none, name.rest) := by
            rw [optAlias, optKeyword, hkeyword, hidentifier]
          have hafter : afterComma table name.rest = none := by rw [afterComma, hcomma]
          have hjoin : join e size name.rest = none := by
            have hkind : joinKind name.rest = none := by
              simp only [joinKind, hkeyword, optKeyword]
              rfl
            rw [join_eq, hkind]
            rfl
          have hclauses := h.clauses
          simp only [halias, many_none hafter, many_none hjoin] at hclauses
          rw [readClauses_none fun k _ => clauseOf_none fun v hv hk => ?_] at hclauses
          · obtain rfl := (Prod.mk.inj hclauses).2
            rcases hended.cases with hnil | ⟨t, hone, ht⟩
            · rw [hnil] at hmore
              cases hmore
            · obtain rfl := (List.cons.inj (hmore.symm.trans hone)).1
              rw [ht] at hnumeric
              cases hnumeric
          · obtain rfl : u = v := Option.some.inj (hu.symm.trans hv)
            rw [hk] at hnumeric
            cases hnumeric

variable (h : Parts (expr depth) size tokens s list items sources tables rest)
  (hended : Ended rest) (hspelled : Spelled tokens) (hparted : tokens.IsChain Parted)
include h hspelled hparted

/-- The first word is SELECT. -/
theorem Parts.words_first : ∃ x back, ofTokens [] tokens = x :: back ∧ bareWord x = some "SELECT" := by
  obtain ⟨behind, hselect, -⟩ := Option.map_eq_some_iff.mp h.list_eq
  obtain ⟨t, rfl, ht⟩ := keyword_some hselect
  refine ⟨t.lexeme, _, ofTokens_lookedFor hspelled ht (by rw [ht]; decide) hparted, ?_⟩
  rw [bareWord_wordy hspelled.1 (by rw [ht]; rfl) List.prefix_rfl, upper_of_kind hspelled.1 ht]
  decide

/-- The words are those in front of FROM, FROM, and those behind it, if none in
    front of it names a call FROM. -/
theorem Parts.words_from (hended : Ended rest)
    (hitems : .from ∉ s.items.flatMap openerCalls.ofItem) :
    ∃ front f, ofTokens [] tokens = front ++ f :: ofTokens [] sources ∧ bareWord f = some "FROM"
      ∧ (∀ x ∈ front, upper x ≠ "FROM") ∧ behindFrom tokens = sources := by
  obtain ⟨front, f, rfl, hf, hfront⟩ := h.front_from hspelled hitems
  have hbehind : Spelled (f :: sources) := hspelled.behind
  have hfrom : "FROM" = upper Keyword.from.word := by decide
  refine ⟨ofTokens [] front, f.lexeme, ?_, ?_, fun x hx hupper => ?_, ?_⟩
  · rw [Words.ofTokens_append [] fun _ => rfl, ofTokens_keyword hbehind hf]
    · -- behind FROM stands an identifier
      obtain ⟨a, more, rfl, ha, -⟩ := h.base_name hended
      intro _ u hu
      obtain rfl : a = u := Option.some.inj hu
      rcases Token.kind_of_identifier ha with hk | hk <;> rw [hk] <;> rfl
    · intro t ht hwordy
      cases hgap : t.gap.isEmpty with
      | false => rfl
      | true =>
          obtain ⟨front', rfl⟩ := List.getLast?_eq_some_iff.mp ht
          have hseam : Parted t f := by
            have hchain := (List.isChain_append.mp hparted).2.2
            exact hchain t ht f rfl
          have hspelled' : Spelled (t :: f :: sources) := by
            rw [List.append_assoc] at hspelled
            exact hspelled.behind
          have hnumeric := Words.numeric_of_touching hspelled' hwordy hgap (by rw [hf]; rfl)
          exact absurd hf ((hseam hgap).1 hnumeric)
  · rw [bareWord_wordy hbehind.1 (by rw [hf]; rfl) List.prefix_rfl, upper_of_kind hbehind.1 hf, hfrom]
  -- a word FROM would be a token of its own, and none stands in front
  · obtain ⟨before, back, hsplit⟩ := List.append_of_mem hx
    rw [hfrom] at hupper
    rcases Words.ofTokens_letters hspelled.front (absurd rfl) hsplit (letters_of_upper hupper) with
      ⟨hne, -⟩ | ⟨before', t, behind, rfl, hword, rfl, -⟩
    · exact absurd rfl hne
    · exact hfront t (by simp) (kind_of_upper (lexeme_of_spelled hspelled.front) hword hupper)
  · have hdrop : (front ++ f :: sources).dropWhile (!·.isKeyword .from) = f :: sources := by
      rw [List.dropWhile_append_of_pos fun t ht => ?_, List.dropWhile_cons_of_neg ?_]
      · rw [show f.isKeyword .from = true from beq_iff_eq.mpr hf]
        exact Bool.false_ne_true
      · rw [show t.isKeyword .from = false from beq_false_of_ne (hfront t ht)]
        rfl
    rw [behindFrom, hdrop, List.tail_cons]

/-- Behind the words GROUP and ORDER stands BY. -/
theorem Parts.words_by (hended : Ended rest) (hcalls : ∀ k ∈ openerCalls.ofSelect s, k = .from) :
    checkBy ((ofTokens [] tokens).filterMap bareWord) = .ok () := by
  have hby := h.byFollows hspelled hended hcalls
  -- the check passes if BY follows each GROUP and ORDER among the words
  have hcheck : ∀ ws : List String,
      (∀ front w back, ws = front ++ w :: back → w = "GROUP" ∨ w = "ORDER" →
        back.head? = some "BY") → checkBy ws = .ok () := by
    intro ws
    induction ws with
    | nil => exact fun _ => rfl
    | cons w ws ih =>
        intro hall
        rw [checkBy, if_neg]
        · exact ih fun front v back heq => hall (w :: front) v back (congrArg _ heq)
        · simp only [Bool.and_eq_true, Bool.or_eq_true, beq_iff_eq, bne_iff_ne, not_and, not_not]
          exact hall [] w ws rfl
  -- such a word is a token of its own, a keyword, and BY is the next token
  refine hcheck _ fun front w back hsplit hw => ?_
  obtain ⟨ws, vs, hwords, -, hvs⟩ := List.filterMap_eq_append_iff.mp hsplit
  obtain ⟨skipped, x, back', rfl, -, hx, rfl⟩ := List.filterMap_eq_cons_iff.mp hvs
  obtain ⟨k, hk, hupper⟩ : ∃ k : Keyword, (k = .group ∨ k = .order) ∧ upper x = upper k.word := by
    rcases hw with rfl | rfl
    · exact ⟨.group, .inl rfl, (bareWord_some hx).trans (by decide)⟩
    · exact ⟨.order, .inr rfl, (bareWord_some hx).trans (by decide)⟩
  rw [← List.append_assoc] at hwords
  rcases Words.ofTokens_letters hspelled (absurd rfl) hwords (letters_of_upper hupper) with
    ⟨hne, -⟩ | ⟨before, t, behind, rfl, hword, rfl, rfl⟩
  · exact absurd rfl hne
  · have hkind := kind_of_upper (lexeme_of_spelled hspelled) hword hupper
    obtain ⟨u, hu, hukind⟩ := hby.at (by rcases hk with rfl | rfl <;> simp [hkind])
    obtain ⟨more, rfl⟩ := List.head?_eq_some_iff.mp hu
    have hspelledBy : Spelled (u :: more) := hspelled.behind.2.2.2.2
    have hpartedBy : (u :: more).IsChain Parted := (List.isChain_append.mp hparted).2.1.tail
    rw [ofTokens_lookedFor hspelledBy hukind (by rw [hukind]; decide) hpartedBy, List.filterMap_cons_some
      (bareWord_wordy hspelledBy.1 (by rw [hukind]; rfl) List.prefix_rfl),
      upper_of_kind hspelledBy.1 hukind, List.head?_cons]
    decide

end Statement

/-! ## The table behind FROM -/

/-- No name of a table is one of the words that never are. -/
theorem clauseWords_not {w : String} (h : ∀ k, upper w ≠ upper (Keyword.word k)) :
    clauseWords.contains (upper w) = false := by
  have hall : ∀ v ∈ clauseWords, Keyword.all.any fun k => v == upper k.word := by decide +kernel
  cases hread : clauseWords.contains (upper w) with
  | false => rfl
  | true =>
      obtain ⟨k, -, hk⟩ := List.any_eq_true.mp (hall _ (List.contains_iff_mem.mp hread))
      exact absurd (beq_iff_eq.mp hk) (h k)

/-- What does not match is not taken off. -/
theorem mem_dropWhile {p : Char → Bool} {c : Char} {cs : List Char} (hc : c ∈ cs)
    (hp : p c = false) : c ∈ cs.dropWhile p := by
  rw [← List.takeWhile_append_dropWhile (p := p) (l := cs)] at hc
  rcases List.mem_append.mp hc with htake | hdrop
  · exact nomatch hp.symm.trans (List.mem_takeWhile_imp htake)
  · exact hdrop

/-- No quotes are taken off a text without them. -/
theorem dropTrailing_plain {cs : List Char} (h : ∀ c ∈ cs, c ≠ '"') :
    (cs.reverse.dropWhile (· == '"')).reverse = cs := by
  have hnone : cs.reverse.dropWhile (· == '"') = cs.reverse := by
    cases hrev : cs.reverse with
    | nil => rfl
    | cons c more =>
        have hc : c ∈ cs := List.mem_reverse.mp (hrev ▸ List.mem_cons_self)
        exact List.dropWhile_cons_of_neg (by simpa using h c hc)
  rw [hnone, List.reverse_reverse]

theorem unquoted_plain {cs : List Char} (h : ∀ c ∈ cs, c ≠ '"') :
    unquoted (String.ofList cs) = String.ofList cs := by
  have hfront : cs.dropWhile (· == '"') = cs := by
    cases cs with
    | nil => rfl
    | cons c cs => exact List.dropWhile_cons_of_neg (by simpa using h c List.mem_cons_self)
  rw [unquoted, String.toList_ofList, hfront, dropTrailing_plain h]

theorem unquoted_inQuotes {body : List Char} (h : ∀ c ∈ body, c ≠ '"') :
    unquoted (String.ofList ('"' :: (body ++ ['"']))) = String.ofList body := by
  rw [unquoted, String.toList_ofList, List.dropWhile_cons_of_pos (by rfl)]
  cases body with
  | nil => rfl
  | cons c body =>
      rw [List.cons_append, List.dropWhile_cons_of_neg (by simpa using h c List.mem_cons_self),
        ← List.cons_append, List.reverse_append, List.reverse_singleton, List.singleton_append,
        List.dropWhile_cons_of_pos (by rfl), dropTrailing_plain h]

/-- Nothing but quotes is taken off. -/
theorem mem_unquoted {c : Char} {cs : List Char} (hc : c ∈ cs) (hquote : c ≠ '"') :
    c ∈ (unquoted (String.ofList cs)).toList := by
  have hp : (c == '"') = false := beq_false_of_ne hquote
  rw [unquoted, String.toList_ofList, String.toList_ofList, List.mem_reverse]
  exact mem_dropWhile (List.mem_reverse.mpr (mem_dropWhile hc hp)) hp

/-- A name as it stands for a table: its word is none that never does, and holds the name. -/
theorem unquoted_of_identifier {t : Token} {name : String} (h : Lexeme t.kind t.lexeme.toList)
    (hname : t.identifier? = some name) :
    clauseWords.contains (upper t.lexeme) = false ∧ unquoted t.lexeme = name := by
  unfold Token.identifier? at hname
  split at hname
  · rename_i hk
    obtain rfl := Option.some.inj hname
    obtain ⟨c, cs, hlexeme, hstart, hrest, hkind⟩ := h.isWord (.inl hk)
    have hnone := ofWord_of_name (hkind.symm.trans hk)
    rw [String.ofList_toList] at hnone
    refine ⟨clauseWords_not fun k hupper => ?_, ?_⟩
    · rw [Keyword.upper_iff.mp hupper] at hnone
      cases hnone
    · have hplain : ∀ d ∈ t.lexeme.toList, d ≠ '"' := by
        rw [hlexeme]
        refine List.forall_mem_cons.mpr ⟨?_, fun d hd => (Regions.wordChar_bare (hrest d hd)).2.1⟩
        exact (Regions.wordChar_bare (Lexer.isWordChar_of_isWordStart hstart)).2.1
      have hunquoted := unquoted_plain hplain
      rw [String.ofList_toList] at hunquoted
      exact hunquoted
  · rename_i hk
    obtain rfl := Option.some.inj hname
    obtain ⟨body, hlexeme, hbody⟩ := h.inQuotes hk
    refine ⟨clauseWords_not fun k hupper => ?_, ?_⟩
    · have hletters := letters_of_upper hupper
      rw [hlexeme] at hletters
      exact absurd (hletters '"' List.mem_cons_self) (by decide)
    · have hname : (t.lexeme.toList.drop 1).dropLast = body := by
        rw [hlexeme, List.drop_one, List.tail_cons, List.dropLast_concat]
      rw [hname, ← unquoted_inQuotes hbody, ← hlexeme, String.ofList_toList]
  · cases hname

/-- The word behind the first that satisfies a condition. -/
theorem wordAfter_append {p : String → Bool} {front back : List String} {w next : String}
    (hfront : ∀ x ∈ front, p x = false) (hw : p w = true) :
    wordAfter? p (front ++ w :: next :: back) = some next := by
  rw [wordAfter?, List.dropWhile_append_of_pos fun x hx => by simp [hfront x hx],
    List.dropWhile_cons_of_neg (by simp [hw])]

/-- A FROM list is looked at by the first word behind FROM. -/
theorem checkFrom_iff {words front back : List String} (hselect : words.head? = some "SELECT")
    (hsplit : words = front ++ "FROM" :: back) (hfront : "FROM" ∉ front) :
    checkFrom words = .ok () ↔ back.head?.any (!neverTables.contains ·) = true := by
  have hpass : ∀ w ∈ front, (w != "FROM") = true :=
    fun w hw => bne_iff_ne.mpr fun h => hfront (h ▸ hw)
  have hdrop : words.dropWhile (· != "FROM") = "FROM" :: back := by
    rw [hsplit, List.dropWhile_append_of_pos hpass, List.dropWhile_cons_of_neg (by simp)]
  rw [checkFrom, if_pos (beq_iff_eq.mpr hselect), hdrop]
  cases back with
  | nil => exact ⟨nofun, nofun⟩
  | cons next back =>
      show (if neverTables.contains next then Except.error _ else .ok ()) = .ok ()
        ↔ (!neverTables.contains next) = true
      cases neverTables.contains next with
      | false => exact ⟨fun _ => rfl, fun _ => rfl⟩
      | true => exact ⟨nofun, nofun⟩

/-- A text with a character that is not blank is not empty when trimmed. -/
theorem trim_isEmpty {s : String} {c : Char} (hc : c ∈ s.toList) (hblank : Text.isBlank c = false) :
    (trim s).isEmpty = false := by
  have hmem : c ∈ (trim s).toList := by
    rw [trim, Text.trimEnd, Text.trimStart, String.toList_ofList, String.toList_ofList,
      Text.dropTrailing, List.mem_reverse]
    exact mem_dropWhile (List.mem_reverse.mpr (mem_dropWhile hc hblank)) hblank
  rw [← Words.isEmpty_toList]
  exact List.isEmpty_eq_false_iff.mpr (List.ne_nil_of_mem hmem)

/-- Of a text that the grammar accepts, only three things are looked at. -/
theorem validate_parts {sql : String} {s : Select} (hparse : parse sql = .ok s)
    (hblank : (trim sql).isEmpty = false) : validate sql = .ok () ↔
    checkParentheses false 0 0 sql.toList = .ok () ∧ checkBy (upperWords sql) = .ok ()
      ∧ checkFrom (upperWords sql) = .ok () := by
  rw [validate, if_neg (by rw [hblank]; exact Bool.false_ne_true), hparse]
  cases checkParentheses false 0 0 sql.toList <;>
    cases hby : checkBy (upperWords sql) <;> simp [hby, bind, Except.bind]

/-! ## Agreement -/

section Agreement

variable {sql : String} {s : Select} {stream : TokenStream} (hparse : parse sql = .ok s)
  (hstream : TokenStream.ofString? sql = some stream) (hsight : InSight s stream)
include hparse hstream hsight

/-- Accepted text is classified by its first word, which is `SELECT`. -/
theorem classify_of_parse : classify sql = .ok .select := by
  obtain ⟨lead, tokens, list, items, sources, tables, rest, hstream', hparts, -, -⟩ :=
    parts_of_parse hparse
  obtain rfl := Option.some.inj (hstream.symm.trans hstream')
  obtain ⟨x, back, hwords, hx⟩ :=
    hparts.words_first (spelled_of_stream hstream') hsight.parted
  have hfirst : (upperWords sql).headD "" = "SELECT" := by
    rw [upperWords_eq, writtenWords_of_stream hstream' hsight.lead hsight.gaps, hwords,
      List.filterMap_cons_some hx]
    rfl
  rw [classify, hfirst]
  rfl

/-- The table guessed from the written words is the one the parser reads after `FROM`. -/
theorem firstFromTable_of_parse : firstFromTable? sql = some s.base.name := by
  obtain ⟨lead, tokens, list, items, sources, tables, rest, hstream', hparts, hended, -⟩ :=
    parts_of_parse hparse
  obtain rfl := Option.some.inj (hstream.symm.trans hstream')
  have hspelled := spelled_of_stream hstream'
  obtain ⟨front, f, hwords, hf, hfront, -⟩ :=
    hparts.words_from hspelled hsight.parted hended hsight.items
  -- behind FROM stands the name of the table, and no word or number touches it
  obtain ⟨a, more, rfl, ha, hmore⟩ := hparts.base_name hended
  have hsources : Spelled (a :: more) := by
    obtain ⟨before, g, heq, -⟩ := hparts.front_from hspelled hsight.items
    rw [heq] at hspelled
    exact hspelled.behind.2.2.2.2
  have hbehind : ofTokens [] (a :: more) = a.lexeme :: ofTokens [] more := by
    rcases Token.kind_of_identifier ha with hk | hk
    · have hwordy : a.kind.isWordy = true := by rw [hk]; rfl
      refine Words.ofTokens_single hsources hwordy fun hgap u hu => ?_
      obtain ⟨later, rfl⟩ := List.head?_eq_some_iff.mp hu
      rw [TokenKind.isWordy, hmore u hu, Bool.or_false]
      cases hword : u.kind.isWord with
      | false => rfl
      | true =>
          have hnumeric := Words.numeric_of_touching hsources hwordy hgap hword
          rw [hk] at hnumeric
          cases hnumeric
    · rw [Words.ofTokens_quoted hk]
      rfl
  have hfrom : "FROM" = upper "FROM" := by decide
  obtain ⟨hword, hname⟩ := unquoted_of_identifier hsources.1 ha
  have hnext : wordAfter? (sameLetters "FROM") (writtenWords sql) = some a.lexeme := by
    rw [writtenWords_of_stream hstream' hsight.lead hsight.gaps, hwords, hbehind]
    refine wordAfter_append (fun x hx => ?_) (sameLetters_iff_upper.mpr ?_)
    · refine Bool.eq_false_iff.mpr fun hsame => hfront x hx ?_
      rw [← sameLetters_iff_upper.mp hsame, ← hfrom]
    · rw [bareWord_some hf, ← hfrom]
  rw [firstFromTable?, hnext]
  simp only [Option.bind_eq_bind, Option.bind_some, hword, hname]
  rfl

/-- There is no objection but to the parentheses and to a FROM list of quoted names. -/
theorem validate_iff : validate sql = .ok () ↔
    checkParentheses false 0 0 sql.toList = .ok () ∧ FromNamesWord stream.tokens := by
  obtain ⟨lead, tokens, list, items, sources, tables, rest, hstream', hparts, hended, -⟩ :=
    parts_of_parse hparse
  obtain rfl := Option.some.inj (hstream.symm.trans hstream')
  have hspelled := spelled_of_stream hstream'
  have hwords := writtenWords_of_stream hstream' hsight.lead hsight.gaps
  obtain ⟨first, behind, hfirst, hselect⟩ := hparts.words_first hspelled hsight.parted
  obtain ⟨front, f, hsplit, hf, hfront, hbehind⟩ :=
    hparts.words_from hspelled hsight.parted hended hsight.items
  have hsources : Spelled sources ∧ sources.IsChain Parted := by
    obtain ⟨before, g, rfl, -⟩ := hparts.front_from hspelled hsight.items
    exact ⟨hspelled.behind.2.2.2.2, (List.isChain_append.mp hsight.parted).2.1.tail⟩
  -- the words that are looked at are those of the tokens
  have hupper : upperWords sql = (ofTokens [] tokens).filterMap bareWord := by
    rw [upperWords_eq, hwords]
  -- the first FROM among the words is the one behind the list, since no item holds another, and
  -- the word behind it is that of the first token that has one
  have hfrom : checkFrom (upperWords sql) = .ok () ↔ FromNamesWord tokens := by
    have hhead : (upperWords sql).head? = some "SELECT" := by
      rw [hupper, hfirst, List.filterMap_cons_some hselect]
      rfl
    have hwhole : upperWords sql = front.filterMap bareWord
        ++ "FROM" :: (ofTokens [] sources).filterMap bareWord := by
      rw [hupper, hsplit, List.filterMap_append, List.filterMap_cons_some hf]
    have hnone : "FROM" ∉ front.filterMap bareWord := by
      intro hmem
      obtain ⟨x, hx, hbare⟩ := List.mem_filterMap.mp hmem
      exact hfront x hx (bareWord_some hbare)
    rw [checkFrom_iff hhead hwhole hnone, FromNamesWord, hbehind]
    have hword := bareWords_first hsources.1 hsources.2
    cases hfind : sources.find? (·.kind.isWordy) with
    | none =>
        rw [hfind] at hword
        rw [hword]
        rfl
    | some t =>
        rw [hfind] at hword
        obtain ⟨x, back, hback, hopens⟩ := hword
        rw [hback]
        show (!neverTables.contains x) = true ↔ (!t.opensClause) = true
        rw [Bool.not_eq_true', Bool.not_eq_true', ← Bool.not_eq_true, ← Bool.not_eq_true, hopens]
  -- the check of BY always passes, and the text is not blank
  have hblank : (trim sql).isEmpty = false := by
    obtain ⟨behind', hread, -⟩ := Option.map_eq_some_iff.mp hparts.list_eq
    obtain ⟨t, rfl, -⟩ := keyword_some hread
    obtain ⟨before, c, hlexeme, hc⟩ := hspelled.1.ends
    refine trim_isEmpty (c := c) ?_ hc
    rw [toList_of_stream hstream', Lexer.chars_cons, hlexeme]
    simp
  have hby : checkBy (upperWords sql) = .ok () := by
    rw [hupper]
    exact hparts.words_by hspelled hsight.parted hended hsight.calls
  rw [validate_parts hparse hblank, hfrom]
  exact ⟨fun h => ⟨h.1, h.2.2⟩, fun h => ⟨h.1, hby, h.2⟩⟩

/-- The quick look agrees with the grammar on a statement in plain sight, but
    for a FROM list of quoted names, and parentheses and single quotes in
    comments and quoted names. -/
theorem preflight_agrees : classify sql = .ok .select ∧ firstFromTable? sql = some s.base.name
    ∧ (validate sql = .ok () ↔
      checkParentheses false 0 0 sql.toList = .ok () ∧ FromNamesWord stream.tokens)
    ∧ (stream.IsSettled → (validate sql = .ok () ↔ FromNamesWord stream.tokens)) := by
  have hvalid := validate_iff hparse hstream hsight
  refine ⟨classify_of_parse hparse hstream hsight, firstFromTable_of_parse hparse hstream hsight,
    hvalid, fun hsettled => ?_⟩
  rw [hvalid]
  exact and_iff_right (checkParentheses_of_parse hparse hstream hsettled)

end Agreement

/-- Quotes, a comment and a number that runs into AND, all in plain sight. -/
def aliasedSelect : String :=
  "SELECT \"a (b)\", 'it''s (' FROM \"t\" AS x -- (done)\nWHERE a = 1AND b IN (2)"

/-- The aliased statement above meets every condition, and the three pre-flights answer as the
parser does. -/
theorem preflight_agrees_aliased : ∃ s stream, parse aliasedSelect = .ok s
    ∧ TokenStream.ofString? aliasedSelect = some stream ∧ InSight s stream ∧ stream.IsSettled
    ∧ classify aliasedSelect = .ok .select ∧ firstFromTable? aliasedSelect = some s.base.name
    ∧ validate aliasedSelect = .ok () := by
  obtain ⟨s, hs⟩ := accepted_of_isOk (show (parse aliasedSelect).isOk = true by decide +kernel)
  obtain ⟨⟨lead, tokens⟩, hstream⟩ := Option.isSome_iff_exists.mp
    (show (TokenStream.ofString? aliasedSelect).isSome = true by decide +kernel)
  have hcalls : (parse aliasedSelect).toOption.map
      (fun s => (openerCalls.ofSelect s, s.items.flatMap openerCalls.ofItem)) = some ([], []) := by
    decide +kernel
  rw [hs] at hcalls
  obtain ⟨hselect, hitems⟩ := Prod.mk.inj (Option.some.inj hcalls)
  have hlook : ∀ stream ∈ TokenStream.ofString? aliasedSelect,
      holdsBlock false stream.lead.toList = false
        ∧ (∀ t ∈ stream.tokens, holdsBlock false t.gap.toList = false)
        ∧ stream.tokens.IsChain Parted ∧ FromNamesWord stream.tokens
        ∧ Settled stream.lead.toList ∧ ∀ t ∈ stream.tokens, t.IsSettled := by
    decide +kernel
  obtain ⟨hlead, hgaps, hparted, hnames, hsettledLead, hsettled⟩ := hlook _ hstream
  have hsight : InSight s ⟨lead, tokens⟩ :=
    ⟨hlead, hgaps, hparted, by rw [hselect]; exact nofun, by rw [hitems]; exact nofun⟩
  obtain ⟨hclassify, hfirst, -, hvalid⟩ := preflight_agrees hs hstream hsight
  exact ⟨s, ⟨lead, tokens⟩, hs, hstream, hsight, ⟨hsettledLead, hsettled⟩, hclassify, hfirst,
    (hvalid ⟨hsettledLead, hsettled⟩).mpr hnames⟩

/-- Statements that the grammar accepts and the quick look misreads: by a block
    comment, a FROM list of quoted names, an apostrophe in a comment, a number that
    runs into FROM, and a function called GROUP. -/
theorem preflight_disagrees :
    ((parse "/* DELETE */ SELECT a FROM t").isOk = true
        ∧ classify "/* DELETE */ SELECT a FROM t" = .ok .delete)
      ∧ ((parse "SELECT a FROM /* x */ t").isOk = true
        ∧ firstFromTable? "SELECT a FROM /* x */ t" = some "x")
      ∧ ((parse "SELECT a FROM \"t\" WHERE b = 1").isOk = true
        ∧ validate "SELECT a FROM \"t\" WHERE b = 1" = .error (.keywordAfterFrom "WHERE"))
      ∧ ((parse "SELECT a FROM t -- it's").isOk = true
        ∧ validate "SELECT a FROM t -- it's" = .error .unterminatedText)
      ∧ ((parse "SELECT 1FROM t").isOk = true
        ∧ validate "SELECT 1FROM t" = .error .missingFrom)
      ∧ ((parse "SELECT group(a) FROM t").isOk = true
        ∧ validate "SELECT group(a) FROM t" = .error (.missingBy "GROUP")) :=
  ⟨⟨by decide +kernel, by decide +kernel⟩, ⟨by decide +kernel, by decide +kernel⟩,
    ⟨by decide +kernel, by decide +kernel⟩, ⟨by decide +kernel, by decide +kernel⟩,
    ⟨by decide +kernel, by decide +kernel⟩, ⟨by decide +kernel, by decide +kernel⟩⟩

end QueryReplay.Sql
