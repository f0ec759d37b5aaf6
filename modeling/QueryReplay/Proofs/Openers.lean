import QueryReplay.Proofs.Contents
import QueryReplay.Proofs.Cutting

/-! # Openers — where FROM, GROUP and ORDER stand in a statement

    The three words that open a list can also name functions.  Where no call is
    named so they stand only where the grammar puts them: no FROM stands in the
    SELECT list (`Parts.list_from`), and behind every GROUP and ORDER stands BY
    (`Parts.byFollows`).  Both follow from what the leaves of a statement hold. -/

namespace QueryReplay.Sql

open QueryReplay.Sql.Parser QueryReplay.Sql.StatementParser
open QueryReplay.Sql.ExprParser (expr)
open Lexer (Lexeme Spelled)

/-! ## Calls -/

/-- The calls of an expression that are named by a word that opens a list. -/
def openerCalls : Leaves Keyword where
  ofLiteral _ := []
  ofCall name _ := (Keyword.ofWord? name).toList.filter Keyword.opensList

/-- The word that opens a list, if the token is one. -/
def Token.openers (t : Token) : List Keyword :=
  match t.kind with
  | .keyword k => [k].filter Keyword.opensList
  | _ => []

/-- A keyword opens what its word says, or nothing. -/
theorem Token.openers_keyword {t : Token} {k : Keyword} (h : t.kind = .keyword k) :
    t.openers = [k].filter Keyword.opensList := by
  rw [openers, h]

/-- A word is taken for the keyword that it is. -/
theorem ofWord_of_wordKind {cs : List Char} {k : Keyword} (h : Lexer.wordKind cs = .keyword k) :
    Keyword.ofWord? (String.ofList cs) = some k := by
  unfold Lexer.wordKind at h
  split at h
  · rename_i j hj
    obtain rfl : j = k := TokenKind.keyword.inj h
    exact hj
  · exact nomatch h

/-- A word that is not reserved is no keyword. -/
theorem ofWord_of_name {cs : List Char} (h : Lexer.wordKind cs = .name) :
    Keyword.ofWord? (String.ofList cs) = none := by
  unfold Lexer.wordKind at h
  split at h
  · exact nomatch h
  · assumption

/-- Tokens tell which words that open a list they are. -/
def openerTally : Tally Keyword where
  toLeaves := openerCalls
  good t := Lexeme t.kind t.lexeme.toList
  ofToken := Token.openers
  symbol_nil h := by rw [Token.openers, h]
  number_nil h := by rw [Token.openers, h]
  keyword_nil h hk := by rw [Token.openers_keyword h, List.filter_singleton, hk]; rfl
  identifier_nil := by
    intro t name _ hname
    rcases Token.kind_of_identifier hname with h | h <;> rw [Token.openers, h]
  literal_eq := by
    intro t v hv
    unfold ExprParser.literal? at hv
    split at hv
    case h_6 => exact nomatch hv
    all_goals
      rename_i hk
      rw [Token.openers, hk]
      rfl
  call_eq := by
    intro t name text hgood hname
    unfold Token.functionName? at hname
    split at hname
    · rename_i hk
      obtain rfl := Option.some.inj hname
      obtain ⟨-, -, -, -, -, hkind⟩ := hgood.isWord (.inl hk)
      have hnone := ofWord_of_name (hkind.symm.trans hk)
      rw [String.ofList_toList] at hnone
      show t.openers = (Keyword.ofWord? t.lexeme).toList.filter Keyword.opensList
      rw [Token.openers, hk, hnone]
      rfl
    · rename_i k hk
      obtain rfl := Option.some.inj hname
      obtain ⟨-, -, -, -, -, hkind⟩ := hgood.isWord (.inr ⟨k, hk⟩)
      have hsome := ofWord_of_wordKind (hkind.symm.trans hk)
      rw [String.ofList_toList] at hsome
      show t.openers = (Keyword.ofWord? t.lexeme).toList.filter Keyword.opensList
      rw [Token.openers_keyword hk, hsome]
      rfl
    · exact nomatch hname

/-- Tokens that were cut from a text are such that the tally agrees on them. -/
theorem good_of_spelled {ts : List Token} (h : Spelled ts) : openerTally.Good ts := by
  induction ts with
  | nil => exact fun _ ht => nomatch ht
  | cons t ts ih => exact List.forall_mem_cons.mpr ⟨h.1, ih h.2.2.2.2⟩

/-! ## BY behind GROUP and ORDER -/

/-- Behind each GROUP and each ORDER stands BY. -/
def ByFollows : List Token → Prop
  | [] => True
  | t :: ts => (t.kind = .keyword .group ∨ t.kind = .keyword .order →
      ∃ u ∈ ts.head?, u.kind = .keyword .by) ∧ ByFollows ts

/-- Two parts in each of which BY follows. -/
theorem ByFollows.append {ts us : List Token} (hts : ByFollows ts) (hus : ByFollows us) :
    ByFollows (ts ++ us) := by
  induction ts with
  | nil => exact hus
  | cons t ts ih =>
      refine ⟨fun ht => ?_, ih hts.2⟩
      obtain ⟨u, hu, hby⟩ := hts.1 ht
      refine ⟨u, ?_, hby⟩
      cases ts with
      | nil => exact nomatch hu
      | cons v ts => exact hu

/-- Behind a GROUP or ORDER stands BY, wherever it is. -/
theorem ByFollows.at {before behind : List Token} {t : Token}
    (h : ByFollows (before ++ t :: behind))
    (ht : t.kind = .keyword .group ∨ t.kind = .keyword .order) :
    ∃ u ∈ behind.head?, u.kind = .keyword .by := by
  induction before with
  | nil => exact h.1 ht
  | cons v before ih => exact ih h.2

/-- Tokens without GROUP and ORDER. -/
theorem byFollows_of_openers {ts : List Token}
    (h : ∀ k ∈ ts.flatMap Token.openers, k = .from) : ByFollows ts := by
  induction ts with
  | nil => exact trivial
  | cons t ts ih =>
      rw [List.flatMap_cons] at h
      refine ⟨fun ht => ?_, ih fun k hk => h k (List.mem_append_right _ hk)⟩
      rcases ht with ht | ht
      · exact nomatch h .group (List.mem_append_left _ (by rw [Token.openers_keyword ht]; decide))
      · exact nomatch h .order (List.mem_append_left _ (by rw [Token.openers_keyword ht]; decide))

/-- The tokens in front of others keep BY behind GROUP and ORDER. -/
def KeepsBy (ts rest : List Token) : Prop := ∃ used, ts = used ++ rest ∧ ByFollows used

/-- Where nothing is read nothing is lost. -/
theorem KeepsBy.refl (ts : List Token) : KeepsBy ts ts := ⟨[], rfl, trivial⟩

/-- Reading on keeps what was kept. -/
theorem KeepsBy.trans {ts us rest : List Token} (h : KeepsBy ts us) (h' : KeepsBy us rest) :
    KeepsBy ts rest := by
  obtain ⟨used, rfl, hused⟩ := h
  obtain ⟨more, rfl, hmore⟩ := h'
  exact ⟨used ++ more, (List.append_assoc _ _ _).symm, hused.append hmore⟩

/-- What holds no opener but FROM has no GROUP or ORDER that could miss its BY. -/
theorem keepsBy_of_passes {ts rest : List Token} {ks : List Keyword}
    (h : openerTally.Passes ts rest ks) (hks : ∀ k ∈ ks, k = .from) : KeepsBy ts rest := by
  obtain ⟨used, rfl, rfl⟩ := h
  exact ⟨used, rfl, byFollows_of_openers hks⟩

/-- The keywords of a clause. -/
theorem keywords_keepBy (k : ClauseKind) {ts rest : List Token}
    (h : k.keywords.foldlM (fun ts k => keyword k ts) ts = some rest) : KeepsBy ts rest := by
  -- one keyword that asks for no BY, or two of which the second is the BY
  have hone : ∀ {j : Keyword}, [j].filter Keyword.opensList = [] →
      [j].foldlM (fun ts k => keyword k ts) ts = some rest → KeepsBy ts rest := by
    intro j hj hread
    rw [List.foldlM_cons] at hread
    obtain ⟨behind, hkeyword, hread⟩ := Option.bind_eq_some_iff.mp hread
    obtain rfl := Option.some.inj hread
    obtain ⟨t, rfl, ht⟩ := keyword_some hkeyword
    refine ⟨[t], rfl, byFollows_of_openers fun k hk => ?_⟩
    rw [List.flatMap_cons, List.flatMap_nil, List.append_nil, Token.openers_keyword ht, hj] at hk
    exact nomatch hk
  have htwo : ∀ {j : Keyword}, [j, .by].foldlM (fun ts k => keyword k ts) ts = some rest →
      KeepsBy ts rest := by
    intro j hread
    rw [List.foldlM_cons] at hread
    obtain ⟨behind, hkeyword, hread⟩ := Option.bind_eq_some_iff.mp hread
    rw [List.foldlM_cons] at hread
    obtain ⟨behind', hby, hread⟩ := Option.bind_eq_some_iff.mp hread
    obtain rfl := Option.some.inj hread
    obtain ⟨t, rfl, -⟩ := keyword_some hkeyword
    obtain ⟨u, rfl, hu⟩ := keyword_some hby
    refine ⟨[t, u], rfl, fun _ => ⟨u, rfl, hu⟩, fun hu' => ?_, trivial⟩
    rw [hu] at hu'
    rcases hu' with hu' | hu' <;> exact nomatch hu'
  cases k with
  | groupBy => exact htwo h
  | orderBy => exact htwo h
  | filter => exact hone rfl h
  | having => exact hone rfl h
  | limit => exact hone rfl h
  | offset => exact hone rfl h

section Clauses

variable {e : Parser Expr} (he : openerTally.Tallied openerCalls.ofExpr e)
include he

/-- The two kinds of clauses that open a list read BY themselves; in the others no call is named
by an opener. -/
theorem clauseOf_keepsBy (size : Nat) (k : ClauseKind) {ts : List Token}
    (hts : openerTally.Good ts) {t : Taken (Located ClauseTree)} (h : clauseOf e size k ts = some t)
    (hcalls : ∀ j ∈ openerCalls.ofClause t.value.node, j = .from) : KeepsBy ts t.rest := by
  obtain ⟨behind, hwords, ht⟩ := Option.bind_eq_some_iff.mp h
  obtain ⟨b, hb, ht⟩ := Option.bind_eq_some_iff.mp ht
  obtain rfl := Option.some.inj ht
  have hopen := keywords_keepBy k hwords
  have hbehind : openerTally.Good behind := by
    obtain ⟨used, rfl, -⟩ := hopen
    exact fun t ht => hts t (List.mem_append_right used ht)
  exact hopen.trans
    (keepsBy_of_passes (Tally.clauseBody_tallied he k behind b hbehind hb) hcalls)

/-- So do optional clauses behind one another. -/
theorem readClauses_keepsBy (size : Nat) (ks : List ClauseKind) {ts : List Token}
    (hts : openerTally.Good ts)
    (hcalls : ∀ j ∈ (readClauses e size ks ts).1.flatMap fun l =>
      l.toList.flatMap fun l => openerCalls.ofClause l.node, j = .from) :
    KeepsBy ts (readClauses e size ks ts).2 := by
  induction ks generalizing ts with
  | nil => exact .refl ts
  | cons k ks ih =>
      rw [readClauses, List.flatMap_cons] at hcalls
      obtain ⟨hhead, hmore⟩ := List.forall_mem_append.mp hcalls
      have hopen : KeepsBy ts (optClause (clauseOf e size k) ts).2 := by
        unfold optClause ExprParser.optional at hhead ⊢
        cases hread : clauseOf e size k ts with
        | none => exact .refl ts
        | some t =>
            rw [hread] at hhead
            exact clauseOf_keepsBy he size k hts hread (by simpa using hhead)
      have hbehind : openerTally.Good (optClause (clauseOf e size k) ts).2 := by
        obtain ⟨used, heq, -⟩ := hopen
        exact fun t ht => hts t (heq ▸ List.mem_append_right used ht)
      exact hopen.trans (ih hbehind hmore)

end Clauses

/-! ## A whole statement -/

/-- SELECT and DISTINCT open no list. -/
theorem Heads.openers {distinct : Bool} {words : List Token} (h : Heads distinct words) :
    words.flatMap Token.openers = [] := by
  cases h with
  | all ht => rw [List.flatMap_singleton, Token.openers_keyword ht]; rfl
  | distinct ht hu =>
      rw [List.flatMap_cons, List.flatMap_singleton, Token.openers_keyword ht,
        Token.openers_keyword hu]
      rfl

section Parts

variable {depth size : Nat} {ts list sources rest : List Token} {s : Select}
  {items : Taken (List SelectItem)} {tables : Taken (List TableRef)}
  (h : Parts (expr depth) size ts s list items sources tables rest) (hspelled : Spelled ts)
include h hspelled

/-- The words of the SELECT list that open a list are names of calls. -/
theorem Parts.list_passes :
    openerTally.Passes list items.rest (s.items.flatMap openerCalls.ofItem) := by
  obtain ⟨words, rfl, -⟩ := heads_of_read h.list_eq
  rw [h.items_value]
  exact (Tally.item_tallied (Tally.expr_tallied depth)).commaList _ _
    (good_of_spelled hspelled.behind) h.items_eq

/-- The first FROM is the one behind the SELECT list if none names a call there. -/
theorem Parts.front_from (hitems : .from ∉ s.items.flatMap openerCalls.ofItem) :
    ∃ front f, ts = front ++ f :: sources ∧ f.kind = .keyword .from
      ∧ ∀ t ∈ front, t.kind ≠ .keyword .from := by
  obtain ⟨used, hused, hopeners⟩ := h.list_passes hspelled
  obtain ⟨words, rfl, hwords, -⟩ := heads_of_read h.list_eq
  obtain ⟨f, hf, hkind⟩ := keyword_some h.sources_eq
  refine ⟨words ++ used, f, by rw [hused, hf, List.append_assoc], hkind, fun t ht hfrom => hitems ?_⟩
  rw [← hopeners, ← List.nil_append (used.flatMap _), ← hwords.openers]
  show Keyword.from ∈ words.flatMap Token.openers ++ used.flatMap Token.openers
  rw [← List.flatMap_append]
  exact List.mem_flatMap.mpr ⟨t, ht, by rw [Token.openers_keyword hfrom]; decide⟩

/-- Behind GROUP and ORDER stands BY if neither names a call. -/
theorem Parts.byFollows (hended : Ended rest) (hcalls : ∀ k ∈ openerCalls.ofSelect s, k = .from) :
    ByFollows ts := by
  have he := Tally.expr_tallied (c := openerTally) depth
  have hgood := good_of_spelled hspelled
  -- part by part, as the statement is read: no part ends between GROUP and BY, and only clauses
  -- open with these
  obtain ⟨hitems, hcalls⟩ := List.forall_mem_append.mp hcalls
  obtain ⟨hjoins, hclauses⟩ := List.forall_mem_append.mp hcalls
  have hlist : KeepsBy ts list := by
    obtain ⟨words, rfl, hwords, -⟩ := heads_of_read h.list_eq
    exact ⟨words, rfl, byFollows_of_openers (by rw [hwords.openers]; exact nofun)⟩
  have hread := hlist.trans (keepsBy_of_passes (h.list_passes hspelled) hitems)
  have hfrom : KeepsBy items.rest sources := by
    obtain ⟨f, hf, hkind⟩ := keyword_some h.sources_eq
    refine ⟨[f], hf, byFollows_of_openers ?_⟩
    simp [Token.openers_keyword hkind]
  have hgoodBehind : ∀ {us : List Token}, KeepsBy ts us → openerTally.Good us := by
    rintro us ⟨used, rfl, -⟩
    exact fun t ht => hgood t (List.mem_append_right used ht)
  have hsources := hread.trans hfrom
  have htables := hsources.trans (keepsBy_of_passes
    (Tally.table_tallied.commaList _ _ (hgoodBehind hsources) h.tables_eq)
    (fun k hk => by obtain ⟨_, -, hnone⟩ := List.mem_flatMap.mp hk; exact nomatch hnone))
  have hjoined := htables.trans (keepsBy_of_passes
    ((Tally.join_tallied he size).many (hgoodBehind htables)) (h.joins_value ▸ hjoins))
  have hend : KeepsBy (many (join (expr depth) size) tables.rest).rest rest := by
    have hkeeps := readClauses_keepsBy he size ClauseKind.all (hgoodBehind hjoined)
      (by rw [h.clauses]; exact hclauses)
    rw [h.clauses] at hkeeps
    exact hkeeps
  obtain ⟨used, rfl, hused⟩ := hjoined.trans hend
  refine hused.append ?_
  rcases hended.cases with rfl | ⟨t, rfl, ht⟩
  · exact trivial
  · refine byFollows_of_openers ?_
    simp [Token.openers, ht]

end Parts

end QueryReplay.Sql
