import QueryReplay.Proofs.Lockstep
import QueryReplay.Proofs.Trees

/-! # Clauses — what is behind FROM, in front of something else

    The tables, joins and clauses of a statement are phrases behind one another,
    and each is read the same way whatever stands behind the last one, as long
    as it is an edge between parts of a statement (`Edge`).  So a statement can
    be cut before any clause (`body_relocated`). -/

namespace QueryReplay.Sql

open QueryReplay.Sql.Parser QueryReplay.Sql.StatementParser

/-! ## Parsers that take phrases -/

/-- The tokens make a phrase longer. -/
def Extends (used : List Token) : Prop := ∀ before, Phrase before → Phrase (before ++ used)

/-- No tokens at all leave a phrase as it is. -/
theorem Extends.nil : Extends [] := fun before h => by
  rw [List.append_nil]
  exact h

/-- A phrase behind another makes it longer. -/
theorem Phrase.extends {ts : List Token} (h : Phrase ts) : Extends ts :=
  fun _ hbefore => .behind hbefore.toRun h

/-- A name is one token. -/
theorem identifier_some {ts : List Token} {name : Taken String} (h : identifier ts = some name) :
    ∃ t, ts = t :: name.rest ∧ t.identifier? = some name.value := by
  cases ts with
  | nil => exact nomatch h
  | cons t ts =>
      obtain ⟨v, hv, rfl⟩ := Option.map_eq_some_iff.mp
        (show t.identifier?.map (fun name => (⟨name, ts, false⟩ : Taken String)) = some name from h)
      exact ⟨t, rfl, hv⟩

/-- An alias makes the phrase in front of it longer, if it is there. -/
theorem optAlias_extends (ts : List Token) :
    ∃ used, ts = used ++ (optAlias ts).2 ∧ Extends used := by
  unfold optAlias
  cases hname : identifier (optKeyword .as ts).2 with
  | none => exact ⟨[], rfl, .nil⟩
  | some name =>
      obtain ⟨used, hused, hrun⟩ := optKeyword_run .as ts
      obtain ⟨t, ht, hidentifier⟩ := identifier_some hname
      obtain ⟨hplain, hends⟩ := Token.of_identifier hidentifier
      refine ⟨used ++ [t], ?_, (Phrase.concat hrun hplain hends).extends⟩
      have hused' := hused.trans (congrArg (used ++ ·) ht)
      rw [List.append_assoc]
      exact hused'

/-- A table with its alias is a phrase. -/
theorem table_takes : Takes table := by
  intro ts t ht
  unfold table at ht
  cases hname : identifier ts with
  | none => rw [hname] at ht; exact nomatch ht
  | some name =>
      rw [hname] at ht
      obtain rfl := Option.some.inj ht
      obtain ⟨s, rfl, hidentifier⟩ := identifier_some hname
      obtain ⟨hplain, hends⟩ := Token.of_identifier hidentifier
      obtain ⟨used, hused, hextends⟩ := optAlias_extends name.rest
      exact ⟨s :: used, congrArg (s :: ·) hused, hextends [s] (Phrase.single hplain hends)⟩

/-- A join begins with CROSS JOIN, with FULL, LEFT or RIGHT JOIN and perhaps OUTER between
    them, or with JOIN and perhaps INNER in front. -/
theorem joinKind_cases {ts rest : List Token} {kind : JoinKind}
    (h : joinKind ts = some (kind, rest)) :
    (∃ behind, keyword .cross ts = some behind ∧ keyword .join behind = some rest)
      ∨ (∃ k ∈ [Keyword.full, .left, .right], ∃ behind, keyword k ts = some behind
        ∧ keyword .join (optKeyword .outer behind).2 = some rest)
      ∨ keyword .join (optKeyword .inner ts).2 = some rest := by
  have houter : ∀ {k : Keyword} {kind' : JoinKind}, ((keyword k ts).bind fun rest =>
        (keyword .join (optKeyword .outer rest).2).bind fun rest => some (kind', rest))
          = some (kind, rest) → ∃ behind, keyword k ts = some behind
            ∧ keyword .join (optKeyword .outer behind).2 = some rest := by
    intro k kind' h
    obtain ⟨behind, hk, h⟩ := Option.bind_eq_some_iff.mp h
    obtain ⟨behind', hjoin, h⟩ := Option.bind_eq_some_iff.mp h
    obtain ⟨-, rfl⟩ := Prod.mk.inj (Option.some.inj h)
    exact ⟨behind, hk, hjoin⟩
  unfold joinKind at h
  rcases Option.or_eq_some_iff.mp h with h | ⟨-, h⟩
  · obtain ⟨behind, hk, h⟩ := Option.bind_eq_some_iff.mp h
    obtain ⟨behind', hjoin, h⟩ := Option.bind_eq_some_iff.mp h
    obtain ⟨-, rfl⟩ := Prod.mk.inj (Option.some.inj h)
    exact .inl ⟨behind, hk, hjoin⟩
  rcases Option.or_eq_some_iff.mp h with h | ⟨-, h⟩
  · exact .inr (.inl ⟨.full, by decide, houter h⟩)
  rcases Option.or_eq_some_iff.mp h with h | ⟨-, h⟩
  · exact .inr (.inl ⟨.left, by decide, houter h⟩)
  rcases Option.or_eq_some_iff.mp h with h | ⟨-, h⟩
  · exact .inr (.inl ⟨.right, by decide, houter h⟩)
  · obtain ⟨behind, hjoin, h⟩ := Option.bind_eq_some_iff.mp h
    obtain ⟨-, rfl⟩ := Prod.mk.inj (Option.some.inj h)
    exact .inr (.inr hjoin)

/-- The keywords of a join are a run. -/
theorem joinKind_run {ts rest : List Token} {kind : JoinKind}
    (h : joinKind ts = some (kind, rest)) : ∃ used, ts = used ++ rest ∧ Run used := by
  rcases joinKind_cases h with ⟨behind, hk, hjoin⟩ | ⟨k, -, behind, hk, hjoin⟩ | hjoin
  · obtain ⟨t, rfl, ht⟩ := keyword_some hk
    obtain ⟨j, rfl, hj⟩ := keyword_some hjoin
    exact ⟨[t, j], rfl, .cons (Token.plain_keyword ht) (.single (Token.plain_keyword hj))⟩
  · obtain ⟨t, rfl, ht⟩ := keyword_some hk
    obtain ⟨used, hused, hrun⟩ := optKeyword_run .outer behind
    obtain ⟨j, hj, hjkind⟩ := keyword_some hjoin
    have hused' := hused.trans (congrArg (used ++ ·) hj)
    refine ⟨t :: (used ++ [j]), ?_, .cons (Token.plain_keyword ht)
      (hrun.append (.single (Token.plain_keyword hjkind)))⟩
    rw [List.cons_append, List.append_assoc]
    exact congrArg (t :: ·) hused'
  · obtain ⟨used, hused, hrun⟩ := optKeyword_run .inner ts
    obtain ⟨j, hj, hjkind⟩ := keyword_some hjoin
    have hused' := hused.trans (congrArg (used ++ ·) hj)
    refine ⟨used ++ [j], ?_, hrun.append (.single (Token.plain_keyword hjkind))⟩
    rw [List.append_assoc]
    exact hused'

/-- The condition of a join, with its text. -/
def onCondition (e : Parser Expr) (ts : List Token) : Option (Taken Expr × String) :=
  (keyword .on ts).bind fun rest => (e rest).map fun c => (c, c.text rest)

/-- A join by its keywords, its table and its condition. -/
theorem join_eq (e : Parser Expr) (size : Nat) (ts : List Token) :
    join e size ts = (joinKind ts).bind fun (kind, rest) => (table rest).map fun right =>
      match onCondition e right.rest with
      | some (c, text) =>
        ⟨⟨kind, right.value, some c.value, some text, spanOf size ts c⟩, c.rest, c.open?⟩
      | none =>
        ⟨⟨kind, right.value, none, none, spanOf size ts (⟨(), right.rest, true⟩ : Taken Unit)⟩,
          right.rest, true⟩ := by
  unfold join
  cases joinKind ts with
  | none => rfl
  | some x =>
      obtain ⟨kind, rest⟩ := x
      show (table rest).bind _ = (table rest).map _
      cases table rest with
      | none => rfl
      | some right =>
          have hon : (do
              let rest ← keyword .on right.rest
              let e ← e rest
              return (e, e.text rest)) = onCondition e right.rest := by
            unfold onCondition
            cases keyword .on right.rest with
            | none => rfl
            | some rest => cases hc : e rest <;> simp [hc]
          simp only [Option.bind_some, Option.map_some, hon]
          cases onCondition e right.rest <;> rfl

/-- ON and its condition are a phrase. -/
theorem onCondition_some {e : Parser Expr} (he : Takes e) {ts : List Token} {c : Taken Expr}
    {text : String} (h : onCondition e ts = some (c, text)) :
    ∃ used, ts = used ++ c.rest ∧ Phrase used := by
  obtain ⟨rest, hon, h⟩ := Option.bind_eq_some_iff.mp h
  obtain ⟨c', hc, heq⟩ := Option.map_eq_some_iff.mp h
  obtain ⟨rfl, -⟩ := Prod.mk.inj heq
  obtain ⟨t, rfl, ht⟩ := keyword_some hon
  obtain ⟨used, rfl, hused⟩ := he rest c' hc
  exact ⟨t :: used, rfl, .behind (.single (Token.plain_keyword ht)) hused⟩

/-- A join is a phrase, from its first word to its condition. -/
theorem join_takes {e : Parser Expr} (he : Takes e) (size : Nat) : Takes (join e size) := by
  intro ts t ht
  rw [join_eq] at ht
  obtain ⟨⟨kind, rest⟩, hkind, ht⟩ := Option.bind_eq_some_iff.mp ht
  obtain ⟨right, hright, rfl⟩ := Option.map_eq_some_iff.mp ht
  obtain ⟨words, rfl, hwords⟩ := joinKind_run hkind
  obtain ⟨name, rfl, hname⟩ := table_takes rest right hright
  cases hon : onCondition e right.rest with
  | none => exact ⟨words ++ name, (List.append_assoc _ _ _).symm, .behind hwords hname⟩
  | some x =>
      obtain ⟨c, text⟩ := x
      obtain ⟨used, hused, hphrase⟩ := onCondition_some he hon
      refine ⟨words ++ (name ++ used), ?_, .behind hwords (hphrase.extends name hname)⟩
      rw [hused]
      simp only [List.append_assoc]

/-- A key of a group is the phrase of its expression. -/
theorem groupKey_takes {e : Parser Expr} (he : Takes e) : Takes (StatementParser.groupKey e) := by
  intro ts t ht
  obtain ⟨t', ht', rfl⟩ := Option.map_eq_some_iff.mp ht
  exact he ts t' ht'

/-- A direction behind a sort key. -/
theorem sortKey_takes {e : Parser Expr} (he : Takes e) : Takes (sortKey e) := by
  intro ts t ht
  obtain ⟨t', ht', rfl⟩ := Option.map_eq_some_iff.mp ht
  obtain ⟨used, rfl, hused⟩ := he ts t' ht'
  have hdirection : ∀ {k : Keyword} {rest : List Token}, keyword k t'.rest = some rest →
      k.endsPhrase = true → ∃ more, used ++ t'.rest = more ++ rest ∧ Phrase more := by
    intro k rest hread hends
    obtain ⟨d, hd, hkind⟩ := keyword_some hread
    refine ⟨used ++ [d], by rw [hd, List.append_assoc]; rfl,
      Phrase.concat hused.toRun (Token.plain_keyword hkind) ?_⟩
    rw [Token.endsPhrase, hkind]
    exact hends
  dsimp only
  cases hasc : keyword .asc t'.rest with
  | some rest => exact hdirection hasc rfl
  | none =>
      cases hdesc : keyword .desc t'.rest with
      | some rest => exact hdirection hdesc rfl
      | none => exact ⟨used, rfl, hused⟩

/-- A row count is a number. -/
theorem count_some {t : Token} {n : Nat} (h : t.count? = some n) : t.kind = .number := by
  unfold Token.count? at h
  dsimp only at h
  split at h
  · rename_i hcond
    exact beq_iff_eq.mp (Bool.and_eq_true_iff.mp hcond).1
  · exact nomatch h

/-- One token makes the phrase of a row count. -/
theorem rowCount_takes : Takes rowCount := by
  intro ts t ht
  cases ts with
  | nil => exact nomatch ht
  | cons s ts =>
      obtain ⟨n, hn, rfl⟩ := Option.map_eq_some_iff.mp
        (show s.count?.map (fun n => (⟨n, ts, false⟩ : Taken Nat)) = some t from ht)
      have hk := count_some hn
      refine ⟨[s], rfl, Phrase.single ?_ ?_⟩
      · exact Token.plain_of_kind fun _ h => nomatch hk.symm.trans h
      · rw [Token.endsPhrase, hk]

/-- The words that open a clause run on: none of them ends a phrase by itself. -/
theorem keywords_run {ks : List Keyword} {ts rest : List Token}
    (h : ks.foldlM (fun ts k => keyword k ts) ts = some rest) :
    ∃ used, ts = used ++ rest ∧ Run used := by
  induction ks generalizing ts with
  | nil => exact ⟨[], (Option.some.inj h), .nil⟩
  | cons k ks ih =>
      rw [List.foldlM_cons] at h
      obtain ⟨behind, hk, hmore⟩ := Option.bind_eq_some_iff.mp h
      obtain ⟨t, hts, ht⟩ := keyword_some hk
      obtain ⟨used, rfl, hrun⟩ := ih hmore
      subst hts
      exact ⟨t :: used, rfl, .cons (Token.plain_keyword ht) hrun⟩

/-- Behind its words, a clause ends where its body ends. -/
theorem clause_takes {α : Type} {p : Parser α} (h : Takes p) (size : Nat) (ks : List Keyword) :
    Takes (clause size ks p) := by
  intro ts t ht
  obtain ⟨rest, hwords, ht⟩ := Option.bind_eq_some_iff.mp ht
  obtain ⟨b, hb, ht⟩ := Option.bind_eq_some_iff.mp ht
  obtain rfl := Option.some.inj ht
  obtain ⟨words, rfl, hrun⟩ := keywords_run hwords
  obtain ⟨used, rfl, hused⟩ := h rest b hb
  exact ⟨words ++ used, (List.append_assoc _ _ _).symm, .behind hrun hused⟩

/-- The body of every kind of clause is a phrase. -/
theorem clauseBody_takes {e : Parser Expr} (he : Takes e) (k : ClauseKind) :
    Takes (clauseBody e k) := by
  cases k with
  | filter => exact he.map _
  | groupBy =>
      exact (groupKey_takes he).commaList.map fun keys => ClauseTree.keys (keys.map GroupKey.expr)
  | having => exact he.map _
  | orderBy =>
      exact (sortKey_takes he).commaList.map fun keys =>
        ClauseTree.order (keys.map fun k => (k.expr, k.descending))
  | limit => exact rowCount_takes.map _
  | offset => exact rowCount_takes.map _

/-- A clause of any kind is a phrase. -/
theorem clauseOf_takes {e : Parser Expr} (he : Takes e) (size : Nat) (k : ClauseKind) :
    Takes (clauseOf e size k) :=
  clause_takes (clauseBody_takes he k) size k.keywords

/-- A clause that may be there or not extends what is in front of it. -/
theorem optClause_extends {α : Type} {p : Parser α} (h : Takes p) (ts : List Token) :
    ∃ used, ts = used ++ (optClause p ts).2 ∧ Extends used := by
  unfold optClause ExprParser.optional
  cases hread : p ts with
  | none => exact ⟨[], rfl, .nil⟩
  | some t =>
      obtain ⟨used, hused, hphrase⟩ := h ts t hread
      exact ⟨used, hused, hphrase.extends⟩

/-- Extending twice is extending. -/
theorem Extends.append {ts us : List Token} (hts : Extends ts) (hus : Extends us) :
    Extends (ts ++ us) := fun before h => by
  rw [← List.append_assoc]
  exact hus _ (hts before h)

/-- So do optional clauses behind one another. -/
theorem readClauses_extends {e : Parser Expr} (he : Takes e) (size : Nat) (ks : List ClauseKind)
    (ts : List Token) : ∃ used, ts = used ++ (readClauses e size ks ts).2 ∧ Extends used := by
  induction ks generalizing ts with
  | nil => exact ⟨[], rfl, .nil⟩
  | cons k ks ih =>
      obtain ⟨used, hused, hextends⟩ := optClause_extends (clauseOf_takes he size k) ts
      obtain ⟨more, hmore, hmoreExtends⟩ := ih (optClause (clauseOf e size k) ts).2
      refine ⟨used ++ more, ?_, hextends.append hmoreExtends⟩
      have hused' := hused.trans (congrArg (used ++ ·) hmore)
      rw [List.append_assoc]
      exact hused'

/-- So does any number of joins. -/
theorem joins_extends {e : Parser Expr} (he : Takes e) (size : Nat) (ts : List Token) :
    ∃ used, ts = used ++ (many (join e size) ts).rest ∧ Extends used := by
  have hstep : ∀ before ts t, Extends before → join e size ts = some t →
      ∃ used, ts = used ++ t.rest ∧ Extends (before ++ used) := by
    intro before ts t hbefore hread
    obtain ⟨used, hused, hphrase⟩ := join_takes he size ts t hread
    exact ⟨used, hused, hbefore.append hphrase.extends⟩
  exact manyUpTo_takes Extends hstep ts.length [] true ts [] .nil

/-! ## Edges between the parts of a statement -/

/-- Keywords in front of FROM and the clauses behind it. -/
def Keyword.edges (k : Keyword) : Bool :=
  k == .from || k == .where || k == .group || k == .having || k == .order || k == .limit
    || k == .offset

/-- A token that ends what is in front of it. -/
def Token.edges (t : Token) : Bool :=
  match t.kind with
  | .keyword k => k.edges
  | .symbol s => s == .comma || s == .semicolon
  | _ => false

/-- The tokens end what is in front of them. -/
def Edge (ts : List Token) : Prop := ∀ t ∈ ts.head?, t.edges = true

/-- The end of the statement is an edge. -/
theorem Edge.nil : Edge [] := fun _ h => nomatch h

/-- No expression goes on over an edge. -/
theorem Edge.stop {ts : List Token} (h : Edge ts) : Stop ts := by
  intro t ht
  have hedge := h t ht
  unfold Token.edges at hedge
  unfold Token.continues
  generalize t.kind = kind at hedge ⊢
  cases kind with
  | keyword k =>
      revert hedge
      cases k <;> decide
  | symbol s =>
      revert hedge
      cases s <;> decide
  | name => exact nomatch hedge
  | quoted => exact nomatch hedge
  | number => exact nomatch hedge
  | text => exact nomatch hedge

/-- An edge begins with none of the words that a part of a statement could go on with. -/
theorem Edge.keyword {ts : List Token} (h : Edge ts) {k : Keyword} (hk : k.edges = false) :
    keyword k ts = none := by
  cases hread : Parser.keyword k ts with
  | none => rfl
  | some rest =>
      obtain ⟨t, rfl, ht⟩ := keyword_some hread
      have hedge := h t rfl
      rw [Token.edges, ht] at hedge
      exact nomatch hk.symm.trans hedge

/-- An edge begins with no name, so that no alias is read off it. -/
theorem Edge.identifier {ts : List Token} (h : Edge ts) : identifier ts = none := by
  cases hread : Parser.identifier ts with
  | none => rfl
  | some name =>
      obtain ⟨t, rfl, ht⟩ := identifier_some hread
      have hedge := h t rfl
      unfold Token.identifier? at ht
      unfold Token.edges at hedge
      split at ht
      · rename_i hk
        rw [hk] at hedge
        exact nomatch hedge
      · rename_i hk
        rw [hk] at hedge
        exact nomatch hedge
      · exact nomatch ht

/-- No join begins at an edge. -/
theorem Edge.join {ts : List Token} (h : Edge ts) (e : Parser Expr) (size : Nat) :
    join e size ts = none := by
  have hk : ∀ {k : Keyword}, k.edges = false → Parser.keyword k ts = none := h.keyword
  have hkind : joinKind ts = none := by
    unfold joinKind
    simp only [hk (k := .cross) rfl, hk (k := .full) rfl, hk (k := .left) rfl,
      hk (k := .right) rfl, optKeyword, hk (k := .inner) rfl, hk (k := .join) rfl]
    rfl
  rw [join_eq, hkind]
  rfl

/-! ## Tables and joins of twins -/

section Twins

variable {R R' : List Token} {n m M : Nat} {ts ts' : List Token}

theorem Together.or {σ τ : Type} {r : σ → τ → Prop} {a a' : Option σ} {b b' : Option τ}
    (h : Together r a b) (h' : Together r a' b') : Together r (a.or a') (b.or b') := by
  cases h with
  | fail => exact h'
  | done hxy => exact .done hxy

section Edges

variable (hR : Edge R) (hR' : Edge R')
include hR hR'

/-- Names of twins are the same name. -/
theorem identifier_twins (htwin : Twin R R' n m ts ts') :
    Together (Alike R R' id n m) (identifier ts) (identifier ts') := by
  cases m with
  | zero =>
      obtain ⟨rfl, rfl, rfl⟩ := htwin.eq_zero
      rw [hR.identifier, hR'.identifier]
      exact .fail
  | succ m =>
      obtain ⟨t, t', rest, rest', n', rfl, rfl, hkind, hlexeme, hlevel, hrest, -, -⟩ := htwin.uncons
      show Together _ (t.identifier?.map fun name => (⟨name, rest, false⟩ : Taken String))
        (t'.identifier?.map fun name => (⟨name, rest', false⟩ : Taken String))
      rw [Token.identifier_congr hkind hlexeme]
      cases hname : t.identifier? with
      | none => exact .fail
      | some name =>
          obtain rfl := (Token.of_identifier hname).1.level hlevel
          exact .done ⟨rfl, m, Nat.lt_succ_self m, nofun, hrest⟩

/-- Twins have the same alias or none, as a keyword or a name never stands at an edge. -/
theorem optAlias_twins (htwin : Twin R R' n m ts ts') :
    (optAlias ts).1 = (optAlias ts').1 ∧ ∃ j ≤ m, Twin R R' n j (optAlias ts).2 (optAlias ts').2 := by
  obtain ⟨-, j, hj, -, hname⟩ := optKeyword_twins (k := .as) htwin
    (fun _ => ⟨hR.keyword rfl, hR'.keyword rfl⟩) rfl
  have hread := identifier_twins hR hR' hname
  unfold optAlias
  generalize identifier (optKeyword .as ts).2 = a at hread ⊢
  generalize identifier (optKeyword .as ts').2 = b at hread ⊢
  cases hread with
  | fail => exact ⟨rfl, m, Nat.le_refl m, htwin⟩
  | done h =>
      obtain ⟨hvalue, i, hi, -, hrest⟩ := h
      exact ⟨congrArg some hvalue, i, by omega, hrest⟩

/-- Tables of twins are the same table with the same alias. -/
theorem table_twins : Agrees R R' True M id table table := by
  intro n m ts ts' _ _ htwin
  have hread := identifier_twins hR hR' htwin
  unfold table
  generalize identifier ts = a at hread ⊢
  generalize identifier ts' = b at hread ⊢
  cases hread with
  | fail => exact .fail
  | @done name name' h =>
      obtain ⟨hvalue, j, hj, -, hrest⟩ := h
      obtain ⟨halias, i, hi, hrests⟩ := optAlias_twins hR hR' hrest
      refine .done ⟨?_, i, by omega, nofun, hrests⟩
      show TableRef.mk name.value (optAlias name.rest).1 = ⟨name'.value, (optAlias name'.rest).1⟩
      rw [halias, show name.value = name'.value from hvalue]

/-- Twins say the same about how a join is meant, whichever of the five ways it is. -/
theorem joinKind_twins (htwin : Twin R R' n m ts ts') :
    Together (fun x y => x.1 = y.1 ∧ Left R R' false n m x.2 y.2) (joinKind ts) (joinKind ts') := by
  have hkeyword : ∀ {k : Keyword} {j : Nat} {us us' : List Token}, k.edges = false →
      Twin R R' n j us us' → Together (Left R R' k.endsPhrase n j) (keyword k us) (keyword k us') :=
    fun hk h => keyword_twins h fun _ => ⟨hR.keyword hk, hR'.keyword hk⟩
  have hjoin : ∀ {j : Nat} (kind : JoinKind) {us us' : List Token}, j ≤ m → Twin R R' n j us us' →
      Together (fun x y => x.1 = y.1 ∧ Left R R' false n m x.2 y.2)
        ((keyword .join us).bind fun rest => some (kind, rest))
        ((keyword .join us').bind fun rest => some (kind, rest)) := by
    intro j kind us us' hj h
    refine (hkeyword rfl h).bind ?_
    rintro rest rest' ⟨i, hi, hpos, hrest⟩
    exact .done ⟨rfl, i, Nat.lt_of_lt_of_le hi hj, hpos, hrest⟩
  have houter : ∀ {k : Keyword} (kind : JoinKind), k.edges = false →
      Together (fun x y => x.1 = y.1 ∧ Left R R' false n m x.2 y.2)
        ((keyword k ts).bind fun rest =>
          (keyword .join (optKeyword .outer rest).2).bind fun rest => some (kind, rest))
        ((keyword k ts').bind fun rest =>
          (keyword .join (optKeyword .outer rest).2).bind fun rest => some (kind, rest)) := by
    intro k kind hk
    refine (hkeyword hk htwin).bind ?_
    rintro rest rest' ⟨j, hj, -, hrest⟩
    obtain ⟨-, i, hi, -, hrests⟩ := optKeyword_twins (k := .outer) hrest
      (fun _ => ⟨hR.keyword rfl, hR'.keyword rfl⟩) rfl
    exact hjoin kind (by omega) hrests
  obtain ⟨-, i, hi, -, hinner⟩ := optKeyword_twins (k := .inner) htwin
    (fun _ => ⟨hR.keyword rfl, hR'.keyword rfl⟩) rfl
  unfold joinKind
  refine Together.or ?_ (.or (houter .full rfl) (.or (houter .left rfl) (.or (houter .right rfl)
    (hjoin .inner hi hinner))))
  refine (hkeyword (k := .cross) rfl htwin).bind ?_
  rintro rest rest' ⟨j, hj, -, hrest⟩
  exact hjoin .cross (Nat.le_of_lt hj) hrest

variable {e e' : Parser Expr} (h : Agrees R R' False M id e e')
include h

/-- Conditions behind ON are read alike. -/
theorem onCondition_twins (hm : m < M) (htwin : Twin R R' n m ts ts') :
    Together (fun x y => Alike R R' id n m x.1 y.1) (onCondition e ts) (onCondition e' ts') := by
  refine (keyword_twins htwin (fun _ => ⟨hR.keyword rfl, hR'.keyword rfl⟩)).bind ?_
  rintro rest rest' ⟨j, hj, hpos, hrest⟩
  refine (h n j rest rest' (by omega) (fun hz => ?_) hrest).map ?_
  · exact absurd (hpos rfl) (hz ▸ Nat.lt_irrefl 0)
  · rintro c c' ⟨hvalue, hrests⟩
    exact ⟨hvalue, hrests.mono (Nat.le_of_lt hj)⟩

/-- Joins of twins differ in place and text only. -/
theorem join_twins (size size' : Nat) :
    Agrees R R' True M Join.bare (join e size) (join e' size') := by
  intro n m ts ts' hmM _ htwin
  rw [join_eq, join_eq]
  refine (joinKind_twins hR hR' htwin).bind ?_
  rintro ⟨kind, rest⟩ ⟨kind', rest'⟩ ⟨hkind, j, hj, -, hrest⟩
  obtain rfl : kind = kind' := hkind
  refine (table_twins (M := M) hR hR' n j rest rest' (by omega) (fun _ => trivial) hrest).map ?_
  rintro right right' ⟨hright, i, hi, -, hon⟩
  have hright : right.value = right'.value := hright
  have hread := onCondition_twins hR hR' h (by omega) hon
  generalize onCondition e right.rest = a at hread ⊢
  generalize onCondition e' right'.rest = b at hread ⊢
  cases hread with
  | fail =>
      refine ⟨?_, i, by omega, nofun, hon⟩
      show (kind, right.value, none) = (kind, right'.value, none)
      rw [hright]
  | @done x y hxy =>
      obtain ⟨hvalue, hrests⟩ := hxy
      refine ⟨?_, hrests.mono (by omega)⟩
      show (kind, right.value, some x.1.value) = (kind, right'.value, some y.1.value)
      rw [hright, show x.1.value = y.1.value from hvalue]

/-! ## Clauses of twins -/

/-- Sort keys of twins have the same expression and the same direction. -/
theorem sortKey_twins :
    Agrees R R' False M (fun k : SortKey => (k.expr, k.descending)) (sortKey e) (sortKey e') := by
  intro n m ts ts' hmM hm htwin
  refine (h n m ts ts' hmM hm htwin).map ?_
  rintro t t' ⟨hvalue, j, hj, -, hrest⟩
  have hvalue : t.value = t'.value := hvalue
  have hasc := keyword_twins (k := .asc) hrest (fun _ => ⟨hR.keyword rfl, hR'.keyword rfl⟩)
  have hdesc := keyword_twins (k := .desc) hrest (fun _ => ⟨hR.keyword rfl, hR'.keyword rfl⟩)
  generalize keyword .asc t.rest = a at hasc ⊢
  generalize keyword .asc t'.rest = b at hasc ⊢
  generalize keyword .desc t.rest = c at hdesc ⊢
  generalize keyword .desc t'.rest = d at hdesc ⊢
  cases hasc with
  | done hleft => exact ⟨congrArg (·, false) hvalue, hleft.mono (Nat.le_of_lt hj)⟩
  | fail =>
      cases hdesc with
      | done hleft => exact ⟨congrArg (·, true) hvalue, hleft.mono (Nat.le_of_lt hj)⟩
      | fail => exact ⟨congrArg (·, false) hvalue, j, hj, nofun, hrest⟩

omit hR hR' in
/-- Group keys of twins have the same expression. -/
theorem groupKey_twins : Agrees R R' False M GroupKey.expr (StatementParser.groupKey e)
    (StatementParser.groupKey e') := by
  intro n m ts ts' hmM hm htwin
  refine (h n m ts ts' hmM hm htwin).map ?_
  rintro t t' ⟨hvalue, hrest⟩
  exact ⟨hvalue, hrest⟩

omit h hR hR' in
/-- Row counts of twins are the same number. -/
theorem rowCount_twins : Agrees R R' False M id rowCount rowCount := by
  intro n m ts ts' _ hm htwin
  cases m with
  | zero => exact (hm rfl).elim
  | succ m =>
      obtain ⟨t, t', rest, rest', n', rfl, rfl, hkind, hlexeme, hlevel, hrest, -, -⟩ := htwin.uncons
      have hcount : t'.count? = t.count? := by
        unfold Token.count?
        rw [hkind, hlexeme]
      show Together _ (t.count?.map fun n => (⟨n, rest, false⟩ : Taken Nat))
        (t'.count?.map fun n => (⟨n, rest', false⟩ : Taken Nat))
      rw [hcount]
      cases hn : t.count? with
      | none => exact .fail
      | some count =>
          have hk := count_some hn
          have hplain : t.IsPlain := Token.plain_of_kind fun _ h => nomatch hk.symm.trans h
          obtain rfl := hplain.level hlevel
          exact .done ⟨rfl, m, Nat.lt_succ_self m, nofun, hrest⟩

variable (hcomma : symbol .comma R = none) (hcomma' : symbol .comma R' = none)
include hcomma hcomma'

/-- Bodies of twins say the same, whatever kind of clause it is. -/
theorem clauseBody_twins (k : ClauseKind) :
    Agrees R R' False M id (clauseBody e k) (clauseBody e' k) := by
  have hlist : ∀ {α β : Type} {view : α → β} {p p' : Parser α}, Agrees R R' False M view p p' →
      Agrees R R' False M (List.map view) (commaList p) (commaList p') := by
    intro α β view p p' hp n m ts ts' hmM hm htwin
    exact commaList_twins hp (fun _ => ⟨hcomma, hcomma'⟩)
      (Nat.pos_of_ne_zero fun hz => hm hz) hmM htwin
  cases k with
  | filter => exact h.map fun _ _ hxy => congrArg ClauseTree.condition hxy
  | groupBy =>
      refine Agrees.map (f := fun keys => ClauseTree.keys (keys.map GroupKey.expr))
        (hlist (groupKey_twins h)) fun x y hxy => ?_
      exact congrArg ClauseTree.keys hxy
  | having => exact h.map fun _ _ hxy => congrArg ClauseTree.condition hxy
  | orderBy =>
      refine Agrees.map
        (f := fun keys => ClauseTree.order (keys.map fun k => (k.expr, k.descending)))
        (hlist (sortKey_twins hR hR' h)) fun x y hxy => ?_
      exact congrArg ClauseTree.order hxy
  | limit => exact rowCount_twins.map fun _ _ hxy => congrArg ClauseTree.rows hxy
  | offset => exact rowCount_twins.map fun _ _ hxy => congrArg ClauseTree.rows hxy

omit h hR hR' hcomma hcomma' in
/-- The keywords of a clause come next in both or in neither. -/
theorem keywords_twins {ks : List Keyword} (hends : ∀ k ∈ ks, k.endsPhrase = false) (hpos : 0 < m)
    (htwin : Twin R R' n m ts ts') :
    Together (fun x y => ∃ j ≤ m, 0 < j ∧ Twin R R' n j x y)
      (ks.foldlM (fun ts k => keyword k ts) ts) (ks.foldlM (fun ts k => keyword k ts) ts') := by
  induction ks generalizing m ts ts' with
  | nil => exact .done ⟨m, Nat.le_refl m, hpos, htwin⟩
  | cons k ks ih =>
      rw [List.foldlM_cons, List.foldlM_cons]
      refine (keyword_twins htwin (fun hz => absurd hpos (hz ▸ Nat.lt_irrefl 0))).bind ?_
      rintro rest rest' ⟨j, hj, hjpos, hrest⟩
      refine (ih (fun k hk => hends k (List.mem_cons_of_mem _ hk))
        (hjpos (hends k List.mem_cons_self)) hrest).mono ?_
      rintro x y ⟨i, hi, hipos, hxy⟩
      exact ⟨i, by omega, hipos, hxy⟩

/-- A clause of twins says the same or is missing in both; at the very edge it is missing. -/
theorem clauseOf_twins (size size' : Nat) (k : ClauseKind) (hmM : m < M)
    (hbehind : clauseOf e size k R = none ∧ clauseOf e' size' k R' = none)
    (htwin : Twin R R' n m ts ts') :
    Together (Alike R R' Located.node n m) (clauseOf e size k ts) (clauseOf e' size' k ts') := by
  rcases Nat.eq_zero_or_pos m with rfl | hpos
  · obtain ⟨-, rfl, rfl⟩ := htwin.eq_zero
    rw [hbehind.1, hbehind.2]
    exact .fail
  · have hends : ∀ w ∈ k.keywords, w.endsPhrase = false := by
      cases k <;> decide
    refine (keywords_twins hends hpos htwin).bind ?_
    rintro rest rest' ⟨j, hj, hjpos, hrest⟩
    refine (clauseBody_twins hR hR' h hcomma hcomma' k n j rest rest' (by omega)
      (fun hz => absurd hjpos (hz ▸ Nat.lt_irrefl 0)) hrest).bind ?_
    rintro b b' ⟨hvalue, hrests⟩
    exact .done ⟨hvalue, hrests.mono hj⟩

/-- Clauses behind one another are read alike, each on what the one before it left. The induction
is on the kinds. -/
theorem readClauses_twins (size size' : Nat) (ks : List ClauseKind) (hmM : m < M)
    (hbehind : ∀ k ∈ ks, clauseOf e size k R = none ∧ clauseOf e' size' k R' = none)
    (htwin : Twin R R' n m ts ts') :
    (readClauses e size ks ts).1.map (Option.map Located.node)
        = (readClauses e' size' ks ts').1.map (Option.map Located.node)
      ∧ ∃ j ≤ m, Twin R R' n j (readClauses e size ks ts).2 (readClauses e' size' ks ts').2 := by
  induction ks generalizing m ts ts' with
  | nil => exact ⟨rfl, m, Nat.le_refl m, htwin⟩
  | cons k ks ih =>
      obtain ⟨hhead, j, hj, hrest⟩ := optional_twins (clauseOf_twins hR hR' h hcomma hcomma' size
        size' k hmM (hbehind k List.mem_cons_self) htwin) htwin
      obtain ⟨hmore, i, hi, hrests⟩ := ih (Nat.lt_of_le_of_lt hj hmM)
        (fun k hk => hbehind k (List.mem_cons_of_mem _ hk)) hrest
      exact ⟨congrArg₂ List.cons hhead hmore, i, by omega, hrests⟩

end Edges

end Twins

/-! ## What is behind FROM, in front of something else -/

/-- FROM, its tables, the joins and clauses of the given kinds, read off tokens. -/
structure Body (e : Parser Expr) (size : Nat) (ks : List ClauseKind) (ts : List Token)
    (tables : List TableRef) (joins : List Join) (clauses : List (Option (Located ClauseTree)))
    (rest : List Token) : Prop where
  read : ∃ sources taken, keyword .from ts = some sources ∧ commaList table sources = some taken
    ∧ tables = taken.value ∧ joins = (many (join e size) taken.rest).value
    ∧ readClauses e size ks (many (join e size) taken.rest).rest = (clauses, rest)

/-- What is behind FROM is a phrase. -/
theorem Body.phrase {e : Parser Expr} (he : Takes e) {size : Nat} {ks : List ClauseKind}
    {ts rest : List Token} {tables : List TableRef} {joins : List Join}
    {clauses : List (Option (Located ClauseTree))}
    (h : Body e size ks ts tables joins clauses rest) : ∃ used, ts = used ++ rest ∧ Phrase used := by
  obtain ⟨sources, taken, hfrom, htables, -, -, hclauses⟩ := h.read
  obtain ⟨f, hf, hkind⟩ := keyword_some hfrom
  obtain ⟨names, hnames, hphrase⟩ := table_takes.commaList sources taken htables
  obtain ⟨joined, hjoined, hjoins⟩ := joins_extends he size taken.rest
  obtain ⟨more, hmore, hextends⟩ :=
    readClauses_extends he size ks (many (join e size) taken.rest).rest
  rw [hclauses] at hmore
  refine ⟨f :: names ++ joined ++ more, ?_,
    hextends _ (hjoins _ (.behind (.single (Token.plain_keyword hkind)) hphrase))⟩
  have hjoined' := hjoined.trans (congrArg (joined ++ ·) hmore)
  rw [hf, hnames, hjoined']
  simp only [List.append_assoc, List.cons_append]

/-- What is behind FROM can be put in front of any other edge, with another gap
    behind its last token. -/
theorem Body.relocated {depth depth' : Nat} {size size' : Nat} {ks : List ClauseKind}
    {front rest rest' : List Token} {t t' : Token} {tables : List TableRef} {joins : List Join}
    {clauses : List (Option (Located ClauseTree))}
    (h : Body (ExprParser.expr depth) size ks (front ++ t :: rest) tables joins clauses rest)
    (hrest : Edge rest) (hrest' : Edge rest') (hcomma : symbol .comma rest = none)
    (hcomma' : symbol .comma rest' = none)
    (hbehind : ∀ k ∈ ks, clauseOf (ExprParser.expr depth) size k rest = none
      ∧ clauseOf (ExprParser.expr depth') size' k rest' = none)
    (hkind : t'.kind = t.kind) (hlexeme : t'.lexeme = t.lexeme)
    (hdepth : front.length + 2 ≤ depth) (hdepth' : front.length + 2 ≤ depth') :
    ∃ joins' clauses', Body (ExprParser.expr depth') size' ks (front ++ t' :: rest') tables joins'
        clauses' rest'
      ∧ joins.map Join.bare = joins'.map Join.bare
      ∧ clauses.map (Option.map Located.node) = clauses'.map (Option.map Located.node) := by
  have hexpr := expr_agrees hrest.stop hrest'.stop _ depth depth' hdepth hdepth'
  -- the tokens are twins in front of what is behind them
  have htwin : Twin rest rest' 0 (front.length + 1) (front ++ t :: rest) (front ++ t' :: rest') := by
    obtain ⟨used, hused, hphrase⟩ := h.phrase (expr_takes depth)
    obtain rfl : used = front ++ [t] :=
      List.append_cancel_right (hused.symm.trans (List.append_cons front t rest))
    exact twin_of_level hkind hlexeme hphrase.endsPhrase (hphrase.balanced 0)
  obtain ⟨sources, taken, hfrom, htables, rfl, rfl, hclauses⟩ := h.read
  have hfromTwins := keyword_twins (k := .from) htwin (fun hz => absurd hz (Nat.succ_ne_zero _))
  rw [hfrom] at hfromTwins
  generalize hfrom' : keyword .from (front ++ t' :: rest') = a at hfromTwins
  cases hfromTwins with
  | @done _ sources' hleft =>
      obtain ⟨j, hj, hpos, hsources⟩ := hleft
      have hlist := commaList_twins (M := front.length + 2) (table_twins hrest hrest').weaken
        (fun _ => ⟨hcomma, hcomma'⟩) (hpos rfl) (by omega) hsources
      rw [htables] at hlist
      generalize htables' : commaList table sources' = b at hlist
      cases hlist with
      | @done _ taken' hvalue =>
          obtain ⟨hvalue, i, hi, -, hjoins⟩ := hvalue
          rw [List.map_id, List.map_id] at hvalue
          obtain ⟨hjoined, l, hl, hmore⟩ := many_twins (M := front.length + 2)
            (fun m ts ts' _ hm h =>
              join_twins hrest hrest' hexpr size size' 0 m ts ts' hm (fun _ => trivial) h)
            (fun _ => ⟨hrest.join _ size, hrest'.join _ size'⟩) (by omega) hjoins
          obtain ⟨hnodes, l', hl', hrests⟩ := readClauses_twins hrest hrest' hexpr hcomma hcomma'
            size size' ks (by omega) hbehind hmore
          rw [hclauses] at hnodes hrests
          obtain ⟨-, hreached⟩ := hrests.reached
          refine ⟨_, _, ⟨sources', taken', hfrom', htables', hvalue, rfl,
            Prod.ext rfl hreached⟩, hjoined, hnodes⟩

end QueryReplay.Sql
