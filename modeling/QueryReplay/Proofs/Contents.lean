import QueryReplay.Proofs.Leaves
import QueryReplay.Proofs.Pieces

/-! # Contents — what a whole statement holds

    The leaves of a statement are those of its items, its join conditions and
    its clauses, in this order, and that is the order of its tokens: what the
    tokens of a statement hold is what its leaves hold (`select_passes`).  Names
    of tables, aliases and row counts hold nothing. -/

namespace QueryReplay.Sql

open QueryReplay.Sql.Parser QueryReplay.Sql.StatementParser
open QueryReplay.Sql.ExprParser (expr)

/-! ## Leaves of a statement -/

namespace Leaves

variable {β : Type} (c : Leaves β)

def ofItem : SelectItem → List β
  | .expr e _ _ => c.ofExpr e
  | _ => []

def ofJoin (j : Join) : List β := c.ofOption j.condition

def ofClause : ClauseTree → List β
  | .condition e => c.ofExpr e
  | .keys keys => keys.flatMap c.ofExpr
  | .order keys => keys.flatMap fun k => c.ofExpr k.1
  | .rows _ => []

/-- What the leaves of a statement hold, from front to back. -/
def ofSelect (s : Select) : List β :=
  s.items.flatMap c.ofItem ++ (s.joins.flatMap c.ofJoin
    ++ (ClauseKind.all.map s.located).flatMap fun l => l.toList.flatMap fun l => c.ofClause l.node)

end Leaves

/-! ## Passing the parts of a statement -/

namespace Tally

open Leaves

variable {β : Type} {c : Tally β} {ts rest : List Token}

theorem identifier_tallied : c.Tallied (fun _ => []) identifier := by
  intro ts t hts ht
  obtain ⟨s, rfl, hname⟩ := identifier_some ht
  exact .single (c.identifier_nil (hts s List.mem_cons_self) hname)

/-- An alias holds nothing, with AS or without. -/
theorem optAlias_passes (hts : c.Good ts) : c.Passes ts (optAlias ts).2 [] := by
  unfold optAlias
  cases hname : identifier (optKeyword .as ts).2 with
  | none => exact .refl
  | some name =>
      have has := passes_optKeyword (c := c) .as rfl ts
      exact has.trans (identifier_tallied _ name (has.good hts) hname)

/-- A table and its alias hold nothing. -/
theorem table_tallied : c.Tallied (fun _ => []) table := by
  intro ts t hts ht
  unfold table at ht
  cases hname : identifier ts with
  | none => rw [hname] at ht; exact nomatch ht
  | some name =>
      rw [hname] at ht
      obtain rfl := Option.some.inj ht
      have hpass := identifier_tallied ts name hts hname
      exact hpass.trans (optAlias_passes (hpass.good hts))

/-- The words that say how a join is meant hold nothing. -/
theorem joinKind_passes {kind : JoinKind} (h : joinKind ts = some (kind, rest)) :
    c.Passes ts rest [] := by
  have hlist : ∀ k ∈ [Keyword.full, .left, .right], k.opensList = false := by decide
  rcases joinKind_cases h with ⟨behind, hk, hjoin⟩ | ⟨k, hmem, behind, hk, hjoin⟩ | hjoin
  · exact (passes_keyword rfl hk).trans (passes_keyword rfl hjoin)
  · exact (passes_keyword (hlist k hmem) hk).trans
      ((passes_optKeyword .outer rfl behind).trans (passes_keyword rfl hjoin))
  · exact (passes_optKeyword .inner rfl ts).trans (passes_keyword rfl hjoin)

/-- A row count is a number, and numbers hold nothing. -/
theorem rowCount_tallied : c.Tallied (fun _ => []) rowCount := by
  intro ts t _ ht
  cases ts with
  | nil => exact nomatch ht
  | cons s ts =>
      obtain ⟨n, hn, rfl⟩ := Option.map_eq_some_iff.mp
        (show s.count?.map (fun n => (⟨n, ts, false⟩ : Taken Nat)) = some t from ht)
      exact .single (c.number_nil (count_some hn))

section Expression

variable {e : Parser Expr} (he : c.Tallied c.ofExpr e)
include he

/-- An item holds what its expression holds; a wildcard holds nothing. -/
theorem item_tallied : c.Tallied c.ofItem (item e) := by
  rw [item_eq]
  refine Tallied.orElse ?_ (Tallied.orElse ?_ ?_)
  · intro ts t _ ht
    obtain ⟨star, rfl, hstar, hvalue⟩ := wildcard_some ht
    rw [hvalue]
    exact .single (c.symbol_nil hstar)
  · intro ts t hts ht
    obtain ⟨name, a, point, star, rfl, hname, -, hpoint, -, hstar, hvalue⟩ := tableWildcard_some ht
    rw [hvalue]
    exact (Passes.single (c.identifier_nil (hts a List.mem_cons_self) hname)).trans
      ((Passes.single (c.symbol_nil hpoint)).trans (.single (c.symbol_nil hstar)))
  · intro ts t hts ht
    unfold aliased at ht
    cases hread : e ts with
    | none => rw [hread] at ht; exact nomatch ht
    | some v =>
        rw [hread] at ht
        obtain rfl := Option.some.inj ht
        have hpass := he ts v hts hread
        exact (hpass.trans (optAlias_passes (hpass.good hts))).cast (List.append_nil _)

/-- A join holds what its condition holds. -/
theorem join_tallied (size : Nat) : c.Tallied c.ofJoin (join e size) := by
  intro ts t hts ht
  rw [join_eq] at ht
  obtain ⟨⟨kind, behind⟩, hkind, ht⟩ := Option.bind_eq_some_iff.mp ht
  obtain ⟨right, hright, rfl⟩ := Option.map_eq_some_iff.mp ht
  have hwords := joinKind_passes (c := c) hkind
  have hpass := hwords.trans (table_tallied behind right (hwords.good hts) hright)
  cases hon : onCondition e right.rest with
  | none => exact hpass
  | some x =>
      obtain ⟨v, text⟩ := x
      obtain ⟨rest, honWord, hv⟩ := Option.bind_eq_some_iff.mp hon
      obtain ⟨v', hread, heq⟩ := Option.map_eq_some_iff.mp hv
      obtain ⟨rfl, -⟩ := Prod.mk.inj heq
      have hcondition := hpass.trans (passes_keyword (c := c) rfl honWord)
      exact hcondition.trans (he rest v' (hcondition.good hts) hread)

theorem groupKey_tallied :
    c.Tallied (fun k : GroupKey => c.ofExpr k.expr) (StatementParser.groupKey e) := by
  intro ts t hts ht
  obtain ⟨v, hv, rfl⟩ := Option.map_eq_some_iff.mp ht
  exact he ts v hts hv

theorem sortKey_tallied : c.Tallied (fun k : SortKey => c.ofExpr k.expr) (sortKey e) := by
  intro ts t hts ht
  obtain ⟨v, hv, rfl⟩ := Option.map_eq_some_iff.mp ht
  have hpass := he ts v hts hv
  dsimp only
  cases hasc : keyword .asc v.rest with
  | some rest => exact (hpass.trans (passes_keyword rfl hasc)).cast (List.append_nil _)
  | none =>
      cases hdesc : keyword .desc v.rest with
      | some rest => exact (hpass.trans (passes_keyword rfl hdesc)).cast (List.append_nil _)
      | none => exact hpass

/-- The body of a clause holds what the expressions in it hold. -/
theorem clauseBody_tallied (k : ClauseKind) : c.Tallied c.ofClause (clauseBody e k) := by
  cases k with
  | filter => exact he.map fun _ => rfl
  | groupBy =>
      show c.Tallied c.ofClause ((commaList (StatementParser.groupKey e)).map
        fun keys => .keys (keys.map GroupKey.expr))
      refine (groupKey_tallied he).commaList.map fun keys => ?_
      rw [ofClause, List.flatMap_map]
  | having => exact he.map fun _ => rfl
  | orderBy =>
      show c.Tallied c.ofClause ((commaList (sortKey e)).map
        fun keys => .order (keys.map fun k => (k.expr, k.descending)))
      refine (sortKey_tallied he).commaList.map fun keys => ?_
      rw [ofClause, List.flatMap_map]
  | limit => exact rowCount_tallied.map fun _ => rfl
  | offset => exact rowCount_tallied.map fun _ => rfl

/-! ## Statements whose keywords hold nothing -/

variable (hkeywords : ∀ {t k}, t.kind = .keyword k → c.ofToken t = [])
include hkeywords

omit he in
/-- The keywords that open a clause hold nothing: those that open lists are passed elsewhere. -/
theorem keywords_passes {ks : List Keyword}
    (h : ks.foldlM (fun ts k => keyword k ts) ts = some rest) : c.Passes ts rest [] := by
  induction ks generalizing ts with
  | nil =>
      obtain rfl := Option.some.inj h
      exact .refl
  | cons k ks ih =>
      rw [List.foldlM_cons] at h
      obtain ⟨behind, hk, hmore⟩ := Option.bind_eq_some_iff.mp h
      obtain ⟨t, rfl, ht⟩ := keyword_some hk
      exact (Passes.single (hkeywords ht)).trans (ih hmore)

/-- A clause holds what its body holds. -/
theorem clauseOf_tallied (size : Nat) (k : ClauseKind) :
    c.Tallied (fun l => c.ofClause l.node) (clauseOf e size k) := by
  intro ts t hts ht
  obtain ⟨behind, hwords, ht⟩ := Option.bind_eq_some_iff.mp ht
  obtain ⟨b, hb, ht⟩ := Option.bind_eq_some_iff.mp ht
  obtain rfl := Option.some.inj ht
  have hpass := keywords_passes hkeywords hwords
  exact hpass.trans (clauseBody_tallied he k behind b (hpass.good hts) hb)

/-- Optional clauses, read behind one another, pass what those that are there hold. -/
theorem readClauses_passes (size : Nat) (ks : List ClauseKind) (hts : c.Good ts) :
    c.Passes ts (readClauses e size ks ts).2
      ((readClauses e size ks ts).1.flatMap fun l => l.toList.flatMap fun l => c.ofClause l.node) := by
  induction ks generalizing ts with
  | nil => exact .refl
  | cons k ks ih =>
      have hhead := (clauseOf_tallied he hkeywords size k).optional hts
      exact hhead.trans (ih (hhead.good hts))

/-- The tokens of a statement hold what its leaves hold. -/
theorem select_passes {size : Nat} {s : Select} (hts : c.Good ts)
    (h : select e size ts = some (s, rest)) : c.Passes ts rest (c.ofSelect s) := by
  obtain ⟨list, items, sources, tables, hparts⟩ := parts_of_select h
  obtain ⟨behind, hselect, hdistinct⟩ := Option.map_eq_some_iff.mp hparts.list_eq
  have hlist : c.Passes ts list [] := by
    obtain ⟨t, rfl, ht⟩ := keyword_some hselect
    have hopt := passes_optKeyword (c := c) .distinct rfl behind
    rw [hdistinct] at hopt
    exact (Passes.single (hkeywords ht)).trans hopt
  have hitems := hlist.trans ((item_tallied he).commaList _ _ (hlist.good hts) hparts.items_eq)
  obtain ⟨t, hfrom, ht⟩ := keyword_some hparts.sources_eq
  have hsources := hitems.trans (hfrom ▸ Passes.single (hkeywords ht))
  have htables := hsources.trans (table_tallied.commaList _ _ (hsources.good hts) hparts.tables_eq)
  have hjoins := htables.trans ((join_tallied he size).many (htables.good hts))
  have hclauses := readClauses_passes he hkeywords size ClauseKind.all (hjoins.good hts)
  rw [hparts.clauses] at hclauses
  refine (hjoins.trans hclauses).cast ?_
  have hnothing : ∀ names : List TableRef, (names.flatMap fun _ => ([] : List β)) = [] :=
    fun names => List.flatMap_eq_nil_iff.mpr fun _ _ => rfl
  rw [ofSelect, hparts.items_value, hparts.joins_value, hnothing]
  simp only [List.nil_append, List.append_nil, List.append_assoc]

end Expression

end Tally

end QueryReplay.Sql
