import QueryReplay.Proofs.Phrases
import QueryReplay.Sql.Descriptor

/-! # Trees — statements without their layout

    A statement keeps where its clauses stand and how they are written.  Its
    tree (`Select.tree`) is what is left without that, and what two texts of one
    meaning have in common.  Reading a statement is taken apart here: a head up
    to the FROM list, the joins, and six optional clauses that are read by one
    and the same function (`readClauses`), each under its kind. -/

namespace QueryReplay.Sql

open QueryReplay.Sql.Parser QueryReplay.Sql.StatementParser

/-! ## Trees -/

/-- What a clause behind FROM says. -/
inductive ClauseTree where
  | condition (e : Expr)
  | keys (keys : List Expr)
  | order (keys : List (Expr × Bool))
  | rows (n : Nat)
deriving Repr

/-- An item without its text. -/
def SelectItem.bare : SelectItem → SelectItem
  | .wildcard => .wildcard
  | .tableWildcard table => .tableWildcard table
  | .expr e alias? _ => .expr e alias? ""

/-- A join without its place and text. -/
def Join.bare (j : Join) : JoinKind × TableRef × Option Expr := (j.kind, j.table, j.condition)

/-- A statement without places and texts. -/
structure Tree where
  distinct : Bool
  items : List SelectItem
  tables : List TableRef
  joins : List (JoinKind × TableRef × Option Expr)
  clause? : ClauseKind → Option ClauseTree

/-- The tree without the clauses from a kind on. -/
def Tree.upTo (t : Tree) (k : ClauseKind) : Tree :=
  { t with clause? := fun j => if j ∈ k.andLater then none else t.clause? j }

/-- The same place and text around something else. -/
def Located.map {α β : Type} (f : α → β) (l : Located α) : Located β := ⟨f l.node, l.span, l.text⟩

/-- The clause of a kind, with where it stands. -/
def Select.located (s : Select) : ClauseKind → Option (Located ClauseTree)
  | .filter => s.filter.map (Located.map .condition)
  | .groupBy => s.groupBy.map (Located.map fun keys => .keys (keys.map GroupKey.expr))
  | .having => s.having.map (Located.map .condition)
  | .orderBy => s.orderBy.map
      (Located.map fun keys => .order (keys.map fun k => (k.expr, k.descending)))
  | .limit => s.limit.map (Located.map .rows)
  | .offset => s.offset.map (Located.map .rows)

/-- What a statement says. -/
def Select.tree (s : Select) : Tree where
  distinct := s.distinct
  items := s.items.map SelectItem.bare
  tables := s.tables
  joins := s.joins.map Join.bare
  clause? k := (s.located k).map Located.node

theorem Select.startOf_eq (s : Select) (k : ClauseKind) :
    s.startOf? k = (s.located k).map (·.span.start) := by
  cases k <;> simp [startOf?, located, Option.map_map, Function.comp_def, Located.map]

/-! ## Kinds of clauses in their order -/

namespace ClauseKind

/-- The clauses before a kind. -/
def earlier (k : ClauseKind) : List ClauseKind := all.takeWhile (· != k)

/-- Every kind cuts the list of all kinds into those before it and the rest. -/
theorem earlier_append_andLater (k : ClauseKind) : k.earlier ++ k.andLater = all :=
  List.takeWhile_append_dropWhile

theorem mem_all (k : ClauseKind) : k ∈ all := by
  cases k <;> decide

/-- No kind is on both sides of the cut. -/
theorem disjoint_earlier {j k : ClauseKind} (h : j ∈ k.earlier) : j ∉ k.andLater := by
  revert j
  cases k <;> decide

/-- The keywords in front of a clause. -/
def keywords : ClauseKind → List Keyword
  | filter => [.where]
  | groupBy => [.group, .by]
  | having => [.having]
  | orderBy => [.order, .by]
  | limit => [.limit]
  | offset => [.offset]

end ClauseKind

/-! ## One reader for all clauses -/

/-- What stands behind the keywords of a clause. -/
def clauseBody (e : Parser Expr) : ClauseKind → Parser ClauseTree
  | .filter => e.map .condition
  | .groupBy => (commaList (StatementParser.groupKey e)).map fun keys => .keys (keys.map GroupKey.expr)
  | .having => e.map .condition
  | .orderBy => (commaList (sortKey e)).map fun keys => .order (keys.map fun k => (k.expr, k.descending))
  | .limit => rowCount.map .rows
  | .offset => rowCount.map .rows

/-- A clause of a kind. -/
def clauseOf (e : Parser Expr) (size : Nat) (k : ClauseKind) : Parser (Located ClauseTree) :=
  clause size k.keywords (clauseBody e k)

/-- Clauses of the given kinds, each of which may be absent. -/
def readClauses (e : Parser Expr) (size : Nat) :
    List ClauseKind → List Token → List (Option (Located ClauseTree)) × List Token
  | [], ts => ([], ts)
  | k :: ks, ts =>
    let head := optClause (clauseOf e size k) ts
    let more := readClauses e size ks head.2
    (head.1 :: more.1, more.2)

/-- What a clause says does not change how far it is read. -/
theorem clause_map {α β : Type} (size : Nat) (ks : List Keyword) (p : Parser α) (f : α → β)
    (ts : List Token) :
    optClause (clause size ks (p.map f)) ts
      = ((optClause (clause size ks p) ts).1.map (Located.map f), (optClause (clause size ks p) ts).2) := by
  have hclause : clause size ks (p.map f) ts = (clause size ks p).map (Located.map f) ts := by
    unfold clause Parser.map
    cases hread : ks.foldlM (fun ts k => keyword k ts) ts with
    | none => simp [hread]
    | some rest =>
        cases hbody : p rest with
        | none => simp [hread, hbody]
        | some b => simp [hread, hbody, Located.map, spanOf, Taken.text]
  unfold optClause ExprParser.optional
  rw [hclause]
  unfold Parser.map
  cases clause size ks p ts <;> rfl

/-- Reading more kinds goes on where the first of them stopped. -/
theorem readClauses_append (e : Parser Expr) (size : Nat) (js ks : List ClauseKind)
    (ts : List Token) :
    readClauses e size (js ++ ks) ts
      = ((readClauses e size js ts).1 ++ (readClauses e size ks (readClauses e size js ts).2).1,
        (readClauses e size ks (readClauses e size js ts).2).2) := by
  induction js generalizing ts with
  | nil => rfl
  | cons j js ih =>
      rw [List.cons_append, readClauses, ih]
      rfl

/-- There is one place for each kind, filled or not. -/
theorem readClauses_length (e : Parser Expr) (size : Nat) (ks : List ClauseKind) (ts : List Token) :
    (readClauses e size ks ts).1.length = ks.length := by
  induction ks generalizing ts with
  | nil => rfl
  | cons k ks ih => exact congrArg (· + 1) (ih _)

/-! ## A statement by its parts -/

/-- The parts that a statement was read from: the SELECT list, what is behind
    FROM, and the tokens behind the whole. -/
structure Parts (e : Parser Expr) (size : Nat) (ts : List Token) (s : Select)
    (list : List Token) (items : Taken (List SelectItem)) (sources : List Token)
    (tables : Taken (List TableRef)) (rest : List Token) : Prop where
  list_eq : (keyword .select ts).map (optKeyword .distinct) = some (s.distinct, list)
  items_eq : commaList (item e) list = some items
  sources_eq : keyword .from items.rest = some sources
  tables_eq : commaList table sources = some tables
  items_value : s.items = items.value
  items_span : s.itemsSpan = spanOf size list items
  tables_value : s.tables = tables.value
  from_span : s.fromSpan = spanOf size items.rest tables
  joins_value : s.joins = (many (join e size) tables.rest).value
  clauses : readClauses e size ClauseKind.all (many (join e size) tables.rest).rest
    = (ClauseKind.all.map s.located, rest)

/-- What is read in front of the clauses is all that a statement needs. -/
theorem select_of_parts {e : Parser Expr} {size : Nat} {ts list sources : List Token}
    {distinct : Bool} {items : Taken (List SelectItem)} {tables : Taken (List TableRef)}
    (hlist : (keyword .select ts).map (optKeyword .distinct) = some (distinct, list))
    (hitems : commaList (item e) list = some items)
    (hsources : keyword .from items.rest = some sources)
    (htables : commaList table sources = some tables) :
    ∃ s rest, select e size ts = some (s, rest)
      ∧ Parts e size ts s list items sources tables rest := by
  obtain ⟨behind, hselect, hbehind⟩ := Option.map_eq_some_iff.mp hlist
  -- a list has a first member, so there is a base table
  obtain ⟨base, more, hvalue⟩ : ∃ base more, tables.value = base :: more := by
    unfold commaList at htables
    split at htables
    · obtain rfl := Option.some.inj htables
      exact ⟨_, _, rfl⟩
    · exact nomatch htables
  have hselect : ∃ s rest, select e size ts = some (s, rest) ∧ s.distinct = distinct
      ∧ s.items = items.value ∧ s.itemsSpan = spanOf size list items ∧ s.tables = base :: more
      ∧ s.fromSpan = spanOf size items.rest tables
      ∧ s.joins = (many (join e size) tables.rest).value
      ∧ readClauses e size ClauseKind.all (many (join e size) tables.rest).rest
        = (ClauseKind.all.map s.located, rest) := by
    unfold select
    simp only [hselect, hbehind, hitems, hsources, htables, hvalue, Option.bind_eq_bind,
      Option.bind_some, Option.pure_def]
    refine ⟨_, _, rfl, rfl, rfl, rfl, rfl, rfl, rfl, ?_⟩
    simp only [readClauses, ClauseKind.all, clauseOf, clauseBody, ClauseKind.keywords, clause_map]
    rfl
  obtain ⟨s, rest, hread, hdistinct, hitemsValue, hitemsSpan, htablesValue, hfrom, hjoins,
    hclauses⟩ := hselect
  exact ⟨s, rest, hread, hdistinct ▸ hlist, hitems, hsources, htables, hitemsValue, hitemsSpan,
    htablesValue.trans hvalue.symm, hfrom, hjoins, hclauses⟩

/-- A statement that was read has all its parts. -/
theorem parts_of_select {e : Parser Expr} {size : Nat} {ts rest : List Token} {s : Select}
    (h : select e size ts = some (s, rest)) :
    ∃ list items sources tables, Parts e size ts s list items sources tables rest := by
  have hread := h
  unfold select at hread
  obtain ⟨behind, hselect, hread⟩ := Option.bind_eq_some_iff.mp hread
  obtain ⟨items, hitems, hread⟩ := Option.bind_eq_some_iff.mp hread
  obtain ⟨sources, hsources, hread⟩ := Option.bind_eq_some_iff.mp hread
  obtain ⟨tables, htables, -⟩ := Option.bind_eq_some_iff.mp hread
  have hlist : (keyword .select ts).map (optKeyword .distinct)
      = some ((optKeyword .distinct behind).1, (optKeyword .distinct behind).2) := by
    rw [hselect]
    rfl
  obtain ⟨s', rest', hselect', hparts⟩ := select_of_parts hlist hitems hsources htables
  obtain ⟨rfl, rfl⟩ := Prod.mk.inj (Option.some.inj (hselect'.symm.trans h))
  exact ⟨_, items, sources, tables, hparts⟩

end QueryReplay.Sql
