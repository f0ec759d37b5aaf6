import QueryReplay.Proofs.Pieces
import QueryReplay.Proofs.Subexpressions

/-! # Aggregates — which aggregate calls are found

    Whether a statement is projected by rows or by groups depends on the aggregate calls in
    its items, so none of them may be missed, however deep it stands.  The route:

    * a call at a place is either that of the whole expression or one of a part
      (`Expr.aggregateAt_cons`), and so is one that is not inside another
      (`Expr.outermost_cons`);
    * the search stops at an aggregate call and goes on with all parts of anything else, in
      their order (`Expr.aggregates_of_parts`), so it lists the outermost calls from left to
      right (`Expr.aggregates_inOrder`);
    * around or at every aggregate call there is an outermost one (`Expr.exists_outermost`),
      so the list is empty only if there is none at all;
    * of the texts that are noted one after another each is kept where it comes first
      (`EachOnce.concat`). -/

namespace QueryReplay.Sql

/-! ## Aggregate calls at places -/

namespace Expr

/-- The call that an expression consists of. -/
def call? : Expr → Option Call
  | .call name args distinct star text => some ⟨name, args, distinct, star, text⟩
  | _ => none

/-- An aggregate call stands at a place. -/
def AggregateAt (e : Expr) (p : Path) (c : Call) : Prop :=
  (e.at? p).bind call? = some c ∧ isAggregateName c.name = true

/-- An aggregate call stands at a place, and none around it. -/
structure Outermost (e : Expr) (p : Path) (c : Call) : Prop where
  aggregate : e.AggregateAt p c
  alone : ∀ q, q <+: p → q ≠ p → ∀ d, ¬e.AggregateAt q d

variable {e : Expr} {i : Nat} {p : Path} {c d : Call}

/-- There is one call at a place. -/
theorem AggregateAt.unique (hc : e.AggregateAt p c) (hd : e.AggregateAt p d) : c = d :=
  Option.some.inj (hc.1.symm.trans hd.1)

/-- A call at a place below the root is one of a part. -/
theorem aggregateAt_cons :
    e.AggregateAt (i :: p) c ↔ ∃ part, e.parts[i]? = some part ∧ part.AggregateAt p c := by
  unfold AggregateAt
  rw [at?]
  cases e.parts[i]? with
  | none => simp
  | some part => simp

/-- At the root an aggregate call is inside nothing. -/
theorem outermost_nil : e.Outermost [] c ↔ e.AggregateAt [] c :=
  ⟨Outermost.aggregate, fun h => ⟨h, fun _ hq hne => absurd (List.prefix_nil.mp hq) hne⟩⟩

/-- Below the root it must not be inside the call at the root. -/
theorem outermost_cons : e.Outermost (i :: p) c
    ↔ (∀ d, ¬e.AggregateAt [] d) ∧ ∃ part, e.parts[i]? = some part ∧ part.Outermost p c := by
  constructor
  · rintro ⟨hc, halone⟩
    obtain ⟨part, hpart, hc⟩ := aggregateAt_cons.mp hc
    refine ⟨halone [] List.nil_prefix (List.cons_ne_nil i p).symm, part, hpart, hc, ?_⟩
    intro q hq hne d hd
    refine halone (i :: q) ((List.prefix_cons_inj i).mpr hq) ?_ d
      (aggregateAt_cons.mpr ⟨part, hpart, hd⟩)
    exact fun heq => hne (List.cons.inj heq).2
  · rintro ⟨hwhole, part, hpart, hc, halone⟩
    refine ⟨aggregateAt_cons.mpr ⟨part, hpart, hc⟩, fun q hq hne d hd => ?_⟩
    cases q with
    | nil => exact hwhole d hd
    | cons j q =>
        obtain ⟨rfl, hbehind⟩ := List.cons_prefix_cons.mp hq
        obtain ⟨part', hpart', hd⟩ := aggregateAt_cons.mp hd
        obtain rfl := Option.some.inj (hpart.symm.trans hpart')
        exact halone q hbehind (fun heq => hne (congrArg (j :: ·) heq)) d hd

/-- Every aggregate call is an outermost one or stands inside of one. -/
theorem exists_outermost (h : e.AggregateAt p c) : ∃ q d, e.Outermost q d := by
  induction p generalizing e with
  | nil => exact ⟨[], c, outermost_nil.mpr h⟩
  | cons i p ih =>
      by_cases hwhole : ∃ d, e.AggregateAt [] d
      · obtain ⟨d, hd⟩ := hwhole
        exact ⟨[], d, outermost_nil.mpr hd⟩
      · obtain ⟨part, hpart, hc⟩ := aggregateAt_cons.mp h
        obtain ⟨q, d, hd⟩ := ih hc
        exact ⟨i :: q, d, outermost_cons.mpr ⟨not_exists.mp hwhole, part, hpart, hd⟩⟩

/-! ## What the search lists -/

/-- The search goes through a list member by member. -/
theorem aggregatesOfList_eq (es : List Expr) : aggregatesOfList es = es.flatMap aggregates := by
  induction es with
  | nil => rfl
  | cons e es ih =>
      show e.aggregates ++ aggregatesOfList es = _
      rw [ih, List.flatMap_cons]

theorem aggregatesOfOption_eq (o : Option Expr) :
    aggregatesOfOption o = o.toList.flatMap aggregates := by
  cases o with
  | none => rfl
  | some e => exact (List.append_nil _).symm

/-- Of each branch it takes the condition in front of the result. -/
theorem aggregatesOfBranches_eq (bs : List (Expr × Expr)) :
    aggregatesOfBranches bs = (bs.flatMap fun b => [b.1, b.2]).flatMap aggregates := by
  induction bs with
  | nil => rfl
  | cons b bs ih =>
      show b.1.aggregates ++ b.2.aggregates ++ aggregatesOfBranches bs = _
      rw [ih, List.flatMap_cons, List.flatMap_append, List.flatMap_cons, List.flatMap_singleton]

/-- The search stops at an aggregate call, whatever its arguments hold. -/
theorem aggregates_of_aggregate (h : e.AggregateAt [] c) : e.aggregates = [c] := by
  obtain ⟨hcall, hname⟩ := h
  cases e with
  | call name args distinct star text =>
      obtain rfl := Option.some.inj hcall
      exact if_pos hname
  | _ => exact nomatch hcall

/-- The search goes on with every part of what is no aggregate call. -/
theorem aggregates_of_parts (h : ∀ c, ¬e.AggregateAt [] c) :
    e.aggregates = e.parts.flatMap aggregates := by
  cases e with
  | literal v => rfl
  | column c => rfl
  | binary op left right => simp [aggregates, parts]
  | unary op operand => simp [aggregates, parts]
  | call name args distinct star text =>
      have hname : ¬isAggregateName name = true := fun hname => h _ ⟨rfl, hname⟩
      rw [aggregates, if_neg hname, aggregatesOfList_eq, parts]
  | isNull subject negated => simp [aggregates, parts]
  | inList subject items negated => simp [aggregates, parts, aggregatesOfList_eq]
  | between subject low high negated => simp [aggregates, parts]
  | case operand branches otherwise =>
      simp only [aggregates, parts, aggregatesOfOption_eq, aggregatesOfBranches_eq,
        List.flatMap_append, List.append_assoc]

/-- The search lists the outermost aggregate calls from left to right. -/
theorem aggregates_inOrder (e : Expr) : InOrder e.Outermost e.aggregates := by
  induction e using ind_parts with
  | h e ih =>
      by_cases hwhole : ∃ c, e.AggregateAt [] c
      · obtain ⟨c, hc⟩ := hwhole
        rw [aggregates_of_aggregate hc]
        refine ⟨[([], c)], List.pairwise_singleton _ _, fun p d => ?_, rfl⟩
        rw [List.mem_singleton, Prod.mk.injEq]
        constructor
        · rintro ⟨rfl, rfl⟩
          exact outermost_nil.mpr hc
        · intro hd
          cases p with
          | nil => exact ⟨rfl, hd.aggregate.unique hc⟩
          | cons i p => exact absurd hc ((outermost_cons.mp hd).1 c)
      · have hnone := not_exists.mp hwhole
        rw [aggregates_of_parts hnone]
        refine (inOrder_among ih).congr fun p c => ?_
        cases p with
        | nil => exact iff_of_false id fun h => hnone c h.aggregate
        | cons i p => exact (and_iff_right hnone).symm.trans outermost_cons.symm

/-- An expression is told to have an aggregate call if there is one at some place. -/
theorem containsAggregate_iff : e.containsAggregate = true ↔ ∃ p c, e.AggregateAt p c := by
  rw [containsAggregate, Bool.not_eq_true', List.isEmpty_eq_false_iff_exists_mem]
  constructor
  · rintro ⟨c, hc⟩
    obtain ⟨p, hp⟩ := e.aggregates_inOrder.mem_iff.mp hc
    exact ⟨p, c, hp.aggregate⟩
  · rintro ⟨p, c, hc⟩
    obtain ⟨q, d, hd⟩ := exists_outermost hc
    exact ⟨d, e.aggregates_inOrder.mem_iff.mpr ⟨q, hd⟩⟩

end Expr

/-! ## Values where they come first -/

section EachOnce

variable {α : Type} [DecidableEq α]

/-- The values of a list, each once, in the order in which they come first. -/
structure EachOnce (l firsts : List α) : Prop where
  mem_iff : ∀ a, a ∈ firsts ↔ a ∈ l
  nodup : firsts.Nodup
  ordered : firsts.Pairwise fun a b => l.idxOf a < l.idxOf b

/-- A value is put behind those that are there if it is a new one. -/
def addNew (firsts : List α) (a : α) : List α :=
  if firsts.contains a then firsts else firsts ++ [a]

/-- One value more at the end: it is new, or it has its place already. -/
theorem EachOnce.concat {l firsts : List α} (h : EachOnce l firsts) (a : α) :
    EachOnce (l ++ [a]) (addNew firsts a) := by
  -- what comes first somewhere in the list still comes first there
  have hfront : ∀ b ∈ firsts, (l ++ [a]).idxOf b = l.idxOf b := fun b hb =>
    List.idxOf_append_of_mem ((h.mem_iff b).mp hb)
  have hordered : firsts.Pairwise fun b c => (l ++ [a]).idxOf b < (l ++ [a]).idxOf c := by
    refine h.ordered.imp_of_mem fun hb hc hlt => ?_
    rwa [hfront _ hb, hfront _ hc]
  unfold addNew
  by_cases ha : a ∈ firsts
  · rw [if_pos (List.contains_iff_mem.mpr ha)]
    refine ⟨fun b => ?_, h.nodup, hordered⟩
    rw [h.mem_iff, List.mem_append, List.mem_singleton, iff_self_or]
    rintro rfl
    exact (h.mem_iff b).mp ha
  · rw [if_neg (mt List.contains_iff_mem.mp ha)]
    refine ⟨fun b => ?_, ?_, ?_⟩
    · rw [List.mem_append, List.mem_append, h.mem_iff]
    · refine List.nodup_append.mpr ⟨h.nodup, List.pairwise_singleton _ _, fun b hb c hc heq => ?_⟩
      exact ha (List.mem_singleton.mp hc ▸ heq ▸ hb)
    · refine List.pairwise_append.mpr ⟨hordered, List.pairwise_singleton _ _, fun b hb c hc => ?_⟩
      obtain rfl := List.mem_singleton.mp hc
      rw [hfront b hb, List.idxOf_append_of_notMem (mt (h.mem_iff c).mpr ha), List.idxOf_cons_self]
      exact List.idxOf_lt_length_of_mem ((h.mem_iff b).mp hb)

/-- Values that are noted one after another are noted once each, in the order of their first
places. -/
theorem eachOnce_addNew (l : List α) : EachOnce l (l.foldl addNew []) := by
  induction l using List.reverseRecOn with
  | nil => exact ⟨fun _ => Iff.rfl, List.nodup_nil, .nil⟩
  | append_singleton l a ih =>
      rw [List.foldl_concat]
      exact ih.concat a

end EachOnce

/-! ## Statements -/

/-- The expression of an item. -/
def SelectItem.expr? : SelectItem → Option Expr
  | .expr e _ _ => some e
  | _ => none

namespace Select

/-- The expressions of the items. -/
def itemExprs (s : Select) : List Expr := s.items.filterMap SelectItem.expr?

/-- The expressions that are searched: those of the items, and then the condition of HAVING. -/
def searched (s : Select) : List Expr := s.itemExprs ++ (s.having.map Located.node).toList

/-- What searches each item searches the expressions of the items. -/
theorem flatMap_items {f : SelectItem → List Call} (hwildcard : f .wildcard = [])
    (htable : ∀ table, f (.tableWildcard table) = [])
    (hexpr : ∀ e alias? text, f (.expr e alias? text) = e.aggregates) (items : List SelectItem) :
    items.flatMap f = (items.filterMap SelectItem.expr?).flatMap Expr.aggregates := by
  induction items with
  | nil => rfl
  | cons item items ih =>
      rw [List.flatMap_cons, ih]
      cases item with
      | wildcard => rw [hwildcard]; rfl
      | tableWildcard table => rw [htable]; rfl
      | expr e alias? text => rw [hexpr]; rfl

/-- The aggregates of a statement are the texts of what is found in its items and in HAVING, each
noted once. -/
theorem aggregates_eq (s : Select) :
    s.aggregates = ((s.searched.flatMap Expr.aggregates).map Call.text).foldl addNew [] := by
  have hhaving : s.having.elim [] (fun h => h.node.aggregates)
      = (s.having.map Located.node).toList.flatMap Expr.aggregates := by
    cases s.having with
    | none => rfl
    | some h => exact (List.append_nil _).symm
  rw [List.foldl_map, searched, List.flatMap_append]
  unfold aggregates
  exact congrArg (List.foldl _ []) (congrArg₂ (· ++ ·)
    (flatMap_items rfl (fun _ => rfl) (fun _ _ _ => rfl) s.items) hhaving)

/-- A statement has an aggregate item if an aggregate call stands anywhere in its items. -/
theorem aggregate_columns_iff (s : Select) : s.columns.any SelectColumn.aggregate = true
    ↔ ∃ e ∈ s.itemExprs, ∃ p c, e.AggregateAt p c := by
  rw [columns, List.any_map, List.any_eq_true]
  constructor
  · rintro ⟨item, hitem, haggregate⟩
    cases item with
    | wildcard => exact nomatch haggregate
    | tableWildcard table => exact nomatch haggregate
    | expr e alias? text =>
        exact ⟨e, List.mem_filterMap.mpr ⟨_, hitem, rfl⟩, Expr.containsAggregate_iff.mp haggregate⟩
  · rintro ⟨e, he, haggregate⟩
    obtain ⟨item, hitem, hexpr⟩ := List.mem_filterMap.mp he
    cases item with
    | wildcard => exact nomatch hexpr
    | tableWildcard table => exact nomatch hexpr
    | expr f alias? text =>
        obtain rfl := Option.some.inj hexpr
        exact ⟨_, hitem, Expr.containsAggregate_iff.mpr haggregate⟩

end Select

/-- Aggregate calls are found wherever they stand.  An expression is said to contain one exactly
    when one stands at some place inside of it, and the calls that are listed are those that do
    not stand inside of another one, from left to right.  An accepted statement is described
    with the texts of these calls in its items and then in HAVING, each once and in the order
    in which they come first, and it is taken to be about groups exactly when it has group keys
    or an item with an aggregate call at some place. -/
theorem aggregates_exact :
    (∀ e : Expr, (e.containsAggregate = true ↔ ∃ p c, e.AggregateAt p c)
        ∧ ∀ calls, calls = e.aggregates ↔ InOrder e.Outermost calls)
      ∧ ∀ sql s, parse sql = .ok s →
        (∃ calls, InOrder (Among Expr.Outermost s.searched) calls
            ∧ EachOnce (calls.map Call.text) (Descriptor.extract sql).aggregates)
          ∧ ((Descriptor.extract sql).isAggregateQuery = true
            ↔ s.groupKeys ≠ [] ∨ ∃ e ∈ s.itemExprs, ∃ p c, e.AggregateAt p c) := by
  refine ⟨fun e => ⟨Expr.containsAggregate_iff, fun calls => ⟨?_, fun h => ?_⟩⟩,
    fun sql s hs => ⟨⟨s.searched.flatMap Expr.aggregates, ?_, ?_⟩, ?_⟩⟩
  · rintro rfl
    exact e.aggregates_inOrder
  · exact h.unique e.aggregates_inOrder
  · exact inOrder_among fun e _ => e.aggregates_inOrder
  · rw [Descriptor.aggregates, Descriptor.select?_extract hs, Option.elim_some, s.aggregates_eq]
    exact eachOnce_addNew _
  · rw [Descriptor.isAggregateQuery, Descriptor.groupKeys, Descriptor.columns,
      Descriptor.select?_extract hs, Option.elim_some, Option.elim_some, Bool.or_eq_true,
      s.aggregate_columns_iff, Bool.not_eq_true', List.isEmpty_eq_false_iff]

/-- Calls in the arguments of others, in a CASE and in HAVING, in letters of both cases. -/
theorem aggregates_exact_nested : ∃ sql s,
    sql = "SELECT d, COALESCE(SUM(a + MIN(b)), 0), CASE WHEN count(*) > 1 THEN Avg(c) END FROM t "
        ++ "GROUP BY d HAVING Avg(c) < 5 AND ABS(MAX(COUNT(b))) > count(*)"
      ∧ parse sql = .ok s
      ∧ (Descriptor.extract sql).aggregates
        = ["SUM(a + MIN(b))", "count(*)", "Avg(c)", "MAX(COUNT(b))"]
      ∧ (∃ calls, InOrder (Among Expr.Outermost s.searched) calls
        ∧ EachOnce (calls.map Call.text) ["SUM(a + MIN(b))", "count(*)", "Avg(c)", "MAX(COUNT(b))"])
      ∧ (Descriptor.extract sql).isAggregateQuery = true := by
  obtain ⟨sql, hsql⟩ : ∃ sql, sql
      = "SELECT d, COALESCE(SUM(a + MIN(b)), 0), CASE WHEN count(*) > 1 THEN Avg(c) END FROM t "
        ++ "GROUP BY d HAVING Avg(c) < 5 AND ABS(MAX(COUNT(b))) > count(*)" := ⟨_, rfl⟩
  have hread : (parse sql).isOk = true
      ∧ (Descriptor.extract sql).aggregates
        = ["SUM(a + MIN(b))", "count(*)", "Avg(c)", "MAX(COUNT(b))"]
      ∧ (Descriptor.extract sql).groupKeys.length = 1 := by
    rw [hsql]
    decide +kernel
  obtain ⟨haccepted, hlisted, hkeys⟩ := hread
  obtain ⟨s, hs⟩ := accepted_of_isOk haccepted
  obtain ⟨hcalls, hgroups⟩ := aggregates_exact.2 sql s hs
  rw [hlisted] at hcalls
  refine ⟨sql, s, hsql, hs, hlisted, hcalls, hgroups.mpr (.inl fun hnone => ?_)⟩
  rw [Descriptor.groupKeys, Descriptor.select?_extract hs, Option.elim_some, hnone] at hkeys
  exact nomatch hkeys

end QueryReplay.Sql
