import QueryReplay.Proofs.Expressions
import QueryReplay.Proofs.StageOrder

/-! # Questions — what a replay asks the engine

    A replay asks for tables, for the statement or a front of it, and for texts
    that it puts together from parts of the statement.  Which it asks depends on
    the answers, but every one it can ask is found in the tree:

    * `Asks` folds a property of statements over the tree, and holds of every
      call of every run (`asks_run`), also of one that fails, so that nothing else can
      tell two runs apart (`run_alike`);
    * `Question` lists the shapes of what is asked about a statement that the
      grammar read, with the parts that are put into it;
    * each stage asks nothing else (`readSelect_asks`, `statement_asks`). -/

namespace QueryReplay

open Sql (Descriptor ClauseKind GroupKey SelectItem SelectColumn)

namespace Dialogue

variable {α β σ : Type} {p : String → Prop}

/-- Whatever is answered, only such statements are asked. -/
def Asks (p : String → Prop) : Dialogue α → Prop
  | done _ => True
  | refuse _ => True
  | ask sql next => p sql ∧ ∀ reply, (next reply).Asks p
  | display _ next => next.Asks p
  | note _ next => next.Asks p

/-- A tree that goes on asks what its two parts ask. -/
theorem asks_bind {d : Dialogue α} {f : α → Dialogue β} (hd : d.Asks p)
    (hf : ∀ a, (f a).Asks p) : (d >>= f).Asks p := by
  induction d with
  | done a => exact hf a
  | refuse o => exact trivial
  | ask sql next ih => exact ⟨hd.1, fun reply => ih reply (hd.2 reply)⟩
  | display step next ih => exact ih hd
  | note e next ih => exact ih hd

theorem asks_pure (a : α) : (pure a : Dialogue α).Asks p := trivial

theorem asks_refuse (o : Sql.Objection) : (refuse o : Dialogue α).Asks p := trivial

/-- A question asks for itself. -/
theorem asks_fetch {sql : String} (h : p sql) : (fetch sql).Asks p := ⟨h, fun _ => trivial⟩

theorem asks_showStep (step : Step) : (showStep step).Asks p := trivial

theorem asks_noteEvent (e : Event) : (noteEvent e).Asks p := trivial

theorem asks_require (e : Except Sql.Objection α) : (require e).Asks p := by
  cases e <;> exact trivial

/-- What is asked satisfies all that follows. -/
theorem asks_imp {q : String → Prop} {d : Dialogue α} (hd : d.Asks p) (h : ∀ sql, p sql → q sql) :
    d.Asks q := by
  induction d with
  | done a => exact trivial
  | refuse o => exact trivial
  | ask sql next ih => exact ⟨h sql hd.1, fun reply => ih reply (hd.2 reply)⟩
  | display step next ih => exact ih hd
  | note e next ih => exact ih hd

/-- What is made of a value asks nothing. -/
theorem asks_map {d : Dialogue α} (hd : d.Asks p) (f : α → β) :
    (d >>= fun a => pure (f a)).Asks p :=
  asks_bind hd fun a => asks_pure (f a)

/-- Every call of a run is one of those. -/
theorem asks_run (engine : Engine σ) {d : Dialogue α} (h : d.Asks p) (s : σ) :
    ∀ call ∈ (d.run engine s).calls, p call := by
  induction d generalizing s with
  | done a => exact fun _ hcall => nomatch hcall
  | refuse o => exact fun _ hcall => nomatch hcall
  | ask sql next ih =>
      intro call hcall
      rcases hexec : engine.execute sql s with ⟨message | reply, s'⟩
      · rw [run, hexec] at hcall
        -- a call that fails is the last
        exact List.mem_singleton.mp hcall ▸ h.1
      · rw [run, hexec] at hcall
        rcases List.mem_cons.mp hcall with rfl | hcall
        · exact h.1
        · exact ih reply (h.2 reply) s' call hcall
  | display step next ih => exact ih h s
  | note e next ih => exact ih h s

/-- States between which an engine does not tell when it is asked such statements are not
    told apart by a dialogue that asks no others. -/
theorem run_alike (engine : Engine σ) (alike : σ → σ → Prop)
    (hnames : ∀ s t, alike s t → engine.tableNames s = engine.tableNames t)
    (hask : ∀ sql, p sql → ∀ s t, alike s t → (engine.execute sql s).1 = (engine.execute sql t).1
      ∧ alike (engine.execute sql s).2 (engine.execute sql t).2)
    {d : Dialogue α} (h : d.Asks p) {s t : σ} (hst : alike s t) :
    alike (d.run engine s).state (d.run engine t).state
      ∧ d.run engine t = { d.run engine s with state := (d.run engine t).state } := by
  -- Along the dialogue: alike states give the same answer and alike states behind it, so the same
  -- question is next in both.
  induction d generalizing s t with
  | done a => exact ⟨hst, rfl⟩
  | refuse o => exact ⟨hst, rfl⟩
  | ask sql next ih =>
      obtain ⟨hanswer, hafter⟩ := hask sql h.1 s t hst
      rcases hs : engine.execute sql s with ⟨answer, s'⟩
      rcases ht : engine.execute sql t with ⟨answer', t'⟩
      rw [hs, ht] at hanswer hafter
      obtain rfl : answer = answer' := hanswer
      rw [run, run, hs, ht]
      cases answer with
      | error message =>
          refine ⟨hafter, ?_⟩
          dsimp only
          rw [hnames s' t' hafter]
      | ok reply =>
          obtain ⟨hstate, hsame⟩ := ih reply (h.2 reply) hafter
          refine ⟨hstate, ?_⟩
          dsimp only
          rw [hsame]
  | display step next ih =>
      obtain ⟨hstate, hsame⟩ := ih h hst
      refine ⟨hstate, ?_⟩
      rw [run, run]
      dsimp only
      rw [hsame]
  | note e next ih =>
      obtain ⟨hstate, hsame⟩ := ih h hst
      refine ⟨hstate, ?_⟩
      rw [run, run]
      dsimp only
      rw [hsame]

attribute [irreducible] Asks

end Dialogue

/-! ## Shapes of questions -/

/-- What a replay asks about a statement that the grammar read. -/
inductive Question (d : Descriptor) (s : Sql.Select) : String → Prop
  | scan (table : String) : Question d s (scanQuery table)
  | whole : Question d s d.sql
  | cut (k : ClauseKind) : Question d s (d.truncateBefore k)
  | identity : Question d s (identityQuery d)
  | perRow {requested : List GroupKey} (hne : requested ≠ [])
      (h : ∀ k ∈ requested, s.Writes k) :
      Question d s (perRowQuery d (requested.map GroupKey.text))
  | keyed (scope : Scope) (columns : List String) (k : ClauseKind) {call : String}
      (h : ∀ key ∈ resolvedKeys d scope columns, s.Writes key)
      (hcall : keyedQuery? d (resolvedKeys d scope columns) k = some call) : Question d s call

section Parts

variable {d : Descriptor} {s : Sql.Select} (hd : d.select? = some s)
include hd

/-- A column of the descriptor comes from an item of the statement. -/
theorem mem_columns {c : SelectColumn} (h : c ∈ d.columns) : ∃ item ∈ s.items, item.toColumn = c := by
  rw [Descriptor.columns, hd] at h
  exact List.mem_map.mp h

/-- An item that is no wildcard is written with the text of its column. -/
theorem writes_column {c : SelectColumn} (h : c ∈ d.columns) {e : Sql.Expr} (he : c.expr? = some e) :
    s.Writes ⟨e, c.expression⟩ := by
  obtain ⟨item, hitem, rfl⟩ := mem_columns hd h
  cases item with
  | wildcard => exact nomatch he
  | tableWildcard table => exact nomatch he
  | expr e' alias? text =>
      obtain rfl : e' = e := Option.some.inj he
      exact .inl ⟨alias?, hitem⟩

/-- A position or an alias stands for an item, any other key for itself. -/
theorem writes_resolvedKeys (scope : Scope) (columns : List String) :
    ∀ key ∈ resolvedKeys d scope columns, s.Writes key := by
  intro key hkey
  obtain ⟨written, hwritten, rfl⟩ := List.mem_map.mp hkey
  have hself : s.Writes written := by
    rw [Descriptor.groupKeys, hd] at hwritten
    exact .inr hwritten
  cases htarget : groupKeyTarget? d scope columns written with
  | none => exact hself
  | some c =>
      dsimp only
      cases he : c.expr? with
      | none => exact hself
      | some e =>
          refine writes_column hd ?_ he
          unfold groupKeyTarget? at htarget
          split at htarget
          · split at htarget
            · cases htarget
            · exact List.mem_of_getElem? htarget
          · split at htarget
            · exact List.mem_of_find?_eq_some htarget
            · cases htarget
          · cases htarget

/-- What is computed for an item is its text. -/
theorem outputsOf_writes (scope : Scope) (columns : List String) (count : Nat) {c : SelectColumn}
    (h : c ∈ d.columns) :
    ∃ requested : List GroupKey, (Stage.outputsOf scope columns count c).2 = requested.map GroupKey.text
      ∧ ∀ k ∈ requested, s.Writes k := by
  obtain ⟨item, hitem, rfl⟩ := mem_columns hd h
  have hnone : ∃ requested : List GroupKey, [] = requested.map GroupKey.text
      ∧ ∀ k ∈ requested, s.Writes k := ⟨[], rfl, fun _ hk => nomatch hk⟩
  unfold Stage.outputsOf
  cases item with
  | wildcard => exact hnone
  | tableWildcard table => exact hnone
  | expr e alias? text =>
      have hself : ∃ requested : List GroupKey, [text] = requested.map GroupKey.text
          ∧ ∀ k ∈ requested, s.Writes k :=
        ⟨[⟨e, text⟩], rfl, fun k hk => List.mem_singleton.mp hk ▸ .inl ⟨alias?, hitem⟩⟩
      cases hcolumn : e.asColumn? with
      | none => simpa only [SelectItem.toColumn, hcolumn] using hself
      | some ref =>
          cases hresolve : scope.resolve? columns ref with
          | none => simpa only [SelectItem.toColumn, hcolumn, hresolve] using hself
          | some column => simpa only [SelectItem.toColumn, hcolumn, hresolve] using hnone

/-- All that is computed for a projection is written in the statement. -/
theorem outputs_writes (scope : Scope) (columns : List String) :
    ∃ requested : List GroupKey,
      (Stage.outputs scope columns d.columns).2 = requested.map GroupKey.text
        ∧ ∀ k ∈ requested, s.Writes k := by
  -- what the items in front have asked for stays in front
  have hfold : ∀ (items : List SelectColumn) (start : List Stage.Output × List String),
      (∀ c ∈ items, c ∈ d.columns) →
      (∃ requested : List GroupKey, start.2 = requested.map GroupKey.text
        ∧ ∀ k ∈ requested, s.Writes k) →
      ∃ requested : List GroupKey, (items.foldl (fun acc c =>
          let made := Stage.outputsOf scope columns acc.2.length c
          (acc.1 ++ made.1, acc.2 ++ made.2)) start).2 = requested.map GroupKey.text
        ∧ ∀ k ∈ requested, s.Writes k := by
    intro items
    induction items with
    | nil => intro start _ hstart; exact hstart
    | cons c items ih =>
        intro start hitems hstart
        refine ih _ (fun c' hc' => hitems c' (List.mem_cons_of_mem c hc')) ?_
        obtain ⟨before, hbefore, hwrites⟩ := hstart
        obtain ⟨more, hmore, hmoreWrites⟩ :=
          outputsOf_writes hd scope columns start.2.length (hitems c List.mem_cons_self)
        refine ⟨before ++ more, ?_, fun k hk => ?_⟩
        · rw [List.map_append, ← hbefore, ← hmore]
        · rcases List.mem_append.mp hk with hk | hk
          · exact hwrites k hk
          · exact hmoreWrites k hk
  exact hfold d.columns ([], []) (fun _ hc => hc) ⟨[], rfl, List.forall_mem_nil _⟩

end Parts

/-! ## What the stages ask -/

namespace Stage

open Dialogue

variable {d : Descriptor} {s : Sql.Select}

/-- A scan asks for the table. -/
theorem scan_asks (table : String) : (scan table).Asks (Question d s) :=
  asks_map (asks_fetch (.scan table)) _

/-- A join asks for the table on its right and for nothing else: the rows are paired here. -/
theorem join_asks (current : Running) (clause : Sql.JoinClause) :
    (join d current clause).Asks (Question d s) := by
  refine asks_bind (scan_asks clause.table) (fun right => ?_)
  dsimp only
  split
  · exact asks_bind (asks_noteEvent _) fun _ => asks_map (asks_showStep _) _
  · exact asks_map (asks_showStep _) _

/-- The induction is on the joins that are left. -/
theorem joinAll_asks (clauses : List Sql.JoinClause) :
    ∀ current : Running, (joinAll d current clauses).Asks (Question d s) := by
  induction clauses with
  | nil => intro current; exact asks_pure current
  | cons clause rest ih => intro current; exact asks_bind (join_asks current clause) ih

/-- A filter asks for the identities of the rows that are left, and for nothing else. -/
theorem filter_asks (input : Snapshot) (condition : String) :
    (filter d input condition).Asks (Question d s) :=
  asks_bind (asks_fetch .identity) fun _ => asks_map (asks_showStep _) _

/-- Evaluation asks for the texts of parts that the statement holds, row by row. -/
theorem evaluate_asks (table : Snapshot) {requested : List GroupKey} (hne : requested ≠ [])
    (h : ∀ k ∈ requested, s.Writes k) :
    (evaluate d table (requested.map GroupKey.text)).Asks (Question d s) :=
  asks_map (asks_fetch (.perRow hne h)) _

/-- Keys are evaluated row by row unless all of them are columns of the table. -/
theorem keyTuples_asks (current : Running) {keys : List GroupKey} (h : ∀ k ∈ keys, s.Writes k) :
    (keyTuples d current keys).Asks (Question d s) := by
  unfold keyTuples
  split
  · exact asks_pure _
  · next hcolumns =>
      refine evaluate_asks current.table ?_ h
      -- without keys there is nothing that is no plain column
      rintro rfl
      exact nomatch hcolumns

/-- The statement cut before a clause. -/
theorem fetchCut_asks (k : ClauseKind) (name : String) (labels : List String) :
    (fetchCut d k name labels).Asks (Question d s) :=
  asks_map (asks_fetch (.cut k)) _

section Keys

variable (hd : d.select? = some s) (scope : Scope) (columns : List String)
include hd

/-- The same with the keys behind its items, or without them where they cannot be put there. -/
theorem fetchKeyed_asks (k : ClauseKind) (name : String) (labels : List String) :
    (fetchKeyed d (resolvedKeys d scope columns) k name labels).Asks (Question d s) := by
  unfold fetchKeyed
  split
  · next sql hcall =>
      exact asks_map (asks_fetch
        (.keyed scope columns k (writes_resolvedKeys hd scope columns) hcall)) _
  · exact asks_map (fetchCut_asks k name labels) _

theorem group_asks (current : Running) (labels : List String) :
    (group d current (resolvedKeys d scope columns) labels).Asks (Question d s) := by
  refine asks_bind (keyTuples_asks current (writes_resolvedKeys hd scope columns)) (fun tuples => ?_)
  refine asks_bind (fetchKeyed_asks hd scope columns .having "grouped" labels) (fun result => ?_)
  dsimp only
  split
  · exact asks_bind (asks_noteEvent _) fun _ => asks_map (asks_showStep _) _
  · exact asks_map (asks_showStep _) _

theorem having_asks (before : Keyed) (labels : List String) (condition : String) :
    (having d before (resolvedKeys d scope columns) labels condition).Asks (Question d s) := by
  have hafter : ∀ before : Keyed, (do
      let after ←
        if before.keys?.isSome then
          fetchKeyed d (resolvedKeys d scope columns) .orderBy "having" labels
        else pure ⟨← fetchCut d .orderBy "having" labels, none⟩
      let r := reconcileGroups before after
      showStep (.having (conditionStep "groups" condition before.table r))
      return r.result : Dialogue Snapshot).Asks (Question d s) := by
    intro before
    dsimp only
    split
    · exact asks_bind (fetchKeyed_asks hd scope columns _ _ _) fun _ => asks_map (asks_showStep _) _
    · exact asks_bind (fetchCut_asks _ _ _) fun _ => asks_map (asks_showStep _) _
  unfold having
  split
  · exact asks_bind (fetchCut_asks _ _ _) fun table => hafter ⟨table, none⟩
  · exact hafter before

end Keys

/-- Groups are projected from a cut statement, rows from the table and from the texts of the items
that no column answers. -/
theorem project_asks (hd : d.select? = some s) (current : Running) (labels : List String) :
    (project d current labels).Asks (Question d s) := by
  unfold project
  split
  · unfold projectGroups
    split
    · exact asks_map (asks_showStep _) _
    · exact asks_bind (fetchCut_asks _ _ _) fun _ => asks_map (asks_showStep _) _
  · unfold projectRows
    dsimp only
    split
    · exact asks_map (asks_showStep _) _
    · next hcomputed =>
        obtain ⟨requested, htexts, hwrites⟩ :=
          outputs_writes hd current.scope current.table.columns
        rw [htexts] at hcomputed
        refine asks_bind ?_ fun _ => asks_map (asks_showStep _) _
        rw [htexts]
        refine evaluate_asks _ ?_ hwrites
        rintro rfl
        exact hcomputed rfl

theorem order_asks (input : Snapshot) (labels : List String) :
    (order d input labels).Asks (Question d s) :=
  asks_bind (fetchCut_asks _ _ _) fun _ => asks_map (asks_showStep _) _

theorem limit_asks (input : Snapshot) (labels : List String) :
    (limit d input labels).Asks (Question d s) :=
  asks_bind (asks_fetch .whole) fun _ => asks_map (asks_showStep _) _

end Stage

namespace Replay

open Dialogue

variable {d : Descriptor} {s : Sql.Select}

/-- From the joined tables to the projection, every question is about the statement. -/
theorem shape_asks (hd : d.select? = some s) (current : Running) :
    (shape d current).Asks (Question d s) := by
  have hkept : ∀ groups : Stage.Keyed, (shapeGroups d current groups).Asks (Question d s) := by
    intro groups
    unfold shapeGroups
    cases d.having? with
    | some condition =>
        exact asks_bind (Stage.having_asks hd _ _ groups _ condition) fun _ =>
          Stage.project_asks hd _ _
    | none => exact Stage.project_asks hd _ _
  unfold shape
  by_cases hgroups : d.groupKeys.isEmpty = true
  · simp only [hgroups]
    exact hkept _
  · simp only [hgroups]
    exact asks_bind (Stage.group_asks hd _ _ current _) hkept

theorem conclude_asks (projected : Snapshot) (names : List String) :
    (conclude d projected names).Asks (Question d s) := by
  have hlast : ∀ ordered : Snapshot, (do
      if d.limit?.isSome || d.offset?.isSome then
        return (← Stage.limit d ordered names).renamed resultTable
      else if !d.sortKeys.isEmpty then
        return ordered.renamed resultTable
      else
        return ((← fetch d.sql).toSnapshot resultTable).labelled names
      : Dialogue Snapshot).Asks (Question d s) := by
    intro ordered
    split
    · exact asks_map (Stage.limit_asks ordered names) _
    · split
      · exact asks_pure _
      · exact asks_map (asks_fetch .whole) _
  unfold conclude
  dsimp only
  by_cases hsort : d.sortKeys.isEmpty = true
  · rw [if_pos hsort]
    exact hlast projected
  · rw [if_neg hsort]
    exact asks_bind (Stage.order_asks projected names) hlast

/-- A SELECT that the grammar read is asked about in these ways only. -/
theorem readSelect_asks (hd : d.select? = some s) (base : String) :
    (readSelect d base).Asks (Question d s) := by
  refine asks_bind (Stage.scan_asks base) (fun scanned => ?_)
  refine asks_bind (asks_showStep _) (fun _ => ?_)
  refine asks_bind (Stage.joinAll_asks d.joins _) (fun joined => ?_)
  have hrest : ∀ filtered : Snapshot,
      (shape d ⟨filtered, joined.scope⟩ >>= fun p => conclude d p.1 p.2).Asks (Question d s) :=
    fun filtered => asks_bind (shape_asks hd _) fun p => conclude_asks p.1 p.2
  cases d.filter? with
  | some condition => exact asks_bind (Stage.filter_asks joined.table condition) hrest
  | none => exact hrest _

/-- Whatever kind of statement a text is taken for, when the grammar reads it, it is
    asked about in these ways only. -/
theorem statement_asks {sql : String} (h : Sql.parse sql = .ok s) :
    (statement sql).Asks (Question (.extract sql) s) := by
  have hd := Sql.Descriptor.select?_extract h
  unfold statement
  split
  · exact asks_refuse _
  · split
    · exact asks_bind (asks_require _) fun _ => asks_refuse _
    · refine asks_bind (asks_require _) (fun _ => asks_bind (asks_noteEvent _) fun _ => ?_)
      have hreading : (Descriptor.extract sql).reading = .ok s := h
      rw [hreading]
      exact readSelect_asks hd s.base.name
    · refine asks_bind (asks_fetch .whole) (fun reply => ?_)
      split
      · exact asks_map (Stage.scan_asks _) _
      · exact asks_pure _

end Replay

end QueryReplay
