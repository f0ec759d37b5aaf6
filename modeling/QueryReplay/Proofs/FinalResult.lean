import QueryReplay.Proofs.Cells
import QueryReplay.Proofs.Dialogues
import QueryReplay.Proofs.Slices
import QueryReplay.Replay

/-! # The final result — the engine's answer to the whole statement

    A SELECT ends in one of four ways: with LIMIT or OFFSET, with ORDER BY
    alone, with neither, or without having been read by the grammar.  All four
    end on the same question.  The route:

    * the stages before the projection show no projection, and where groups
      were asked for their table has distinct columns (`Quietly`);
    * the projection shows one step, and hands on the names of its columns,
      which differ (`project_ensures`);
    * with LIMIT absent the statement cut before LIMIT is the whole statement
      (`truncateBefore_limit`), so the ordered table is the final one;
    * the last table has the cells of the last answer in place
      (`Snapshot.Presents`), under the projection's names where they fit. -/

namespace QueryReplay

open Sql (Descriptor ClauseKind GroupKey)

/-! ## Projections among the steps -/

/-- A step that chooses columns. -/
def Step.projection? : Step → Option ProjectStep
  | .project p => some p
  | _ => none

/-- The steps that choose columns. -/
def projections (steps : List Step) : List ProjectStep := steps.filterMap Step.projection?

@[simp] theorem projections_append (steps more : List Step) :
    projections (steps ++ more) = projections steps ++ projections more := by
  simp [projections]

/-- A step that chooses no columns keeps the projections. -/
theorem projections_concat {step : Step} (h : step.projection? = none) (steps : List Step) :
    projections (steps ++ [step]) = projections steps := by
  rw [projections_append, projections, projections, List.filterMap_cons_none h]
  exact List.append_nil _

/-! ## Stages that show no projection -/

/-- The dialogue shows no projection, and its value has a property. -/
def Dialogue.Quietly {α : Type} (P : α → Prop) (d : Dialogue α) : Prop :=
  ∀ asked shown, d.Ensures
    (fun _ shown' a => projections shown' = projections shown ∧ P a) asked shown

namespace Dialogue

variable {α β : Type} {P : α → Prop} {Q : β → Prop}

/-- A quiet part leaves the rest to be proved from the same projections. -/
theorem ensures_quietly {post : List (String × Reply) → List Step → α → Prop}
    {d : Dialogue α} (h : d.Quietly P) (asked : List (String × Reply)) (shown : List Step)
    (hpost : ∀ asked' shown' a, projections shown' = projections shown → P a →
      post asked' shown' a) :
    d.Ensures post asked shown := by
  exact ensures_mono (fun asked' shown' a ha => hpost asked' shown' a ha.1 ha.2) (h asked shown)

theorem quietly_pure {a : α} (h : P a) : (pure a : Dialogue α).Quietly P :=
  fun _ _ => ensures_pure ⟨rfl, h⟩

theorem quietly_bind {d : Dialogue α} {f : α → Dialogue β} (hd : d.Quietly P)
    (hf : ∀ a, P a → (f a).Quietly Q) : (d >>= f).Quietly Q := by
  intro asked shown
  refine ensures_bind (ensures_quietly hd asked shown (fun asked' shown' a hshown ha => ?_))
  refine ensures_quietly (hf a ha) asked' shown' (fun _ _ _ hshown' hb => ?_)
  exact ⟨hshown'.trans hshown, hb⟩

theorem quietly_fetch (sql : String) : (fetch sql).Quietly fun _ => True :=
  fun _ _ => ensures_fetch fun _ => ⟨rfl, trivial⟩

theorem quietly_noteEvent (e : Event) : (noteEvent e).Quietly fun _ => True :=
  fun _ _ => ensures_noteEvent ⟨rfl, trivial⟩

theorem quietly_showStep {step : Step} (h : step.projection? = none) :
    (showStep step).Quietly fun _ => True :=
  fun _ shown => ensures_showStep ⟨projections_concat h shown, trivial⟩

end Dialogue

namespace Stage

open Dialogue

/-- Labels keep columns distinct. -/
theorem labelled_nodup {s : Snapshot} (h : s.columns.Nodup) (labels : List String) :
    (s.labelled labels).columns.Nodup := by
  by_cases hlen : labels.length = s.columns.length
  · rw [s.columns_labelled hlen]
    exact uniqueNames_nodup labels
  · rw [Snapshot.labelled, Snapshot.relabel?, if_neg hlen]
    exact h

theorem scan_quietly (table : String) : (scan table).Quietly fun _ => True :=
  quietly_bind (quietly_fetch _) fun _ _ => quietly_pure trivial

theorem join_quietly (d : Descriptor) (current : Running) (clause : Sql.JoinClause) :
    (join d current clause).Quietly fun _ => True := by
  refine quietly_bind (scan_quietly clause.table) (fun right _ => ?_)
  dsimp only
  split
  · refine quietly_bind (quietly_noteEvent _) (fun _ _ => ?_)
    exact quietly_bind (quietly_showStep rfl) fun _ _ => quietly_pure trivial
  · exact quietly_bind (quietly_showStep rfl) fun _ _ => quietly_pure trivial

theorem joinAll_quietly (d : Descriptor) (clauses : List Sql.JoinClause) :
    ∀ current : Running, (joinAll d current clauses).Quietly fun _ => True := by
  induction clauses with
  | nil => intro current; exact quietly_pure trivial
  | cons clause rest ih =>
      intro current
      exact quietly_bind (join_quietly d current clause) fun next _ => ih next

theorem filter_quietly (d : Descriptor) (input : Snapshot) (condition : String) :
    (filter d input condition).Quietly fun _ => True := by
  refine quietly_bind (quietly_fetch _) (fun reply _ => ?_)
  exact quietly_bind (quietly_showStep rfl) fun _ _ => quietly_pure trivial

theorem evaluate_quietly (d : Descriptor) (table : Snapshot) (expressions : List String) :
    (evaluate d table expressions).Quietly fun _ => True :=
  quietly_bind (quietly_fetch _) fun _ _ => quietly_pure trivial

theorem keyTuples_quietly (d : Descriptor) (current : Running) (keys : List GroupKey) :
    (keyTuples d current keys).Quietly fun _ => True := by
  unfold keyTuples
  cases keyColumns? current keys with
  | some columns => exact quietly_pure trivial
  | none => exact evaluate_quietly d current.table _

theorem fetchCut_quietly (d : Descriptor) (k : ClauseKind) (name : String)
    (labels : List String) :
    (fetchCut d k name labels).Quietly fun s => s.columns.Nodup :=
  quietly_bind (quietly_fetch _) fun reply _ =>
    quietly_pure (labelled_nodup (uniqueNames_nodup reply.columns) labels)

theorem fetchKeyed_quietly (d : Descriptor) (keys : List GroupKey) (k : ClauseKind)
    (name : String) (labels : List String) :
    (fetchKeyed d keys k name labels).Quietly fun s => s.table.columns.Nodup := by
  unfold fetchKeyed
  cases keyedQuery? d keys k with
  | some sql =>
      refine quietly_bind (quietly_fetch sql) (fun reply _ => quietly_pure ?_)
      exact labelled_nodup (uniqueNames_nodup _) labels
  | none =>
      exact quietly_bind (fetchCut_quietly d k name labels) fun s hs => quietly_pure hs

theorem group_quietly (d : Descriptor) (current : Running) (keys : List GroupKey)
    (labels : List String) :
    (group d current keys labels).Quietly fun s => s.table.columns.Nodup := by
  refine quietly_bind (keyTuples_quietly d current keys) (fun tuples _ => ?_)
  refine quietly_bind (fetchKeyed_quietly d keys .having "grouped" labels) (fun result hresult => ?_)
  dsimp only
  split
  · refine quietly_bind (quietly_noteEvent _) (fun _ _ => ?_)
    exact quietly_bind (quietly_showStep rfl) fun _ _ => quietly_pure hresult
  · exact quietly_bind (quietly_showStep rfl) fun _ _ => quietly_pure hresult

/-- However groups are matched, the result has the columns of the table after. -/
theorem reconcileGroups_columns (before after : Keyed) :
    (reconcileGroups before after).result.columns = after.table.columns := by
  unfold reconcileGroups
  split <;> rfl

/-- The second half of HAVING: the groups after, and the step. -/
theorem havingAfter_quietly (d : Descriptor) (before : Keyed) (keys : List GroupKey)
    (labels : List String) (condition : String) :
    (do
      let after ←
        if before.keys?.isSome then fetchKeyed d keys .orderBy "having" labels
        else pure ⟨← fetchCut d .orderBy "having" labels, none⟩
      let r := reconcileGroups before after
      showStep (.having (conditionStep "groups" condition before.table r))
      return r.result : Dialogue Snapshot).Quietly fun s => s.columns.Nodup := by
  have hshow : ∀ after : Keyed, after.table.columns.Nodup →
      (do
        let r := reconcileGroups before after
        showStep (.having (conditionStep "groups" condition before.table r))
        return r.result : Dialogue Snapshot).Quietly fun s => s.columns.Nodup := by
    intro after hafter
    refine quietly_bind (quietly_showStep rfl) (fun _ _ => quietly_pure ?_)
    rw [reconcileGroups_columns]
    exact hafter
  dsimp only
  split
  · exact quietly_bind (fetchKeyed_quietly d keys .orderBy "having" labels) hshow
  · exact quietly_bind (fetchCut_quietly d .orderBy "having" labels)
      fun s hs => hshow ⟨s, none⟩ hs

theorem having_quietly (d : Descriptor) (before : Keyed) (keys : List GroupKey)
    (labels : List String) (condition : String) :
    (having d before keys labels condition).Quietly fun s => s.columns.Nodup := by
  unfold having
  split
  · exact quietly_bind (fetchCut_quietly d .having "aggregated" labels)
      fun s _ => havingAfter_quietly d ⟨s, none⟩ keys labels condition
  · exact havingAfter_quietly d before keys labels condition

/-! ## The projection -/

section Projection

variable {post : List (String × Reply) → List Step → Snapshot × List String → Prop}
variable {asked : List (String × Reply)} {shown : List Step}

/-- A dialogue that ends by showing a projection with distinct columns. -/
theorem showProjection_ensures {p : ProjectStep} {result : Snapshot} {names : List String}
    (hnames : p.result.columns = names) (hnodup : names.Nodup)
    (h : ∀ asked' shown' q result, projections shown' = projections shown ++ [q] →
      q.result.columns.Nodup → post asked' shown' (result, q.result.columns)) :
    (showStep (.project p) >>= fun _ => pure (result, names)
      : Dialogue (Snapshot × List String)).Ensures post asked shown := by
  subst hnames
  refine ensures_bind (ensures_showStep (ensures_pure ?_))
  exact h asked (shown ++ [.project p]) p result (projections_append shown [.project p]) hnodup

/-- The projection shows one step and hands on its column names, which differ. -/
theorem project_ensures (d : Descriptor) (current : Running) (labels : List String)
    (hgrouped : (!d.groupKeys.isEmpty || d.having?.isSome) = true →
      current.table.columns.Nodup)
    (h : ∀ asked' shown' p result, projections shown' = projections shown ++ [p] →
      p.result.columns.Nodup → post asked' shown' (result, p.result.columns)) :
    (project d current labels).Ensures post asked shown := by
  -- what was asked for before the step does not matter, nor does it show a projection
  have hfrom : ∀ {shown' : List Step}, projections shown' = projections shown →
      ∀ asked'' shown'' q result, projections shown'' = projections shown' ++ [q] →
        q.result.columns.Nodup → post asked'' shown'' (result, q.result.columns) := by
    intro shown' hshown asked'' shown'' q result hq
    rw [hshown] at hq
    exact h asked'' shown'' q result hq
  unfold project
  by_cases haggregate : d.isAggregateQuery = true
  · rw [if_pos haggregate, projectGroups]
    split
    · rename_i hcond
      refine showProjection_ensures rfl ?_ h
      exact labelled_nodup (hgrouped hcond) labels
    · refine ensures_bind (ensures_quietly (fetchCut_quietly d .orderBy "projected" labels) _ _
        (fun asked' shown' shaped hshown hshaped => ?_))
      exact showProjection_ensures rfl hshaped (hfrom hshown)
  · rw [if_neg haggregate, projectRows]
    have hcolumns : ∀ s : Snapshot,
        (if d.distinct then s.distinct else s).columns = s.columns := by
      intro s
      split <;> rfl
    dsimp only
    split
    · exact showProjection_ensures (hcolumns _) (uniqueNames_nodup _) h
    · refine ensures_bind (ensures_quietly (evaluate_quietly d _ _) _ _
        (fun asked' shown' values hshown _ => ?_))
      exact showProjection_ensures (hcolumns _) (uniqueNames_nodup _) (hfrom hshown)

end Projection

end Stage

/-! ## The last table -/

/-- A table holds the cells of an answer in place, under the name of results. -/
structure Snapshot.Presents (s : Snapshot) (reply : Reply) : Prop where
  name : s.name = resultTable
  width : s.columns.length = reply.columns.length
  cells : s.cellRows = reply.rows.map (fitted reply.columns.length)

/-- A table under other labels has as many columns as before. -/
theorem Snapshot.width_labelled (s : Snapshot) (labels : List String) :
    (s.labelled labels).columns.length = s.columns.length := by
  by_cases h : labels.length = s.columns.length
  · rw [s.columns_labelled h, uniqueNames_length, h]
  · rw [labelled, relabel?, if_neg h]
    rfl

/-- Under any labels and any name before, an answer is presented. -/
theorem presents_labelled (reply : Reply) (name : String) (labels : List String) :
    (((reply.toSnapshot name).labelled labels).renamed resultTable).Presents reply where
  name := rfl
  width := by
    rw [Snapshot.columns_renamed, Snapshot.width_labelled]
    exact uniqueNames_length reply.columns
  cells := by
    rw [Snapshot.cellRows_renamed, Snapshot.cellRows_labelled]
    exact Snapshot.cellRows_ofCells name reply.columns reply.rows

/-- Labels do not touch the name of a table. -/
theorem Snapshot.renamed_labelled (s : Snapshot) (labels : List String) :
    (s.labelled labels).renamed s.name = s.labelled labels := by
  by_cases h : labels.length = s.columns.length
  · rw [labelled, relabel?, if_pos h]
    rfl
  · rw [labelled, relabel?, if_neg h]
    rfl

/-- Distinct labels that fit an answer become the columns. -/
theorem columns_presented {reply : Reply} {labels : List String} (hnodup : labels.Nodup)
    (name : String) (h : reply.columns.length = labels.length) :
    ((reply.toSnapshot name).labelled labels).columns = labels := by
  have hfit : labels.length = (reply.toSnapshot name).columns.length := by
    rw [← h]
    exact (uniqueNames_length reply.columns).symm
  rw [Snapshot.columns_labelled _ hfit, uniqueNames_of_nodup hnodup]

/-- With LIMIT and OFFSET absent, the cut before LIMIT takes blanks at most. -/
theorem truncateBefore_limit {d : Descriptor} (hlimit : d.limit? = none)
    (hoffset : d.offset? = none) : d.truncateBefore .limit = Text.trimEnd d.sql := by
  have hcut : d.cutBefore .limit = d.sql.utf8ByteSize := by
    unfold Descriptor.cutBefore
    cases hs : d.select? with
    | none => rfl
    | some s =>
        have hl : s.limit = none := by
          simpa [Descriptor.limit?, hs] using hlimit
        have ho : s.offset = none := by
          simpa [Descriptor.offset?, hs] using hoffset
        show ((ClauseKind.andLater .limit).filterMap s.startOf?).min?.getD _ = _
        rw [show ClauseKind.andLater .limit = [.limit, .offset] from rfl]
        simp [Sql.Select.startOf?, hl, ho]
  rw [Descriptor.truncateBefore, hcut, Text.slice_whole]

/-- A normalized statement has no blanks at its end. -/
theorem trimEnd_normalize (sql : String) :
    Text.trimEnd (Sql.normalize sql) = Sql.normalize sql := by
  unfold Sql.normalize Text.trimEnd
  rw [String.toList_ofList, Text.dropTrailing_of_imp]
  intro c hc
  rw [hc, Bool.or_true]

/-! ## The ways to the end -/

/-- What a SELECT ends with: the last exchange is the whole statement, and the
    table presents the answer. -/
def Concluded (sql : String) (post : Reply → List Step → Snapshot → Prop)
    (asked : List (String × Reply)) (shown : List Step) (final : Snapshot) : Prop :=
  ∃ before reply, asked = before ++ [(sql, reply)] ∧ final.Presents reply
    ∧ post reply shown final

/-- There is one projection, and the final table has its columns when the
    answer has as many. -/
def ColumnsOfProjection (reply : Reply) (shown : List Step) (final : Snapshot) : Prop :=
  ∃ p, projections shown = [p] ∧
    (reply.columns.length = p.result.columns.length → final.columns = p.result.columns)

section Ends

open Dialogue

variable {post : List (String × Reply) → List Step → Snapshot → Prop}
variable {asked : List (String × Reply)} {shown : List Step}

/-- The ordered table is the answer to the statement cut before LIMIT. -/
theorem order_ensures (d : Descriptor) (input : Snapshot) (labels : List String)
    (h : ∀ shown' reply, projections shown' = projections shown →
      post (asked ++ [(d.truncateBefore .limit, reply)]) shown'
        ((reply.toSnapshot "ordered").labelled labels)) :
    (Stage.order d input labels).Ensures post asked shown := by
  refine ensures_bind (ensures_bind (ensures_fetch fun reply => ensures_pure ?_))
  refine ensures_bind (ensures_showStep (ensures_pure ?_))
  exact h _ reply (projections_concat rfl shown)

/-- The limited table is the answer to the whole statement. -/
theorem limit_ensures (d : Descriptor) (input : Snapshot) (labels : List String)
    (h : ∀ shown' reply, projections shown' = projections shown →
      post (asked ++ [(d.sql, reply)]) shown' ((reply.toSnapshot "limited").labelled labels)) :
    (Stage.limit d input labels).Ensures post asked shown := by
  refine ensures_bind (ensures_fetch fun reply => ?_)
  refine ensures_bind (ensures_showStep (ensures_pure ?_))
  exact h _ reply (projections_concat rfl shown)

/-- From the projection on, a SELECT ends with the whole statement. -/
theorem conclude_ensures (d : Descriptor) (hsql : Text.trimEnd d.sql = d.sql)
    (projected : Snapshot) (p : ProjectStep) (hshown : projections shown = [p])
    (hnodup : p.result.columns.Nodup) :
    (Replay.conclude d projected p.result.columns).Ensures
      (Concluded d.sql ColumnsOfProjection) asked shown := by
  -- however it ends, the last call is the statement and its answer is relabelled as the
  -- projection is; what was shown in between is no projection
  have hend : ∀ (before : List (String × Reply)) (shown' : List Step) (reply : Reply)
      (name : String), projections shown' = projections shown →
      Concluded d.sql ColumnsOfProjection (before ++ [(d.sql, reply)]) shown'
        (((reply.toSnapshot name).labelled p.result.columns).renamed resultTable) := by
    intro before shown' reply name hshown'
    refine ⟨before, reply, rfl, presents_labelled reply name _, p, hshown'.trans hshown, ?_⟩
    exact fun hwidth => columns_presented hnodup name hwidth
  have hlimited : ∀ (asked' : List (String × Reply)) (shown' : List Step) (ordered : Snapshot),
      projections shown' = projections shown →
      (do return (← Stage.limit d ordered p.result.columns).renamed resultTable
        : Dialogue Snapshot).Ensures (Concluded d.sql ColumnsOfProjection) asked' shown' := by
    intro asked' shown' ordered hshown'
    refine ensures_bind (limit_ensures d ordered _ (fun shown'' reply hshown'' => ?_))
    exact ensures_pure (hend asked' shown'' reply "limited" (hshown''.trans hshown'))
  unfold Replay.conclude
  dsimp only
  -- LIMIT or OFFSET asks the statement last; without them ORDER BY does, whose query is the
  -- statement cut before nothing; without both it is asked by itself
  by_cases hrange : (d.limit?.isSome || d.offset?.isSome) = true
  · simp only [if_pos hrange]
    split
    · exact hlimited asked shown projected rfl
    · refine ensures_bind (order_ensures d projected _ (fun shown' reply hshown' => ?_))
      exact hlimited _ shown' _ hshown'
  · obtain ⟨hlimit, hoffset⟩ : d.limit? = none ∧ d.offset? = none := by
      simpa using hrange
    simp only [if_neg hrange]
    by_cases hsort : d.sortKeys.isEmpty = true
    · simp only [hsort]
      refine ensures_bind (ensures_pure ?_)
      rw [if_neg (by simp)]
      refine ensures_bind (ensures_fetch fun reply => ensures_pure ?_)
      rw [← Snapshot.renamed_labelled (reply.toSnapshot resultTable)]
      exact hend asked shown reply resultTable rfl
    · simp only [hsort]
      refine ensures_bind (order_ensures d projected _ (fun shown' reply hshown' => ?_))
      rw [truncateBefore_limit hlimit hoffset, hsql]
      exact ensures_pure (hend asked shown' reply "ordered" hshown')

/-- HAVING and the projection of the groups: how `Replay.shape` ends. -/
def Replay.shapeGroups (d : Descriptor) (current : Running) (groups : Stage.Keyed) :
    Dialogue (Snapshot × List String) := do
  let labels := uniqueNames (d.columns.map (·.outputName))
  let kept ← match d.having? with
    | some condition =>
      Stage.having d groups (resolvedKeys d current.scope current.table.columns) labels condition
    | none => pure groups.table
  Stage.project d ⟨kept, current.scope⟩ labels

/-- Up to the projection, one projection is shown. -/
theorem shape_ensures {post : List (String × Reply) → List Step → Snapshot × List String → Prop}
    (d : Descriptor) (current : Running)
    (h : ∀ asked' shown' p result, projections shown' = projections shown ++ [p] →
      p.result.columns.Nodup → post asked' shown' (result, p.result.columns)) :
    (Replay.shape d current).Ensures post asked shown := by
  -- with groups the running table is the engine's, so its columns differ
  have hkept : ∀ (grouped : Stage.Keyed) (asked' : List (String × Reply)) (shown' : List Step),
      projections shown' = projections shown →
      ((!d.groupKeys.isEmpty) = true → grouped.table.columns.Nodup) →
      (Replay.shapeGroups d current grouped).Ensures post asked' shown' := by
    intro grouped asked' shown' hshown' hgrouped
    unfold Replay.shapeGroups
    cases hhaving : d.having? with
    | some condition =>
        refine ensures_bind (ensures_quietly (Stage.having_quietly d grouped _ _ condition) _ _
          (fun asked'' shown'' kept hshown'' hnodup => ?_))
        refine Stage.project_ensures d _ _ (fun _ => hnodup) ?_
        rw [hshown'', hshown']
        exact h
    | none =>
        refine ensures_bind (ensures_pure (Stage.project_ensures d _ _ (fun hcond => ?_) ?_))
        · rw [hhaving, Option.isSome_none, Bool.or_false] at hcond
          exact hgrouped hcond
        · rw [hshown']
          exact h
  unfold Replay.shape
  by_cases hgroups : d.groupKeys.isEmpty = true
  · simp only [if_pos hgroups]
    refine ensures_bind (ensures_pure (hkept _ asked shown rfl (fun hne => ?_)))
    rw [hgroups] at hne
    cases hne
  · simp only [if_neg hgroups]
    refine ensures_bind (ensures_quietly (Stage.group_quietly d current _ _) _ _
      (fun asked' shown' grouped hshown' hnodup => ?_))
    exact hkept grouped asked' shown' hshown' (fun _ => hnodup)

/-- Every SELECT that the grammar read ends with the whole statement. -/
theorem readSelect_ensures (d : Descriptor) (hsql : Text.trimEnd d.sql = d.sql) (base : String) :
    (Replay.readSelect d base).Ensures (Concluded d.sql ColumnsOfProjection) [] [] := by
  refine ensures_bind (ensures_quietly (Stage.scan_quietly base) _ _
    (fun asked shown scanned hscan _ => ?_))
  refine ensures_bind (ensures_quietly (quietly_showStep rfl) _ _
    (fun asked shown _ hshow _ => ?_))
  refine ensures_bind (ensures_quietly (Stage.joinAll_quietly d _ _) _ _
    (fun asked shown joined hjoin _ => ?_))
  have hrest : ∀ (filtered : Snapshot) (asked' : List (String × Reply)) (shown' : List Step),
      projections shown' = projections shown →
      (Replay.shape d ⟨filtered, joined.scope⟩ >>= fun p => Replay.conclude d p.1 p.2).Ensures
          (Concluded d.sql ColumnsOfProjection) asked' shown' := by
    intro filtered asked' shown' hshown'
    refine ensures_bind (shape_ensures d _ (fun asked'' shown'' p result hshown'' hnodup => ?_))
    refine conclude_ensures d hsql result p ?_ hnodup
    rw [hshown'', hshown', hjoin, hshow, hscan]
    rfl
  dsimp only
  cases d.filter? with
  | some condition =>
      refine ensures_bind (ensures_quietly (Stage.filter_quietly d _ condition) _ _ ?_)
      exact fun asked' shown' filtered hshown' _ => hrest filtered asked' shown' hshown'
  | none => exact ensures_bind (ensures_pure (hrest joined.table asked shown rfl))

theorem concluded_mono {sql : String} {post post' : Reply → List Step → Snapshot → Prop}
    {final : Snapshot} (h : post ≤ post') (hpost : Concluded sql post asked shown final) :
    Concluded sql post' asked shown final := by
  obtain ⟨before, reply, hasked, hpresents, hrest⟩ := hpost
  exact ⟨before, reply, hasked, hpresents, h reply shown final hrest⟩

/-- A SELECT that the grammar did not read ends with the whole statement, too. -/
theorem unreadSelect_ensures (d : Descriptor) :
    (Replay.unreadSelect d).Ensures (Concluded d.sql fun _ _ _ => True) [] [] := by
  have hend : ∀ asked' shown',
      (do return (← Dialogue.fetch d.sql).toSnapshot resultTable : Dialogue Snapshot).Ensures
        (Concluded d.sql fun _ _ _ => True) asked' shown' := by
    intro asked' shown'
    refine ensures_bind (ensures_fetch fun reply => ensures_pure ⟨asked', reply, rfl, ?_, trivial⟩)
    exact ⟨rfl, uniqueNames_length reply.columns, Snapshot.cellRows_ofCells _ _ _⟩
  unfold Replay.unreadSelect
  cases d.fromTable? with
  | some base =>
      refine ensures_bind (ensures_quietly (Stage.scan_quietly base) _ _
        (fun asked' shown' scanned _ _ => ?_))
      exact ensures_bind (ensures_quietly (quietly_showStep rfl) _ _
        (fun asked'' shown'' _ _ _ => hend asked'' shown''))
  | none => exact hend [] []

/-- Whether the grammar read it or not, a SELECT ends with the whole statement. -/
theorem reading_ensures (d : Descriptor) (hsql : Text.trimEnd d.sql = d.sql) :
    (match d.reading with
      | .ok s => Replay.readSelect d s.base.name
      | .error _ => Replay.unreadSelect d).Ensures
      (Concluded d.sql fun reply shown final =>
        (∃ r, d.reading = Except.ok r) → ColumnsOfProjection reply shown final) [] [] := by
  cases hread : d.reading with
  | ok s =>
      refine ensures_mono (fun _ _ _ => concluded_mono ?_) (readSelect_ensures d hsql s.base.name)
      exact fun reply shown final h _ => h
  | error e =>
      refine ensures_mono (fun _ _ _ => concluded_mono ?_) (unreadSelect_ensures d)
      rintro reply shown final - ⟨s, hs⟩
      exact nomatch hs

/-- Any SELECT ends with the whole statement. -/
theorem select_ensures (sql : String) (hsql : Text.trimEnd sql = sql) :
    (Replay.select sql).Ensures
      (Concluded sql fun reply shown final =>
        (∃ s, Sql.parse sql = .ok s) → ColumnsOfProjection reply shown final) [] [] := by
  unfold Replay.select
  have htext : (Descriptor.extract sql).sql = sql := rfl
  have hread : (Descriptor.extract sql).reading = Sql.parse sql := rfl
  generalize Descriptor.extract sql = d at htext hread
  subst htext
  rw [← hread]
  refine ensures_bind (ensures_require fun _ _ => ensures_bind (ensures_noteEvent ?_))
  exact reading_ensures d hsql

end Ends

/-! ## The replay -/

/-- A led dialogue that concludes has asked its last statement last. -/
theorem concluded_run {σ : Type} (engine : Engine σ) {sql : String}
    {post : Reply → List Step → Snapshot → Prop} {d : Dialogue Snapshot} {s : σ}
    {final : Snapshot} (h : d.Ensures (Concluded sql post) [] [])
    (hresult : (d.run engine s).result = .ok final) :
    ∃ before reply, (d.run engine s).calls = before ++ [sql]
      ∧ (engine.execute sql (engine.stateAfter before s)).1 = .ok reply
      ∧ final.Presents reply ∧ post reply (d.run engine s).steps final := by
  obtain ⟨exchanges, hcalls, hanswers, before, reply, hlast, hpresents, hpost⟩ :=
    Dialogue.ensures_run engine d h hresult
  rw [List.nil_append] at hlast
  rw [hlast] at hcalls hanswers
  refine ⟨before.map Prod.fst, reply, ?_, engine.answers_concat hanswers, hpresents, hpost⟩
  rw [← hcalls, List.map_append]
  rfl

/-- When a replay has no error, it records what its dialogue ended with. -/
theorem replay_success {σ : Type} {engine : Engine σ} {sql : String} {s : σ}
    (h : (replay engine sql s).outcome.error = none) :
    ∃ final, ((Replay.statement (Sql.normalize sql)).run engine s).result = .ok final
      ∧ (replay engine sql s).outcome.finalResult = final
      ∧ (replay engine sql s).outcome.steps
          = ((Replay.statement (Sql.normalize sql)).run engine s).steps
      ∧ (replay engine sql s).calls
          = ((Replay.statement (Sql.normalize sql)).run engine s).calls := by
  unfold replay at h ⊢
  generalize (Replay.statement (Sql.normalize sql)).run engine s = t at h ⊢
  obtain ⟨result, state, calls, events, steps⟩ := t
  cases result with
  | ok final => exact ⟨final, rfl, rfl, rfl, rfl⟩
  | error failure => exact nomatch h

/-- A statement that is a SELECT is replayed as one, unless it is blank. -/
theorem statement_select {sql : String} (h : Sql.classify sql = .ok .select) :
    Replay.statement sql = .refuse .empty ∨ Replay.statement sql = Replay.select sql := by
  unfold Replay.statement
  split
  · exact Or.inl rfl
  · rw [h]
    exact Or.inr rfl

/-- A SELECT that is replayed without an error has asked the engine for the whole
    statement last, and its final table is that answer: row by row and cell by
    cell, under the columns of the projection where the answer has as many. -/
theorem replay_select_final {σ : Type} (engine : Engine σ) (sql : String) (s : σ)
    (hselect : Sql.classify (Sql.normalize sql) = .ok .select)
    (hok : (replay engine sql s).outcome.error = none) :
    (replay engine sql s).calls.getLast? = some (Sql.normalize sql) ∧
    ∃ reply : Reply,
      (engine.execute (Sql.normalize sql)
        (engine.stateAfter (replay engine sql s).calls.dropLast s)).1 = .ok reply
      ∧ (replay engine sql s).outcome.finalResult.name = resultTable
      ∧ (replay engine sql s).outcome.finalResult.columns.length = reply.columns.length
      ∧ (replay engine sql s).outcome.finalResult.cellRows = reply.rows.map (fun row =>
          (List.range reply.columns.length).map fun i => row.getD i .null)
      ∧ ((∃ parsed, Sql.parse (Sql.normalize sql) = .ok parsed) →
          ∃ p, projections (replay engine sql s).outcome.steps = [p]
            ∧ (reply.columns.length = p.result.columns.length →
                (replay engine sql s).outcome.finalResult.columns = p.result.columns)) := by
  obtain ⟨table, hresult, hfinal, hsteps, hcalls⟩ := replay_success hok
  rcases statement_select hselect with hempty | hsel
  · rw [hempty, Dialogue.run_refuse] at hresult
    exact nomatch hresult
  have hensures := select_ensures (Sql.normalize sql) (trimEnd_normalize sql)
  rw [← hsel] at hensures
  obtain ⟨before, reply, hbefore, hreply, hpresents, hcolumns⟩ :=
    concluded_run engine hensures hresult
  rw [hfinal, hsteps, hcalls, hbefore, List.getLast?_concat, List.dropLast_concat]
  exact ⟨rfl, reply, hreply, hpresents.name, hpresents.width, hpresents.cells, hcolumns⟩

/-- A scan and the statement itself, answered from a script. -/
theorem replay_select_final_scripted :
    Sql.classify (Sql.normalize "SELECT a FROM t ;") = .ok .select
    ∧ (replay (Engine.scripted none) "SELECT a FROM t ;"
        [.ok ⟨["rowid", "a"], [[.int 1, .int 5]]⟩, .ok ⟨["a"], [[.int 5], []]⟩]).outcome.error = none
    ∧ (replay (Engine.scripted none) "SELECT a FROM t ;"
        [.ok ⟨["rowid", "a"], [[.int 1, .int 5]]⟩, .ok ⟨["a"], [[.int 5], []]⟩]).calls.getLast?
          = some (Sql.normalize "SELECT a FROM t ;") := by
  refine ⟨by decide +kernel, by decide +kernel, ?_⟩
  exact (replay_select_final (Engine.scripted none) "SELECT a FROM t ;" _
    (by decide +kernel) (by decide +kernel)).1

end QueryReplay
