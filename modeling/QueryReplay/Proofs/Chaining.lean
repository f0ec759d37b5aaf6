import QueryReplay.Proofs.Cells
import QueryReplay.Proofs.Invariants
import QueryReplay.Proofs.RowIndices
import QueryReplay.Proofs.StageOrder

/-! # The steps of a replay as a chain

    Whoever shows the steps reads row indices of one table against another, so
    each step has to start from the table that the step before it left, and its
    indices have to be those of its own tables.  The route:

    * `Sound` says so of the steps shown so far, and `Handed` that a running
      table is the one that the last of them left, with no row marked;
    * each stage that is handed a table shows one sound step and hands on the
      table of that step;
    * a replay keeps `Sound` whatever the engine answers, so it holds of the
      steps of every run, also of one that fails. -/

namespace QueryReplay

open Sql (Descriptor ClauseKind GroupKey)

/-! ## Steps that fit together -/

/-- Two tables read alike: the same name, columns and rows, whatever is marked in them. -/
structure Snapshot.ReadsAs (t u : Snapshot) : Prop where
  name : t.name = u.name
  columns : t.columns = u.columns
  rows : t.rows = u.rows

theorem Snapshot.ReadsAs.refl (t : Snapshot) : t.ReadsAs t := ⟨rfl, rfl, rfl⟩

/-- The table that a step starts from; a scan starts from none. -/
def Step.input? : Step → Option Snapshot
  | .scan _ => none
  | .join s => some s.left
  | .filter s => some s.input
  | .groupBy s => some s.input
  | .having s => some s.input
  | .project s => some s.input
  | .orderBy s => some s.input
  | .limit s => some s.input

/-- A step starts from the table that the step before it left.  HAVING in a statement
    that is not `grouped` starts from a table of its own. -/
def Step.StartsFrom (grouped : Bool) (previous next : Step) : Prop :=
  (∃ input, next.input? = some input ∧ input.ReadsAs previous.result)
    ∨ (grouped = false ∧ next.kind = "Having")

/-- The indices of a join: the pairs are in order and in range, the rows that met none
    are the complements of both sides and faded in the two tables, and the result has a
    row for each pair and each row that the kind of join keeps alone. -/
structure JoinStep.Indexed (s : JoinStep) : Prop where
  increasing : s.matched.Pairwise fun p q => p.1 < q.1 ∨ p.1 = q.1 ∧ p.2 < q.2
  inRange : ∀ p ∈ s.matched, p.1 < s.left.size ∧ p.2 < s.right.size
  unmatchedLeft : s.unmatchedLeft = complement s.left.size (s.matched.map Prod.fst)
  unmatchedRight : s.unmatchedRight = complement s.right.size (s.matched.map Prod.snd)
  dimmedLeft : s.left.dimmed.toList = s.unmatchedLeft
  dimmedRight : s.right.dimmed.toList = s.unmatchedRight
  rows : ∃ kind : Sql.JoinKind, s.joinType = kind.display
    ∧ s.result.size = s.matched.length
      + (if kind.keepsLeft then s.unmatchedLeft.length else 0)
      + (if kind.keepsRight then s.unmatchedRight.length else 0)

/-- The indices of a condition: the kept and the other rows divide the table, and they
    are the rows that it shows as kept and as faded. -/
structure FilterStep.Indexed (s : FilterStep) : Prop where
  divides : Divides s.input.size s.kept s.filteredOut
  highlighted : s.input.highlighted.toList = s.kept
  dimmed : s.input.dimmed.toList = s.filteredOut

/-- The indices of groups: each row is in one group, and no group is without rows. -/
structure GroupStep.Indexed (s : GroupStep) : Prop where
  partition : (s.groups.flatMap Group.rows).Perm (List.range s.input.size)
  nonempty : ∀ g ∈ s.groups, g.rows ≠ []

/-- The indices that a step shows are right for the tables that it shows. -/
def Step.Indexed : Step → Prop
  | .join s => s.Indexed
  | .filter s => s.Indexed ∧ s.result.size = s.kept.length
  | .groupBy s => s.Indexed
  | .having s => s.Indexed
  | _ => True

/-- Steps that start each where the one before it ended, with the right indices. -/
structure Sound (grouped : Bool) (shown : List Step) : Prop where
  chain : shown.IsChain (Step.StartsFrom grouped)
  indexed : ∀ step ∈ shown, step.Indexed

/-! ## Tables with no row marked -/

/-- No row is shown as kept or as faded. -/
structure Snapshot.IsPlain (t : Snapshot) : Prop where
  highlighted : t.highlighted = .empty
  dimmed : t.dimmed = .empty

namespace Snapshot

/-- Other labels do not mark any rows. -/
theorem isPlain_labelled {t : Snapshot} (h : t.IsPlain) (labels : List String) :
    (t.labelled labels).IsPlain := by
  unfold labelled relabel?
  split
  · exact ⟨rfl, rfl⟩
  · exact h

theorem size_labelled (t : Snapshot) (labels : List String) : (t.labelled labels).size = t.size := by
  unfold labelled relabel?
  split
  · simp [size, cellRows]
  · rfl

theorem size_toSnapshot (r : Reply) (name : String) : (r.toSnapshot name).size = r.size :=
  List.length_map ..

/-- Neither does dropping repeated rows. -/
theorem isPlain_distinct (t : Snapshot) : t.distinct.IsPlain := ⟨rfl, rfl⟩

end Snapshot

/-- The condition's step shows the indices that divide the table. -/
theorem Stage.conditionStep_indexed (noun condition : String) {input : Snapshot}
    {r : Reconciliation} (hplain : input.IsPlain)
    (h : Divides input.size r.kept r.filteredOut) :
    (conditionStep noun condition input r).Indexed where
  divides := h
  highlighted := by
    show (input.highlighted.insertAll r.kept).toList = r.kept
    rw [hplain.highlighted]
    exact IndexSet.toList_insertAll h.kept_increasing
  dimmed := by
    show (input.dimmed.insertAll r.filteredOut).toList = r.filteredOut
    rw [hplain.dimmed]
    exact IndexSet.toList_insertAll h.dropped_increasing

/-! ## From stage to stage -/

/-- A running table that the last step left: the steps are sound up to there, and no
    row of the table is marked. -/
structure Handed (grouped : Bool) (shown : List Step) (t : Snapshot) : Prop where
  sound : Sound grouped shown
  last : ∀ step ∈ shown.getLast?, t.ReadsAs step.result
  plain : t.IsPlain

/-- A sound step that starts from the running table hands on its own. -/
theorem Handed.concat {grouped : Bool} {shown : List Step} {t : Snapshot}
    (h : Handed grouped shown t) {step : Step}
    (hinput : (∃ input, step.input? = some input ∧ input.ReadsAs t)
      ∨ (grouped = false ∧ step.kind = "Having"))
    (hindexed : step.Indexed) (hplain : step.result.IsPlain) :
    Handed grouped (shown ++ [step]) step.result where
  sound := by
    constructor
    · refine List.isChain_append.mpr ⟨h.sound.chain, List.isChain_singleton _, ?_⟩
      intro previous hprevious next hnext
      obtain rfl := Option.some.inj hnext
      rcases hinput with ⟨input, hin, hreads⟩ | hexempt
      · have hlast := h.last previous hprevious
        exact .inl ⟨input, hin, hreads.name.trans hlast.name, hreads.columns.trans hlast.columns,
          hreads.rows.trans hlast.rows⟩
      · exact .inr hexempt
    · intro s hs
      rcases List.mem_append.mp hs with hs | hs
      · exact h.sound.indexed s hs
      · rw [List.mem_singleton.mp hs]
        exact hindexed
  last := by
    intro s hs
    rw [List.getLast?_concat] at hs
    rw [← Option.some.inj hs]
    exact .refl _
  plain := hplain

/-- A scan is where the chain begins. -/
theorem handed_scan (grouped : Bool) {s : ScanStep} (hplain : s.result.IsPlain) :
    Handed grouped [.scan s] s.result where
  sound := ⟨List.isChain_singleton _, by simp [Step.Indexed]⟩
  last := by
    intro step hstep
    rw [← Option.some.inj hstep]
    exact .refl _
  plain := hplain

section Stages

open Dialogue

variable {grouped : Bool} {asked : List (String × Reply)} {shown : List Step}

/-- The running table is shown in a step, which hands on its own. -/
theorem showStep_sound {t : Snapshot} (h : Handed grouped shown t) {step : Step}
    {post : List (String × Reply) → List Step → Unit → Prop}
    (hinput : (∃ input, step.input? = some input ∧ input.ReadsAs t)
      ∨ (grouped = false ∧ step.kind = "Having"))
    (hindexed : step.Indexed) (hplain : step.result.IsPlain)
    (hpost : Handed grouped (shown ++ [step]) step.result → post asked (shown ++ [step]) ()) :
    (showStep step).Maintains (fun _ => Sound grouped) post asked shown :=
  maintains_showStep (h.concat hinput hindexed hplain).sound
    (hpost (h.concat hinput hindexed hplain))

namespace Stage

/-- A scan shows nothing and hands on a table without marks. -/
theorem scan_sound {post : List (String × Reply) → List Step → Snapshot → Prop} (table : String)
    (hpost : ∀ asked' scanned, scanned.IsPlain → post asked' shown scanned) :
    (scan table).Maintains (fun _ => Sound grouped) post asked shown := by
  refine maintains_bind (maintains_fetch fun reply => maintains_pure ?_)
  exact hpost _ _ ⟨rfl, rfl⟩

/-- The running table joined with a table that was read. -/
def joined (d : Descriptor) (current : Running) (clause : Sql.JoinClause) (right : Snapshot) :
    JoinOutcome :=
  let left := withPrefixes d current
  joinTables left.table left.scope right clause
    (left.scope.choosePrefix clause.table clause.alias?) "joined"

/-- The step that shows it. -/
def joinStep (d : Descriptor) (current : Running) (clause : Sql.JoinClause) (right : Snapshot) :
    JoinStep :=
  let o := joined d current clause right
  { description := joinDescription clause o
    joinType := clause.kind.display
    condition := clause.condition
    left := current.table.dim o.pairs.unmatchedLeft
    right := right.dim o.pairs.unmatchedRight
    matched := o.pairs.matched
    unmatchedLeft := o.pairs.unmatchedLeft
    unmatchedRight := o.pairs.unmatchedRight
    result := o.result }

/-- A join reads a table, may note a warning, and shows its step. -/
theorem join_eq (d : Descriptor) (current : Running) (clause : Sql.JoinClause) :
    join d current clause = (do
      let right ← scan clause.table
      match joinWarning? clause (joined d current clause right).rule with
      | some warning => Dialogue.noteEvent warning
      | none => pure ()
      Dialogue.showStep (.join (joinStep d current clause right))
      return ⟨(joinStep d current clause right).result, (withPrefixes d current).scope.add
        clause.qualifier ((withPrefixes d current).scope.choosePrefix clause.table clause.alias?)⟩) :=
  rfl

/-- Prefixes change the columns of the running table, not its rows. -/
theorem withPrefixes_size (d : Descriptor) (current : Running) :
    (withPrefixes d current).table.rows.length = current.table.size := by
  unfold withPrefixes
  split
  · rfl
  · exact List.length_map ..

/-- What a join shows of its two tables are the indices of `joinPairs`. -/
theorem joinStep_indexed (d : Descriptor) {current : Running} (clause : Sql.JoinClause)
    {right : Snapshot} (hplain : current.table.IsPlain) (hright : right.IsPlain) :
    (joinStep d current clause right).Indexed := by
  -- the prefixes change no row, so the pairs are those of the rows before
  have hpairs : ∃ rule, (joined d current clause right).pairs
      = joinPairs clause.kind rule (withPrefixes d current).table.rows right.rows := ⟨_, rfl⟩
  obtain ⟨rule, hpairs⟩ := hpairs
  have hsize := withPrefixes_size d current
  have hunmatched := unmatchedLeft_eq clause.kind rule (withPrefixes d current).table.rows right.rows
  have hunmatched' :=
    unmatchedRight_eq clause.kind rule (withPrefixes d current).table.rows right.rows
  rw [← hpairs, hsize] at hunmatched
  rw [← hpairs] at hunmatched'
  constructor
  case increasing =>
    show (joined d current clause right).pairs.matched.Pairwise _
    rw [hpairs]
    exact matched_increasing ..
  case inRange =>
    rintro ⟨i, j⟩ hpair
    have hmet : (i, j) ∈ (joined d current clause right).pairs.matched := hpair
    rw [hpairs] at hmet
    obtain ⟨l, r, hl, hr, -⟩ := (mem_matched ..).mp hmet
    rw [List.getElem?_eq_some_iff] at hl hr
    exact ⟨hsize ▸ hl.1, hr.1⟩
  case unmatchedLeft => exact hunmatched
  case unmatchedRight => exact hunmatched'
  case dimmedLeft =>
    show (current.table.dimmed.insertAll _).toList = _
    rw [hplain.dimmed]
    refine IndexSet.toList_insertAll ?_
    rw [hunmatched]
    exact List.pairwise_lt_range.filter _
  case dimmedRight =>
    show (right.dimmed.insertAll _).toList = _
    rw [hright.dimmed]
    refine IndexSet.toList_insertAll ?_
    rw [hunmatched']
    exact List.pairwise_lt_range.filter _
  case rows =>
    refine ⟨clause.kind, rfl, ?_⟩
    have hrows : (joinStep d current clause right).result.size
        = (joined d current clause right).pairs.sources.length := List.length_map ..
    rw [hrows, hpairs, sources_length, ← hpairs]
    rfl

/-- The step of a join begins with the table that was handed on, and its pairs and leftovers are
rows of its two tables. -/
theorem join_sound {post : List (String × Reply) → List Step → Running → Prop} (d : Descriptor)
    (current : Running) (clause : Sql.JoinClause) (h : Handed grouped shown current.table)
    (hpost : ∀ asked' shown' next, Handed grouped shown' next.table → post asked' shown' next) :
    (join d current clause).Maintains (fun _ => Sound grouped) post asked shown := by
  rw [join_eq]
  refine maintains_bind (scan_sound clause.table (fun asked' right hright => ?_))
  have hshow : ∀ asked' scope, (showStep (.join (joinStep d current clause right)) >>= fun _ =>
      pure ⟨(joinStep d current clause right).result, scope⟩ : Dialogue Running).Maintains
        (fun _ => Sound grouped) post asked' shown := by
    intro asked' scope
    refine maintains_bind (showStep_sound h (.inl ⟨_, rfl, rfl, rfl, rfl⟩)
      (joinStep_indexed d clause h.plain hright) ⟨rfl, rfl⟩ (fun hnext => ?_))
    exact maintains_pure (hpost _ _ _ hnext)
  split
  · exact maintains_bind (maintains_noteEvent (hshow _ _))
  · exact hshow _ _

/-- Joins one after another hand on the last table. -/
theorem joinAll_sound {post : List (String × Reply) → List Step → Running → Prop} (d : Descriptor)
    (clauses : List Sql.JoinClause)
    (hpost : ∀ asked' shown' next, Handed grouped shown' next.table → post asked' shown' next) :
    ∀ {asked : List (String × Reply)} {shown : List Step} (current : Running),
      Handed grouped shown current.table →
      (joinAll d current clauses).Maintains (fun _ => Sound grouped) post asked shown := by
  induction clauses with
  | nil =>
      intro asked shown current h
      exact maintains_pure (hpost _ _ _ h)
  | cons clause rest ih =>
      intro asked shown current h
      exact maintains_bind (join_sound d current clause h fun _ _ next hnext => ih next hnext)

/-- The rows that are kept and those that are dropped are complements of each other. -/
theorem filter_sound {post : List (String × Reply) → List Step → Snapshot → Prop} (d : Descriptor)
    (input : Snapshot) (condition : String) (h : Handed grouped shown input)
    (hpost : ∀ asked' shown' result, Handed grouped shown' result → post asked' shown' result) :
    (filter d input condition).Maintains (fun _ => Sound grouped) post asked shown := by
  refine maintains_bind (maintains_fetch fun reply => ?_)
  have hdivides := reconcileByIdentity_divides input
    (reply.rows.map fun row => row.map Json.int64?) "filtered"
  refine maintains_bind (showStep_sound h (.inl ⟨_, rfl, rfl, rfl, rfl⟩)
    ⟨conditionStep_indexed "rows" condition h.plain hdivides, reconcileByIdentity_size ..⟩
    ⟨rfl, rfl⟩ (fun hnext => ?_))
  exact maintains_pure (hpost _ _ _ hnext)

/-- Values are computed for each row. -/
theorem evaluate_sound {post : List (String × Reply) → List Step → List (List Json) → Prop}
    (d : Descriptor) (table : Snapshot) (expressions : List String)
    (hpost : ∀ asked' values, values.length = table.size → post asked' shown values) :
    (evaluate d table expressions).Maintains (fun _ => Sound grouped) post asked shown := by
  refine maintains_bind (maintains_fetch fun reply => maintains_pure (hpost _ _ ?_))
  rw [List.length_map, List.length_range]

/-- There is one tuple for each row of the table. -/
theorem keyTuples_sound {post : List (String × Reply) → List Step → List (List Json) → Prop}
    (d : Descriptor) (current : Running) (keys : List GroupKey)
    (hpost : ∀ asked' tuples, tuples.length = current.table.size → post asked' shown tuples) :
    (keyTuples d current keys).Maintains (fun _ => Sound grouped) post asked shown := by
  unfold keyTuples
  split
  · exact maintains_pure (hpost _ _ (List.length_map ..))
  · exact evaluate_sound d current.table _ hpost

/-- What is answered is a plain table, whatever its rows. -/
theorem fetchCut_sound {post : List (String × Reply) → List Step → Snapshot → Prop}
    (d : Descriptor) (k : ClauseKind) (name : String) (labels : List String)
    (hpost : ∀ asked' t, t.IsPlain → post asked' shown t) :
    (fetchCut d k name labels).Maintains (fun _ => Sound grouped) post asked shown := by
  refine maintains_bind (maintains_fetch fun reply => maintains_pure (hpost _ _ ?_))
  exact Snapshot.isPlain_labelled ⟨rfl, rfl⟩ labels

/-- A table of groups whose keys, if they were asked for, are one tuple per row. -/
structure Keyed.IsAligned (k : Keyed) : Prop where
  plain : k.table.IsPlain
  keys : ∀ tuples, k.keys? = some tuples → tuples.length = k.table.size

/-- With the keys taken off, the table and the tuples are as long as each other. -/
theorem fetchKeyed_sound {post : List (String × Reply) → List Step → Keyed → Prop}
    (d : Descriptor) (keys : List GroupKey) (k : ClauseKind) (name : String)
    (labels : List String) (hpost : ∀ asked' t, t.IsAligned → post asked' shown t) :
    (fetchKeyed d keys k name labels).Maintains (fun _ => Sound grouped) post asked shown := by
  unfold fetchKeyed
  split
  · refine maintains_bind (maintains_fetch fun reply => maintains_pure (hpost _ _ ⟨?_, ?_⟩))
    · exact Snapshot.isPlain_labelled ⟨rfl, rfl⟩ labels
    · intro tuples htuples
      obtain rfl := Option.some.inj htuples
      unfold splitKeys
      dsimp only
      rw [Snapshot.size_labelled, Snapshot.size_toSnapshot, Reply.size, List.length_map,
        List.length_map]
  · refine maintains_bind (fetchCut_sound d k name labels (fun asked' t ht => ?_))
    exact maintains_pure (hpost _ _ ⟨ht, nofun⟩)

/-- The groups divide the rows of the table that was handed on. -/
theorem group_sound {post : List (String × Reply) → List Step → Keyed → Prop} (d : Descriptor)
    (current : Running) (keys : List GroupKey) (labels : List String)
    (h : Handed grouped shown current.table)
    (hpost : ∀ asked' shown' k, Handed grouped shown' k.table → k.IsAligned → post asked' shown' k) :
    (group d current keys labels).Maintains (fun _ => Sound grouped) post asked shown := by
  refine maintains_bind (keyTuples_sound d current keys (fun asked' tuples htuples => ?_))
  refine maintains_bind (fetchKeyed_sound d keys .having "grouped" labels
    (fun asked'' result hresult => ?_))
  have hindexed := groupRows_perm tuples
  rw [htuples] at hindexed
  have hshow : ∀ (asked' : List (String × Reply)) (s : GroupStep), s.input = current.table →
      s.groups = groupRows tuples → s.result = result.table →
      (showStep (.groupBy s) >>= fun _ => pure result : Dialogue Keyed).Maintains
        (fun _ => Sound grouped) post asked' shown := by
    rintro asked' ⟨description, columns, aggregates, input, groups, shownResult⟩ rfl rfl rfl
    refine maintains_bind (showStep_sound h (.inl ⟨_, rfl, .refl _⟩)
      ⟨hindexed.1, hindexed.2⟩ hresult.plain (fun hnext => ?_))
    exact maintains_pure (hpost _ _ _ hnext hresult)
  dsimp only
  split
  · exact maintains_bind (maintains_noteEvent (hshow _ _ rfl rfl rfl))
  · exact hshow _ _ rfl rfl rfl

/-- Groups are matched by their keys or by their values: either divides them. -/
theorem reconcileGroups_divides {before : Keyed} (h : before.IsAligned) (after : Keyed) :
    Divides before.table.size (reconcileGroups before after).kept
      (reconcileGroups before after).filteredOut := by
  unfold reconcileGroups
  split
  · next old new hold hnew =>
      have hdivides := reconcileByValue_divides (keyTable old) (keyTable new) "having"
      have hsize : (keyTable old).size = before.table.size :=
        (List.length_map ..).trans (h.keys old hold)
      rw [hsize] at hdivides
      exact hdivides
  · exact reconcileByValue_divides ..

/-- What is left of the groups is a plain table. -/
theorem reconcileGroups_plain (before after : Keyed) (h : after.table.IsPlain) :
    (reconcileGroups before after).result.IsPlain := by
  unfold reconcileGroups
  split
  · exact ⟨h.highlighted, h.dimmed⟩
  · exact ⟨h.highlighted, h.dimmed⟩

/-- HAVING hands on what is left of the groups; without GROUP BY it starts from a table
    that it asks for. -/
theorem having_sound {post : List (String × Reply) → List Step → Snapshot → Prop} (d : Descriptor)
    (before : Keyed) (keys : List GroupKey) (labels : List String) (condition : String)
    (hgrouped : grouped = !d.groupKeys.isEmpty) (h : Handed grouped shown before.table)
    (haligned : before.IsAligned)
    (hpost : ∀ asked' shown' result, Handed grouped shown' result → post asked' shown' result) :
    (having d before keys labels condition).Maintains (fun _ => Sound grouped) post asked shown := by
  -- the groups behind the condition, whichever table stands before it
  have hafter : ∀ (start : Keyed) (asked' : List (String × Reply)), start.IsAligned →
      (start.table = before.table ∨ grouped = false) → (do
      let after ←
        if start.keys?.isSome then fetchKeyed d keys .orderBy "having" labels
        else pure ⟨← fetchCut d .orderBy "having" labels, none⟩
      let r := reconcileGroups start after
      showStep (.having (conditionStep "groups" condition start.table r))
      return r.result : Dialogue Snapshot).Maintains (fun _ => Sound grouped) post asked' shown := by
    intro start asked' hstart htable
    have hshow : ∀ (asked'' : List (String × Reply)) (after : Keyed), after.table.IsPlain →
        (showStep (.having (conditionStep "groups" condition start.table
            (reconcileGroups start after))) >>= fun _ =>
          pure (reconcileGroups start after).result : Dialogue Snapshot).Maintains
          (fun _ => Sound grouped) post asked'' shown := by
      intro asked'' after hplain
      refine maintains_bind (showStep_sound h ?_
        (conditionStep_indexed "groups" condition hstart.plain (reconcileGroups_divides hstart after))
        (reconcileGroups_plain start after hplain) (fun hnext => ?_))
      · rcases htable with heq | hexempt
        · rw [← heq]
          exact .inl ⟨_, rfl, rfl, rfl, rfl⟩
        · exact .inr ⟨hexempt, rfl⟩
      · exact maintains_pure (hpost _ _ _ hnext)
    dsimp only
    split
    · exact maintains_bind (fetchKeyed_sound d keys _ _ _ fun _ after ha => hshow _ after ha.plain)
    · exact maintains_bind (fetchCut_sound d _ _ _ fun _ t ht =>
        maintains_bind (maintains_pure (hshow _ ⟨t, none⟩ ht)))
  unfold having
  by_cases hkeys : d.groupKeys.isEmpty = true
  · rw [if_pos hkeys]
    refine maintains_bind (fetchCut_sound d _ _ _ fun asked' t ht => maintains_bind
      (maintains_pure (hafter ⟨t, none⟩ asked' ⟨ht, nofun⟩ (.inr ?_))))
    rw [hgrouped, hkeys]
    rfl
  · rw [if_neg hkeys]
    exact maintains_bind (maintains_pure (hafter before asked haligned (.inl rfl)))

/-- The projection reads the table that was handed on, and hands on its own. -/
theorem project_sound {post : List (String × Reply) → List Step → Snapshot × List String → Prop}
    (d : Descriptor) (current : Running) (labels : List String)
    (h : Handed grouped shown current.table)
    (hpost : ∀ asked' shown' result names, Handed grouped shown' result →
      post asked' shown' (result, names)) :
    (project d current labels).Maintains (fun _ => Sound grouped) post asked shown := by
  have hshow : ∀ (asked' : List (String × Reply)) (s : ProjectStep) (names : List String),
      s.input = current.table → s.result.IsPlain →
      (showStep (.project s) >>= fun _ => pure (s.result, names)
        : Dialogue (Snapshot × List String)).Maintains (fun _ => Sound grouped) post asked' shown := by
    rintro asked' ⟨description, columns, input, result⟩ names rfl hplain
    refine maintains_bind (showStep_sound h (.inl ⟨_, rfl, .refl _⟩) trivial hplain
      (fun hnext => ?_))
    exact maintains_pure (hpost _ _ _ _ hnext)
  unfold project
  split
  · unfold projectGroups
    split
    · refine maintains_bind (maintains_pure (hshow asked _ _ rfl ?_))
      have hlabelled := Snapshot.isPlain_labelled h.plain labels
      exact ⟨hlabelled.highlighted, hlabelled.dimmed⟩
    · refine maintains_bind (fetchCut_sound d _ _ _ (fun asked' t ht => ?_))
      exact hshow asked' _ _ rfl ⟨ht.highlighted, ht.dimmed⟩
  -- rows are computed anew, so nothing in them is highlighted
  · have hrows : ∀ t : Snapshot, t.IsPlain → (if d.distinct then t.distinct else t).IsPlain := by
      intro t ht
      split
      · exact t.isPlain_distinct
      · exact ht
    unfold projectRows
    dsimp only
    split
    · exact maintains_bind (maintains_pure (hshow asked _ _ rfl (hrows _ ⟨rfl, rfl⟩)))
    · refine maintains_bind (evaluate_sound d _ _ (fun asked' values _ => ?_))
      exact hshow asked' _ _ rfl (hrows _ ⟨rfl, rfl⟩)

/-- Ordering hands on a table of its own. -/
theorem order_sound {post : List (String × Reply) → List Step → Snapshot → Prop} (d : Descriptor)
    (input : Snapshot) (labels : List String) (h : Handed grouped shown input)
    (hpost : ∀ asked' shown' result, Handed grouped shown' result → post asked' shown' result) :
    (order d input labels).Maintains (fun _ => Sound grouped) post asked shown := by
  refine maintains_bind (fetchCut_sound d _ _ _ (fun asked' t ht => ?_))
  refine maintains_bind (showStep_sound h (.inl ⟨_, rfl, .refl _⟩) trivial ht (fun hnext => ?_))
  exact maintains_pure (hpost _ _ _ hnext)

/-- So does a limit. -/
theorem limit_sound {post : List (String × Reply) → List Step → Snapshot → Prop} (d : Descriptor)
    (input : Snapshot) (labels : List String) (h : Handed grouped shown input)
    (hpost : ∀ asked' shown' result, Handed grouped shown' result → post asked' shown' result) :
    (limit d input labels).Maintains (fun _ => Sound grouped) post asked shown := by
  refine maintains_bind (maintains_fetch fun reply => ?_)
  refine maintains_bind (showStep_sound h (.inl ⟨_, rfl, .refl _⟩) trivial
    (Snapshot.isPlain_labelled ⟨rfl, rfl⟩ labels) (fun hnext => ?_))
  exact maintains_pure (hpost _ _ _ hnext)

end Stage

namespace Replay

/-- From the joined table to the projection each step begins with the table before it. -/
theorem shape_sound {post : List (String × Reply) → List Step → Snapshot × List String → Prop}
    (d : Descriptor) (current : Running) (hgrouped : grouped = !d.groupKeys.isEmpty)
    (h : Handed grouped shown current.table)
    (hpost : ∀ asked' shown' result names, Handed grouped shown' result →
      post asked' shown' (result, names)) :
    (shape d current).Maintains (fun _ => Sound grouped) post asked shown := by
  have hkept : ∀ (asked' : List (String × Reply)) (shown' : List Step) (groups : Stage.Keyed),
      Handed grouped shown' groups.table → groups.IsAligned →
      (shapeGroups d current groups).Maintains (fun _ => Sound grouped) post asked' shown' := by
    intro asked' shown' groups hgroups haligned
    unfold shapeGroups
    cases d.having? with
    | some condition =>
        exact maintains_bind (Stage.having_sound d groups _ _ condition hgrouped hgroups haligned
          fun _ _ kept hkept => Stage.project_sound d ⟨kept, _⟩ _ hkept hpost)
    | none => exact maintains_bind (maintains_pure (Stage.project_sound d _ _ hgroups hpost))
  unfold shape
  by_cases hkeys : d.groupKeys.isEmpty = true
  · rw [if_pos hkeys]
    exact maintains_bind (maintains_pure (hkept _ _ _ h ⟨h.plain, by simp⟩))
  · rw [if_neg hkeys]
    exact maintains_bind (Stage.group_sound d current _ _ h hkept)

/-- Behind the projection the order, the limit or the whole statement follow. -/
theorem conclude_sound (d : Descriptor) (projected : Snapshot) (names : List String)
    (h : Handed grouped shown projected) :
    (conclude d projected names).Maintains (fun _ => Sound grouped) (fun _ _ _ => True)
      asked shown := by
  -- only LIMIT and OFFSET show a step behind the order
  have hend : ∀ (asked' : List (String × Reply)) (shown' : List Step) (ordered : Snapshot),
      Handed grouped shown' ordered → (do
      if d.limit?.isSome || d.offset?.isSome then
        return (← Stage.limit d ordered names).renamed resultTable
      else if !d.sortKeys.isEmpty then
        return ordered.renamed resultTable
      else
        return ((← Dialogue.fetch d.sql).toSnapshot resultTable).labelled names
      : Dialogue Snapshot).Maintains (fun _ => Sound grouped) (fun _ _ _ => True) asked' shown' := by
    intro asked' shown' ordered hordered
    split
    · exact maintains_bind (Stage.limit_sound d ordered names hordered fun _ _ _ _ =>
        maintains_pure trivial)
    · split
      · exact maintains_pure trivial
      · exact maintains_bind (maintains_fetch fun _ => maintains_pure trivial)
  unfold conclude
  by_cases hsort : d.sortKeys.isEmpty = true
  · rw [if_pos hsort]
    exact maintains_bind (maintains_pure (hend _ _ _ h))
  · rw [if_neg hsort]
    exact maintains_bind (Stage.order_sound d projected names h hend)

/-- A SELECT that the grammar read: scan, joins, filter and all that follows. -/
theorem readSelect_sound (d : Descriptor) (base : String) (hgrouped : grouped = !d.groupKeys.isEmpty) :
    (readSelect d base).Maintains (fun _ => Sound grouped) (fun _ _ _ => True) asked [] := by
  -- the stages behind the filter start from the table that it hands on
  have hrest : ∀ (asked' : List (String × Reply)) (shown' : List Step) (filtered : Snapshot)
      (scope : Scope), Handed grouped shown' filtered →
      (shape d ⟨filtered, scope⟩ >>= fun p => conclude d p.1 p.2).Maintains
        (fun _ => Sound grouped) (fun _ _ _ => True) asked' shown' := by
    intro asked' shown' filtered scope h
    exact maintains_bind (shape_sound d ⟨filtered, scope⟩ hgrouped h
      fun _ _ result names hresult => conclude_sound d result names hresult)
  refine maintains_bind (Stage.scan_sound base (fun asked' scanned hplain => ?_))
  have hscan : Handed grouped [Stage.scanStep base scanned] scanned := handed_scan grouped hplain
  refine maintains_bind (maintains_showStep hscan.sound ?_)
  refine maintains_bind (Stage.joinAll_sound d d.joins (fun asked'' shown'' joined hjoined => ?_)
    ⟨scanned, .unprefixed⟩ hscan)
  cases d.filter? with
  | some condition =>
      exact maintains_bind (Stage.filter_sound d joined.table condition hjoined
        fun _ _ filtered hfiltered => hrest _ _ filtered _ hfiltered)
  | none => exact maintains_bind (maintains_pure (hrest _ _ _ _ hjoined))

/-- A SELECT that it did not read shows a scan at most. -/
theorem unreadSelect_sound (d : Descriptor) :
    (unreadSelect d).Maintains (fun _ => Sound grouped) (fun _ _ _ => True) asked [] := by
  unfold unreadSelect
  cases d.fromTable? with
  | some base =>
      refine maintains_bind (Stage.scan_sound base (fun asked' scanned hplain => ?_))
      have hscan : Handed grouped [Stage.scanStep base scanned] scanned := handed_scan grouped hplain
      refine maintains_bind (maintains_showStep hscan.sound ?_)
      exact maintains_bind (maintains_fetch fun _ => maintains_pure trivial)
  | none => exact maintains_bind (maintains_fetch fun _ => maintains_pure trivial)

/-- A statement that changes a table shows no step at all. -/
theorem modification_sound (sql : String) (kind : Sql.StatementKind) :
    (modification sql kind).Maintains (fun _ => Sound grouped) (fun _ _ _ => True) asked [] := by
  refine maintains_bind (maintains_fetch fun reply => ?_)
  split
  · exact maintains_bind (Stage.scan_sound _ fun _ _ _ => maintains_pure trivial)
  · exact maintains_pure trivial

/-- A statement maintains what a SELECT, read or not, and one that writes do. -/
theorem statement_maintains {sql : String} {inv : List (String × Reply) → List Step → Prop}
    {post : List (String × Reply) → List Step → Snapshot → Prop}
    (hread : ∀ s, Sql.parse sql = .ok s →
      (readSelect (.extract sql) s.base.name).Maintains inv post [] [])
    (hunread : ∀ e, Sql.parse sql = .error e →
      (unreadSelect (.extract sql)).Maintains inv post [] [])
    (hmodify : ∀ kind, (modification sql kind).Maintains inv post [] []) :
    (statement sql).Maintains inv post [] [] := by
  unfold statement
  split
  · exact maintains_refuse _
  · split
    · exact maintains_bind (maintains_require fun _ _ => maintains_refuse _)
    · refine maintains_bind (maintains_require fun _ _ => maintains_bind (maintains_noteEvent ?_))
      split
      · next s hs => exact hread s hs
      · next e he => exact hunread e he
    · exact hmodify _

/-- Whatever the engine answers, a statement shows steps that fit together. -/
theorem statement_sound (sql : String) (hgrouped : grouped = !(Descriptor.extract sql).groupKeys.isEmpty) :
    (statement sql).Maintains (fun _ => Sound grouped) (fun _ _ _ => True) [] [] :=
  statement_maintains (fun _ _ => readSelect_sound _ _ hgrouped) (fun _ _ => unreadSelect_sound _)
    (modification_sound sql)

end Replay

end Stages

/-- In every result of a replay, whatever the engine answers, each step starts from the
    table that the step before it left, and the row indices that it shows are right for
    its tables. -/
theorem replay_steps_fit {σ : Type} (engine : Engine σ) (sql : String) (s : σ) :
    (replay engine sql s).outcome.steps.IsChain
        (Step.StartsFrom !(Descriptor.extract (Sql.normalize sql)).groupKeys.isEmpty)
      ∧ ∀ step ∈ (replay engine sql s).outcome.steps, step.Indexed := by
  have hbegin : Sound (!(Descriptor.extract (Sql.normalize sql)).groupKeys.isEmpty) [] :=
    ⟨List.isChain_nil, nofun⟩
  have hmaintains := Replay.statement_sound (Sql.normalize sql) rfl
  obtain ⟨exchanges, -, -, hsound⟩ := Dialogue.maintains_run engine (fun _ _ _ h => h)
    (Replay.statement (Sql.normalize sql)) (s := s) hmaintains hbegin
  rw [List.nil_append, ← replay_steps] at hsound
  exact ⟨hsound.chain, hsound.indexed⟩

end QueryReplay
