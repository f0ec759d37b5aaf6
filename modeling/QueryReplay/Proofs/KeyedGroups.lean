import QueryReplay.Proofs.Chaining
import QueryReplay.Proofs.Reconciliation
import QueryReplay.Proofs.Splicing

/-! # HAVING — groups are told apart by their keys

    Two groups may look alike in the columns that the statement selects, so the
    engine is asked for the groups before and behind HAVING with their keys as
    last columns.  The route:

    * the keys split off an answer are the cells of the table that is made of
      them (`keyTable_cellRows`), and what is left of it are the cells of the
      table that is shown (`splitKeys_cellRows`);
    * where no two key tuples are equal, a group finds a match exactly when some
      row behind HAVING has its key (`conditionStep_keepsByKey`);
    * in every run, the step of HAVING is the one made of two answers that follow
      each other (`Answered`, `Replay.statement_answered`). -/

namespace QueryReplay

open Sql (Descriptor ClauseKind GroupKey)

/-! ## Answers with keys -/

namespace Reply

/-- Each row has a cell for each column. -/
def IsRectangular (r : Reply) : Prop := ∀ row ∈ r.rows, row.length = r.columns.length

instance (r : Reply) : Decidable r.IsRectangular :=
  inferInstanceAs (Decidable (∀ row ∈ r.rows, row.length = r.columns.length))

/-- An answer without its last columns. -/
def withoutLast (r : Reply) (count : Nat) : Reply :=
  ⟨r.columns.take (r.columns.length - count), r.rows.map (·.take (r.columns.length - count))⟩

/-- The cells of the rows in the last columns. -/
def lastCells (r : Reply) (count : Nat) : List (List Json) :=
  r.rows.map (·.drop (r.columns.length - count))

variable {r : Reply} {count : Nat}

theorem IsRectangular.withoutLast (h : r.IsRectangular) : (r.withoutLast count).IsRectangular := by
  intro row hrow
  obtain ⟨whole, hwhole, rfl⟩ := List.mem_map.mp hrow
  rw [Reply.withoutLast, List.length_take, List.length_take, h whole hwhole]

theorem IsRectangular.length_lastCells (h : r.IsRectangular) (hwide : count ≤ r.columns.length) :
    ∀ cells ∈ r.lastCells count, cells.length = count := by
  intro cells hcells
  obtain ⟨row, hrow, rfl⟩ := List.mem_map.mp hcells
  rw [List.length_drop, h row hrow]
  omega

end Reply

/-- A table of cells that fit its columns has them. -/
theorem Snapshot.cellRows_ofCells_self (name : String) {columns : List String}
    {cells : List (List Json)} (h : ∀ row ∈ cells, row.length = columns.length) :
    (Snapshot.ofCells name columns cells).cellRows = cells := by
  rw [Snapshot.cellRows_ofCells]
  refine (List.map_congr_left fun row hrow => ?_).trans (List.map_id _)
  rw [← h row hrow, fitted_self]
  rfl

namespace Stage

/-- What is shown of an answer with keys are its other columns. -/
theorem splitKeys_cellRows {r : Reply} (h : r.IsRectangular) (count : Nat) (name : String)
    (labels : List String) :
    (splitKeys count name labels r).table.cellRows = (r.withoutLast count).rows :=
  (Snapshot.cellRows_labelled _ labels).trans (Snapshot.cellRows_ofCells_self name h.withoutLast)

/-- Key tuples of one width are the rows of the table that is made of them. -/
theorem keyTable_cellRows {tuples : List (List Json)} {count : Nat}
    (h : ∀ values ∈ tuples, values.length = count) : (keyTable tuples).cellRows = tuples := by
  refine Snapshot.cellRows_ofCells_self "keys" fun row hrow => ?_
  rw [List.length_map, List.length_range, h row hrow]
  cases tuples with
  | nil => cases hrow
  | cons first rest => exact (h first List.mem_cons_self).symm

end Stage

/-! ## Which groups are kept -/

/-- Answers with keys before and behind a condition: they have the keys as last
    columns, and no two groups before it have equal ones. -/
structure KeyedApart (count : Nat) (first second : Reply) : Prop where
  firstRows : first.IsRectangular
  secondRows : second.IsRectangular
  firstWide : count ≤ first.columns.length
  secondWide : count ≤ second.columns.length
  apart : (first.lastCells count).Pairwise fun a b => cellsEqual a b = false
  /-- No object in a key names a member twice. -/
  namesOnce : ∀ key ∈ first.lastCells count, ∀ cell ∈ key, cell.namesOnce = true

/-- Groups kept by their keys: those whose key some row behind the condition has.  What
    is shown are the two answers without the keys. -/
structure FilterStep.KeepsByKey (h : FilterStep) (count : Nat) (labels : List String)
    (first second : Reply) : Prop where
  kept : ∀ i, i ∈ h.kept ↔ ∃ key ∈ (first.lastCells count)[i]?,
    ∃ key' ∈ second.lastCells count, cellsEqual key key' = true
  divides : Divides first.size h.kept h.filteredOut
  input : h.input.ReadsAs (((first.withoutLast count).toSnapshot "grouped").labelled labels)
  inputCells : h.input.cellRows = (first.withoutLast count).rows
  result : h.result.ReadsAs (((second.withoutLast count).toSnapshot "having").labelled labels)
  resultCells : h.result.cellRows = (second.withoutLast count).rows

/-- A row that no earlier one equals finds a match iff there is one. -/
theorem takeEquals_of_apart {rows available : List (List Json)}
    (hnames : ∀ row ∈ rows, ∀ cell ∈ row, cell.namesOnce = true)
    (hapart : rows.Pairwise fun a b => cellsEqual a b = false) (i : Nat) :
    (takeEquals available rows)[i]? = some true
      ↔ ∃ row ∈ rows[i]?, ∃ row' ∈ available, cellsEqual row row' = true := by
  cases hrow : rows[i]? with
  | none =>
      have hshort := List.getElem?_eq_none_iff.mp hrow
      rw [← takeEquals_length available rows] at hshort
      rw [List.getElem?_eq_none hshort]
      simp
  | some row =>
      have hbefore : (rows.take i).countP (cellsEqual · row) = 0 := by
        rw [List.countP_eq_zero]
        intro other hother
        obtain ⟨hlt, rfl⟩ := List.getElem?_eq_some_iff.mp hrow
        obtain ⟨j, hj, rfl⟩ := List.mem_take_iff_getElem.mp hother
        rw [List.pairwise_iff_getElem.mp hapart j i (by omega) hlt (by omega)]
        exact Bool.false_ne_true
      rw [takeEquals_getElem? hnames hrow, hbefore, Option.some.injEq, decide_eq_true_iff,
        List.countP_pos_iff]
      simp

theorem Snapshot.name_labelled (t : Snapshot) (labels : List String) :
    (t.labelled labels).name = t.name := by
  unfold labelled relabel?
  split
  · rfl
  · rfl

/-- The step made of two answers with keys tells groups apart by them. -/
theorem Stage.conditionStep_keepsByKey {count : Nat} {first second : Reply}
    (h : KeyedApart count first second) (labels : List String) (condition : String) :
    (conditionStep "groups" condition (splitKeys count "grouped" labels first).table
      (reconcileGroups (splitKeys count "grouped" labels first)
        (splitKeys count "having" labels second))).KeepsByKey count labels first second where
  kept := by
    intro i
    show i ∈ indicesOf true (takeEquals (keyTable (second.lastCells count)).cellRows
      (keyTable (first.lastCells count)).cellRows) ↔ _
    rw [keyTable_cellRows (h.firstRows.length_lastCells h.firstWide),
      keyTable_cellRows (h.secondRows.length_lastCells h.secondWide), mem_indicesOf]
    exact takeEquals_of_apart h.namesOnce h.apart i
  divides := by
    have hdivides := reconcileByValue_divides (keyTable (first.lastCells count))
      (keyTable (second.lastCells count)) "having"
    have hsize : (keyTable (first.lastCells count)).size = first.size :=
      (List.length_map ..).trans (List.length_map ..)
    exact hsize ▸ hdivides
  input := ⟨rfl, rfl, rfl⟩
  inputCells := splitKeys_cellRows h.firstRows count "grouped" labels
  result := ⟨(Snapshot.name_labelled ((second.withoutLast count).toSnapshot "having") labels).symm, rfl, rfl⟩
  resultCells := splitKeys_cellRows h.secondRows count "having" labels

/-! ## The answers in a run -/

/-- The labels of the columns that a statement selects. -/
def Sql.Descriptor.labels (d : Descriptor) : List String := uniqueNames (d.columns.map (·.outputName))

/-- A step of HAVING that is made of two answers, asked one after the other: the
    statement cut before HAVING and behind it, both with the group keys as last columns. -/
structure HavingAnswered (d : Descriptor) (exchanges : List (String × Reply)) (h : FilterStep)
    (first second : Reply) : Prop where
  asked : ∃ before keys sql sql', exchanges = before ++ [(sql, first), (sql', second)]
    ∧ (∃ scope columns, keys = resolvedKeys d scope columns)
    ∧ keyedQuery? d keys .having = some sql ∧ keyedQuery? d keys .orderBy = some sql'
  step : ∃ condition, h = Stage.conditionStep "groups" condition
    (Stage.splitKeys d.groupKeys.length "grouped" d.labels first).table
    (Stage.reconcileGroups (Stage.splitKeys d.groupKeys.length "grouped" d.labels first)
      (Stage.splitKeys d.groupKeys.length "having" d.labels second))

/-- Every step of HAVING so far is made of two of the answers. -/
def Answered (d : Descriptor) (asked : List (String × Reply)) (shown : List Step) : Prop :=
  ∀ h, Step.having h ∈ shown →
    ∃ exchanges first second, exchanges <+: asked ∧ HavingAnswered d exchanges h first second

namespace Answered

variable {d : Descriptor} {asked : List (String × Reply)} {shown : List Step}

/-- Before a step is shown, there is none of HAVING. -/
theorem nil : Answered d asked [] := by
  intro h hshown
  cases hshown

theorem grow (h : Answered d asked shown) (exchange : String × Reply) :
    Answered d (asked ++ [exchange]) shown := by
  intro step hstep
  obtain ⟨exchanges, first, second, hfront, hanswered⟩ := h step hstep
  exact ⟨exchanges, first, second, hfront.trans (List.prefix_append ..), hanswered⟩

theorem concat (h : Answered d asked shown) {step : Step}
    (hstep : ∀ s, step = .having s →
      ∃ exchanges first second, exchanges <+: asked ∧ HavingAnswered d exchanges s first second) :
    Answered d asked (shown ++ [step]) := by
  intro s hs
  rcases List.mem_append.mp hs with hs | hs
  · exact h s hs
  · exact hstep s (List.mem_singleton.mp hs).symm

/-- A step of another kind changes nothing. -/
theorem concat_other (h : Answered d asked shown) {step : Step} (hstep : step.kind ≠ "Having") :
    Answered d asked (shown ++ [step]) :=
  h.concat fun _ hs => absurd (congrArg Step.kind hs) hstep

/-- Steps of other kinds leave the answers to HAVING as they are. -/
theorem through {α : Type} {dialogue : Dialogue α} {kinds : List String}
    {post : List (String × Reply) → List Step → α → Prop} (hshows : dialogue.Shows kinds)
    (hkinds : "Having" ∉ kinds)
    (hpost : ∀ asked' shown' a, Answered d asked' shown' → post asked' shown' a)
    (h : Answered d asked shown) : dialogue.Maintains (Answered d) post asked shown := by
  refine hshows.maintains_keeping (fun _ exchange _ hinv => hinv.grow exchange) ?_ hpost h
  intro asked' shown' step hkind hinv
  exact hinv.concat_other fun hhaving => hkinds (hhaving ▸ hkind)

end Answered

section Stages

open Dialogue

variable {d : Descriptor} {asked : List (String × Reply)} {shown : List Step}

namespace Stage

/-- With its keys as items, the statement is asked once. -/
theorem fetchKeyed_answered {inv : List (String × Reply) → List Step → Prop}
    {post : List (String × Reply) → List Step → Keyed → Prop} {keys : List GroupKey}
    {k : ClauseKind} {name sql : String} {labels : List String}
    (hsql : keyedQuery? d keys k = some sql)
    (hpost : ∀ reply, post (asked ++ [(sql, reply)]) shown
      (splitKeys keys.length name labels reply)) :
    (fetchKeyed d keys k name labels).Maintains inv post asked shown := by
  unfold fetchKeyed
  rw [hsql]
  exact maintains_bind (maintains_fetch fun reply => maintains_pure (hpost reply))

/-- The groups are handed on as the answer with keys. -/
theorem group_answered {post : List (String × Reply) → List Step → Keyed → Prop}
    {current : Running} {keys : List GroupKey} {labels : List String} {sql : String}
    (hsql : keyedQuery? d keys .having = some sql) (h : Answered d asked shown)
    (hpost : ∀ before first shown', Answered d (before ++ [(sql, first)]) shown' →
      post (before ++ [(sql, first)]) shown' (splitKeys keys.length "grouped" labels first)) :
    (group d current keys labels).Maintains (Answered d) post asked shown := by
  refine maintains_bind (h.through (keyTuples_shows d current keys) List.not_mem_nil
    (fun asked' shown' tuples hkeys => ?_))
  refine maintains_bind (fetchKeyed_answered hsql fun first => ?_)
  have hshow : ∀ s : GroupStep, (showStep (.groupBy s) >>= fun _ =>
      pure (splitKeys keys.length "grouped" labels first) : Dialogue Keyed).Maintains
        (Answered d) post (asked' ++ [(sql, first)]) shown' := by
    intro s
    have hnext : Answered d (asked' ++ [(sql, first)]) (shown' ++ [.groupBy s]) :=
      (hkeys.grow (sql, first)).concat_other (show "GroupBy" ≠ "Having" by decide)
    exact maintains_bind (maintains_showStep hnext (maintains_pure (hpost _ _ _ hnext)))
  dsimp only
  split
  · exact maintains_bind (maintains_noteEvent (hshow _))
  · exact hshow _

/-- The step of HAVING is made of the answer that it is handed and of the next one. -/
theorem having_answered {post : List (String × Reply) → List Step → Snapshot → Prop}
    {before : List (String × Reply)} {scope : Scope} {columns : List String} {sql sql' : String}
    {first : Reply} {condition : String} (hgroups : d.groupKeys ≠ [])
    (hsql : keyedQuery? d (resolvedKeys d scope columns) .having = some sql)
    (hsql' : keyedQuery? d (resolvedKeys d scope columns) .orderBy = some sql')
    (h : Answered d (before ++ [(sql, first)]) shown)
    (hpost : ∀ asked' shown' kept, Answered d asked' shown' → post asked' shown' kept) :
    (having d (splitKeys (resolvedKeys d scope columns).length "grouped" d.labels first)
      (resolvedKeys d scope columns) d.labels condition).Maintains (Answered d) post
        (before ++ [(sql, first)]) shown := by
  have hlength : (resolvedKeys d scope columns).length = d.groupKeys.length := List.length_map ..
  have hkeys : (splitKeys (resolvedKeys d scope columns).length "grouped" d.labels
      first).keys?.isSome = true := rfl
  unfold having
  rw [if_neg (by rwa [List.isEmpty_iff])]
  refine maintains_bind (maintains_pure ?_)
  dsimp only
  rw [if_pos hkeys]
  refine maintains_bind (fetchKeyed_answered hsql' fun second => ?_)
  rw [hlength]
  -- the step shows both replies: the one that was grouped and the one just asked for
  have hnext : Answered d (before ++ [(sql, first)] ++ [(sql', second)]) (shown ++ [.having
      (conditionStep "groups" condition (splitKeys d.groupKeys.length "grouped" d.labels first).table
        (reconcileGroups (splitKeys d.groupKeys.length "grouped" d.labels first)
          (splitKeys d.groupKeys.length "having" d.labels second)))]) := by
    refine (h.grow _).concat fun s hs => ?_
    obtain rfl := Step.having.inj hs
    refine ⟨_, first, second, List.prefix_refl _, ⟨?_, condition, rfl⟩⟩
    exact ⟨before, _, sql, sql', List.append_assoc .., ⟨scope, columns, rfl⟩, hsql, hsql'⟩
  exact maintains_bind (maintains_showStep hnext (maintains_pure (hpost _ _ _ hnext)))

end Stage

namespace Replay

theorem shape_answered {post : List (String × Reply) → List Step → Snapshot × List String → Prop}
    (hgroups : d.groupKeys ≠ [])
    (hkeyed : ∀ keys, keys ≠ [] → ∀ k, ∃ sql, keyedQuery? d keys k = some sql)
    (current : Running) (h : Answered d asked shown)
    (hpost : ∀ asked' shown' a, Answered d asked' shown' → post asked' shown' a) :
    (shape d current).Maintains (Answered d) post asked shown := by
  have hkeys : resolvedKeys d current.scope current.table.columns ≠ [] := by
    intro hnil
    exact hgroups (List.map_eq_nil_iff.mp hnil)
  obtain ⟨sql, hsql⟩ := hkeyed _ hkeys .having
  obtain ⟨sql', hsql'⟩ := hkeyed _ hkeys .orderBy
  have hproject : ∀ asked' shown' kept, Answered d asked' shown' →
      (Stage.project d ⟨kept, current.scope⟩ d.labels).Maintains (Answered d) post asked' shown' :=
    fun asked' shown' kept hinv => hinv.through (Stage.project_shows d _ _) (by decide) hpost
  unfold shape
  rw [if_neg (by rwa [List.isEmpty_iff])]
  refine maintains_bind (Stage.group_answered hsql h fun before first shown' hinv => ?_)
  cases d.having? with
  | some condition =>
      exact maintains_bind (Stage.having_answered hgroups hsql hsql' hinv hproject)
  | none => exact maintains_bind (maintains_pure (hproject _ _ _ hinv))

theorem readSelect_answered (hgroups : d.groupKeys ≠ [])
    (hkeyed : ∀ keys, keys ≠ [] → ∀ k, ∃ sql, keyedQuery? d keys k = some sql) (base : String) :
    (readSelect d base).Maintains (Answered d) (fun _ _ _ => True) [] [] := by
  have hrest : ∀ asked' shown' (filtered : Snapshot) (scope : Scope), Answered d asked' shown' →
      (shape d ⟨filtered, scope⟩ >>= fun shaped => conclude d shaped.1 shaped.2).Maintains
        (Answered d) (fun _ _ _ => True) asked' shown' := by
    intro asked' shown' filtered scope hinv
    refine maintains_bind (shape_answered hgroups hkeyed ⟨filtered, scope⟩ hinv ?_)
    intro asked'' shown'' shaped hinv
    refine hinv.through (conclude_shows d shaped.1 shaped.2) ?_ fun _ _ _ _ => trivial
    cases !d.sortKeys.isEmpty <;> cases d.limit?.isSome || d.offset?.isSome <;> decide
  refine maintains_bind (Answered.nil.through (Stage.scan_shows base) List.not_mem_nil
    fun asked' shown' scanned hinv => ?_)
  have hscan : Answered d asked' (shown' ++ [Stage.scanStep base scanned]) :=
    hinv.concat_other (show "Scan" ≠ "Having" by decide)
  refine maintains_bind (maintains_showStep hscan ?_)
  refine maintains_bind (hscan.through (Stage.joinAll_shows d d.joins _) ?_
    (fun asked'' shown'' joined hinv => ?_))
  · intro hmem
    exact absurd (List.eq_of_mem_replicate hmem) (by decide)
  · cases d.filter? with
    | some condition =>
        exact maintains_bind (hinv.through (Stage.filter_shows d joined.table condition) (by decide)
          fun _ _ filtered hinv => hrest _ _ filtered _ hinv)
    | none => exact maintains_bind (maintains_pure (hrest _ _ _ _ hinv))

/-- With its keys as items, a statement without DISTINCT can be asked. -/
theorem keyedQuery?_of_parse {sql : String} {s : Sql.Select} (hread : Sql.parse sql = .ok s)
    (hdistinct : (Descriptor.extract sql).distinct = false) {keys : List GroupKey}
    (hkeys : keys ≠ []) (k : ClauseKind) :
    ∃ text, keyedQuery? (.extract sql) keys k = some text := by
  obtain ⟨l⟩ := Sql.layout_of_parse hread k
  unfold keyedQuery?
  rw [if_neg (by simp [hdistinct, hkeys])]
  exact ⟨_, l.withSelectAppended_eq hread _⟩

theorem statement_answered {sql : String} (hgroups : (Descriptor.extract sql).groupKeys ≠ [])
    (hdistinct : (Descriptor.extract sql).distinct = false) :
    (statement sql).Maintains (Answered (.extract sql)) (fun _ _ _ => True) [] [] := by
  refine statement_maintains (fun s hread => ?_) (fun e hread => ?_) fun kind => ?_
  · exact readSelect_answered hgroups
      (fun keys hkeys k => keyedQuery?_of_parse hread hdistinct hkeys k) s.base.name
  · -- no key was read of a text outside the grammar
    have hselect : (Descriptor.extract sql).select? = none := by
      rw [Descriptor.extract, Descriptor.select?, hread]
      rfl
    refine absurd ?_ hgroups
    rw [Descriptor.groupKeys, hselect]
    rfl
  · exact Answered.nil.through (modification_shows sql kind) List.not_mem_nil
      fun _ _ _ _ => trivial

end Replay

end Stages

/-- In every replay of a GROUP BY without DISTINCT, the step of HAVING is made of the
    engine's answers to the statement before and behind HAVING, with the group keys as
    last columns.  If these have a row of cells each, the keys among them, and no two
    groups before HAVING have equal keys, then a group is kept iff a row behind HAVING
    has its key, whatever the columns that are shown look like, and these are the two
    answers without the keys. -/
theorem replay_having_keeps {σ : Type} (engine : Engine σ) (sql : String) (s : σ)
    (hgroups : (Descriptor.extract (Sql.normalize sql)).groupKeys ≠ [])
    (hdistinct : (Descriptor.extract (Sql.normalize sql)).distinct = false) :
    ∀ h, Step.having h ∈ (replay engine sql s).outcome.steps →
      ∃ exchanges first second, exchanges.map Prod.fst <+: (replay engine sql s).calls
        ∧ engine.Answers exchanges s
        ∧ HavingAnswered (.extract (Sql.normalize sql)) exchanges h first second
        ∧ (KeyedApart (Descriptor.extract (Sql.normalize sql)).groupKeys.length first second →
          h.KeepsByKey (Descriptor.extract (Sql.normalize sql)).groupKeys.length
            (Descriptor.extract (Sql.normalize sql)).labels first second) := by
  intro h hshown
  obtain ⟨asked, hcalls, hanswers, hinv⟩ := Dialogue.maintains_run engine
    (fun _ exchange _ hinv => hinv.grow exchange) (Replay.statement (Sql.normalize sql)) (s := s)
    (Replay.statement_answered hgroups hdistinct) .nil
  rw [List.nil_append, List.nil_append, ← replay_steps] at hinv
  obtain ⟨exchanges, first, second, ⟨more, rfl⟩, hanswered⟩ := hinv h hshown
  refine ⟨exchanges, first, second, ?_, ?_, hanswered, fun hapart => ?_⟩
  · rw [replay_calls]
    rw [List.map_append] at hcalls
    exact (List.prefix_append ..).trans hcalls
  · exact (engine.answers_append.mp hanswers).1
  · obtain ⟨condition, rfl⟩ := hanswered.step
    exact Stage.conditionStep_keepsByKey hapart _ condition

/-- Answers with two groups that show the same value; behind HAVING is the key of the
    second. -/
def groupsAlike : Script :=
  [.ok ⟨["rowid", "d", "x"], [[.int 1, .string "a", .null], [.int 2, .string "b", .null]]⟩,
    .ok ⟨["n", "key"], [[.int 1, .string "a"], [.int 1, .string "b"]]⟩,
    .ok ⟨["n", "key"], [[.int 1, .string "b"]]⟩, .ok ⟨["n"], [[.int 1]]⟩]

/-- The second of two groups that look alike is kept. -/
theorem replay_having_keeps_second :
    "Having" ∈ (replay (Engine.scripted none) "SELECT COUNT(*) FROM t GROUP BY d HAVING d > 'a'"
        groupsAlike).outcome.steps.map Step.kind
      ∧ ∀ h, Step.having h ∈ (replay (Engine.scripted none)
          "SELECT COUNT(*) FROM t GROUP BY d HAVING d > 'a'" groupsAlike).outcome.steps →
        h.kept = [1] ∧ h.filteredOut = [0] ∧ h.KeepsByKey 1 ["COUNT(*)"]
          ⟨["n", "key"], [[.int 1, .string "a"], [.int 1, .string "b"]]⟩
          ⟨["n", "key"], [[.int 1, .string "b"]]⟩ := by
  have hextracted : (Descriptor.extract (Sql.normalize
        "SELECT COUNT(*) FROM t GROUP BY d HAVING d > 'a'")).groupKeys.length = 1
      ∧ (Descriptor.extract (Sql.normalize
        "SELECT COUNT(*) FROM t GROUP BY d HAVING d > 'a'")).labels = ["COUNT(*)"]
      ∧ (Descriptor.extract (Sql.normalize
        "SELECT COUNT(*) FROM t GROUP BY d HAVING d > 'a'")).distinct = false := by decide +kernel
  obtain ⟨hkeys, hlabels, hdistinct⟩ := hextracted
  have hran : "Having" ∈ (replay (Engine.scripted none)
        "SELECT COUNT(*) FROM t GROUP BY d HAVING d > 'a'" groupsAlike).outcome.steps.map Step.kind
      ∧ (replay (Engine.scripted none)
        "SELECT COUNT(*) FROM t GROUP BY d HAVING d > 'a'" groupsAlike).calls.length = 4
      ∧ (replay (Engine.scripted none) "SELECT COUNT(*) FROM t GROUP BY d HAVING d > 'a'"
        groupsAlike).outcome.steps.all (fun step => match step with
          | .having h => h.kept == [1] && h.filteredOut == [0] && h.input.columns == ["COUNT(*)"]
            && h.input.size == 2
          | _ => true) = true := by decide +kernel
  obtain ⟨hhaving, hasked, hshown⟩ := hran
  refine ⟨hhaving, fun h hmem => ?_⟩
  have hstep := List.all_eq_true.mp hshown _ hmem
  simp only [Bool.and_eq_true, beq_iff_eq] at hstep
  obtain ⟨⟨⟨hkept, hfiltered⟩, hcolumns⟩, hsize⟩ := hstep
  refine ⟨hkept, hfiltered, ?_⟩
  obtain ⟨_, first, second, hcalls, hanswers,
    ⟨⟨before, keys, q, q', rfl, -⟩, condition, rfl⟩, hkeeps⟩ :=
    replay_having_keeps _ _ _ (List.length_pos_iff.mp (by rw [hkeys]; decide)) hdistinct _ hmem
  rw [hkeys, hlabels] at hkeeps hcolumns hsize ⊢
  have hcount := hcalls.length_le
  rw [hasked, List.map_append, List.length_append, List.length_map] at hcount
  rcases before with _ | ⟨e, _ | ⟨e', _ | ⟨e'', before⟩⟩⟩
  -- the scan has other columns
  · obtain ⟨hfirst, -⟩ := hanswers
    obtain rfl := Except.ok.inj hfirst
    change (Stage.splitKeys 1 "grouped" ["COUNT(*)"] _).table.columns = _ at hcolumns
    exact absurd hcolumns (by decide)
  · obtain ⟨-, hfirst, hsecond, -⟩ := hanswers
    obtain rfl := Except.ok.inj hfirst
    obtain rfl := Except.ok.inj hsecond
    exact hkeeps ⟨by decide, by decide, by decide, by decide, by decide, by decide⟩
  -- the groups behind HAVING are fewer
  · obtain ⟨-, -, hfirst, -⟩ := hanswers
    obtain rfl := Except.ok.inj hfirst
    change (Stage.splitKeys 1 "grouped" ["COUNT(*)"] _).table.size = _ at hsize
    exact absurd hsize (by decide)
  · simp at hcount

end QueryReplay
