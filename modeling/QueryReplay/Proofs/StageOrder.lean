import QueryReplay.Proofs.Stops
import QueryReplay.Proofs.Pieces
import QueryReplay.Proofs.FinalResult
import QueryReplay.Replay

/-! # The order of the stages — which steps a replay shows

    A SELECT that the grammar read shows one step for each of its operators, in
    the order in which they apply.  The route:

    * each stage shows one step, whatever it asks before and behind it;
    * the stages in sequence show the kinds that the clauses call for
      (`readSelect_shows`), all of them if the replay has no error and a front of
      them otherwise;
    * nothing is objected to once the engine was asked, so a replay with an error
      that asked anything failed on its last question (`statement_objectsFirst`). -/

namespace QueryReplay

open Sql (Descriptor ClauseKind GroupKey)

/-! ## What a statement calls for -/

/-- A kind of step that is there under a condition. -/
def kindIf (present : Bool) (kind : String) : List String := if present then [kind] else []

/-- The kinds of steps that a statement calls for: a scan, a join for every
    further table, and one step for each other operator that it names. -/
def Sql.Select.stages (s : Sql.Select) : List String :=
  ["Scan"] ++ List.replicate (s.moreTables.length + s.joins.length) "Join"
    ++ kindIf s.filter.isSome "Filter" ++ kindIf s.groupBy.isSome "GroupBy"
    ++ kindIf s.having.isSome "Having" ++ ["Project"] ++ kindIf s.orderBy.isSome "OrderBy"
    ++ kindIf (s.limit.isSome || s.offset.isSome) "Limit"

namespace Stage

open Dialogue

theorem scan_shows (table : String) : (scan table).Shows [] :=
  shows_map (shows_fetch _) _

theorem join_shows (d : Descriptor) (current : Running) (clause : Sql.JoinClause) :
    (join d current clause).Shows ["Join"] := by
  refine shows_bind (scan_shows clause.table) (fun right => ?_)
  dsimp only
  split
  · exact shows_bind (shows_noteEvent _) fun _ => shows_last rfl
  · exact shows_last rfl

/-- The induction is on the joins. -/
theorem joinAll_shows (d : Descriptor) (clauses : List Sql.JoinClause) :
    ∀ current : Running, (joinAll d current clauses).Shows (List.replicate clauses.length "Join") := by
  induction clauses with
  | nil => intro current; exact shows_pure current
  | cons clause rest ih => intro current; exact shows_bind (join_shows d current clause) ih

theorem filter_shows (d : Descriptor) (input : Snapshot) (condition : String) :
    (filter d input condition).Shows ["Filter"] :=
  shows_bind (shows_fetch _) fun _ => shows_last rfl

theorem evaluate_shows (d : Descriptor) (table : Snapshot) (expressions : List String) :
    (evaluate d table expressions).Shows [] :=
  shows_map (shows_fetch _) _

theorem keyTuples_shows (d : Descriptor) (current : Running) (keys : List GroupKey) :
    (keyTuples d current keys).Shows [] := by
  unfold keyTuples
  split
  · exact shows_pure _
  · exact evaluate_shows d current.table _

theorem fetchCut_shows (d : Descriptor) (k : ClauseKind) (name : String) (labels : List String) :
    (fetchCut d k name labels).Shows [] :=
  shows_map (shows_fetch _) _

theorem fetchKeyed_shows (d : Descriptor) (keys : List GroupKey) (k : ClauseKind) (name : String)
    (labels : List String) : (fetchKeyed d keys k name labels).Shows [] := by
  unfold fetchKeyed
  split
  · exact shows_map (shows_fetch _) _
  · exact shows_map (fetchCut_shows d k name labels) _

theorem group_shows (d : Descriptor) (current : Running) (keys : List GroupKey)
    (labels : List String) : (group d current keys labels).Shows ["GroupBy"] := by
  refine shows_bind (keyTuples_shows d current keys) (fun tuples => ?_)
  refine shows_bind (fetchKeyed_shows d keys .having "grouped" labels) (fun result => ?_)
  dsimp only
  split
  · exact shows_bind (shows_noteEvent _) fun _ => shows_last rfl
  · exact shows_last rfl

theorem having_shows (d : Descriptor) (before : Keyed) (keys : List GroupKey)
    (labels : List String) (condition : String) :
    (having d before keys labels condition).Shows ["Having"] := by
  -- the groups after the condition, with the step, behind either table before it
  have hafter : ∀ before : Keyed, (do
      let after ←
        if before.keys?.isSome then fetchKeyed d keys .orderBy "having" labels
        else pure ⟨← fetchCut d .orderBy "having" labels, none⟩
      let r := reconcileGroups before after
      showStep (.having (conditionStep "groups" condition before.table r))
      return r.result : Dialogue Snapshot).Shows ["Having"] := by
    intro before
    dsimp only
    split
    · exact shows_bind (fetchKeyed_shows d keys _ _ _) fun _ => shows_last rfl
    · exact shows_bind (fetchCut_shows d _ _ _) fun _ => shows_last rfl
  unfold having
  split
  · exact shows_bind (fetchCut_shows d _ _ _) fun s => hafter ⟨s, none⟩
  · exact hafter before

theorem project_shows (d : Descriptor) (current : Running) (labels : List String) :
    (project d current labels).Shows ["Project"] := by
  unfold project
  split
  · unfold projectGroups
    split
    · exact shows_last rfl
    · exact shows_bind (fetchCut_shows d _ _ _) fun _ => shows_last rfl
  · unfold projectRows
    dsimp only
    split
    · exact shows_last rfl
    · exact shows_bind (evaluate_shows d _ _) fun _ => shows_last rfl

theorem order_shows (d : Descriptor) (input : Snapshot) (labels : List String) :
    (order d input labels).Shows ["OrderBy"] :=
  shows_bind (fetchCut_shows d _ _ _) fun _ => shows_last rfl

theorem limit_shows (d : Descriptor) (input : Snapshot) (labels : List String) :
    (limit d input labels).Shows ["Limit"] :=
  shows_bind (shows_fetch _) fun _ => shows_last rfl

end Stage

/-! ## The clauses that are there -/

namespace Sql

open StatementParser

/-- A clause that lists its parts has one. -/
theorem list_of_optClause {α : Type} {size : Nat} {words : List Keyword} {p : Parser α}
    {ts : List Token} {l : Located (List α)}
    (h : (optClause (clause size words (Parser.commaList p)) ts).1 = some l) : l.node ≠ [] := by
  unfold optClause ExprParser.optional at h
  cases hread : clause size words (Parser.commaList p) ts with
  | none =>
      rw [hread] at h
      exact nomatch h
  | some c =>
      rw [hread] at h
      obtain rfl := Option.some.inj h
      obtain ⟨rest, -, hbody⟩ := Option.bind_eq_some_iff.mp hread
      obtain ⟨b, hlist, hc⟩ := Option.bind_eq_some_iff.mp hbody
      obtain rfl := Option.some.inj hc
      unfold Parser.commaList at hlist
      split at hlist
      · obtain rfl := Option.some.inj hlist
        exact List.cons_ne_nil _ _
      · exact nomatch hlist

/-- GROUP BY and ORDER BY name a key when they are there. -/
theorem keys_of_parse {sql : String} {s : Select} (h : parse sql = .ok s) :
    s.groupKeys.isEmpty = !s.groupBy.isSome ∧ s.sortKeys.isEmpty = !s.orderBy.isSome := by
  obtain ⟨lead, tokens, rest, -, hselect, -⟩ := parse_iff.mp h
  unfold select at hselect
  obtain ⟨behind, -, hselect⟩ := Option.bind_eq_some_iff.mp hselect
  obtain ⟨items, -, hselect⟩ := Option.bind_eq_some_iff.mp hselect
  obtain ⟨sources, -, hselect⟩ := Option.bind_eq_some_iff.mp hselect
  obtain ⟨tables, -, hselect⟩ := Option.bind_eq_some_iff.mp hselect
  have hkeys : ∀ {α : Type} {l : Option (Located (List α))}, (∀ c, l = some c → c.node ≠ []) →
      (l.elim [] Located.node).isEmpty = !l.isSome := by
    intro α l hl
    cases l with
    | none => rfl
    | some c => exact List.isEmpty_eq_false_iff.mpr (hl c rfl)
  -- without a table nothing was read
  cases hvalue : tables.value with
  | nil =>
      rw [hvalue] at hselect
      exact nomatch hselect
  | cons base more =>
      rw [hvalue] at hselect
      obtain ⟨rfl, -⟩ := Prod.mk.inj (Option.some.inj hselect)
      exact ⟨hkeys fun _ => list_of_optClause, hkeys fun _ => list_of_optClause⟩

end Sql

/-! ## The stages in sequence -/

namespace Replay

open Dialogue

/-- GROUP BY and HAVING show their steps if they are there, the projection always. -/
theorem shape_shows (d : Descriptor) (current : Running) :
    (shape d current).Shows (kindIf (!d.groupKeys.isEmpty) "GroupBy"
      ++ (kindIf d.having?.isSome "Having" ++ ["Project"])) := by
  have hkept : ∀ groups : Stage.Keyed, (shapeGroups d current groups).Shows
      (kindIf d.having?.isSome "Having" ++ ["Project"]) := by
    intro groups
    unfold shapeGroups
    cases d.having? with
    | some condition =>
        exact shows_bind (Stage.having_shows d groups _ _ condition) fun _ =>
          Stage.project_shows d _ _
    | none => exact Stage.project_shows d _ _
  unfold shape
  by_cases hgroups : d.groupKeys.isEmpty = true
  · simp only [hgroups]
    exact hkept _
  · simp only [hgroups]
    exact shows_bind (Stage.group_shows d current _ _) hkept

/-- So do the order and the limit. -/
theorem conclude_shows (d : Descriptor) (projected : Snapshot) (names : List String) :
    (conclude d projected names).Shows (kindIf (!d.sortKeys.isEmpty) "OrderBy"
      ++ kindIf (d.limit?.isSome || d.offset?.isSome) "Limit") := by
  have hlimited : ∀ ordered : Snapshot,
      (do return (← Stage.limit d ordered names).renamed resultTable
        : Dialogue Snapshot).Shows ["Limit"] :=
    fun ordered => shows_map (Stage.limit_shows d ordered names) _
  unfold conclude
  by_cases hsort : d.sortKeys.isEmpty = true
  · cases hrange : d.limit?.isSome || d.offset?.isSome with
    | true =>
        simp only [hsort]
        exact hlimited projected
    | false =>
        simp only [hsort]
        exact shows_map (shows_fetch _) _
  · cases hrange : d.limit?.isSome || d.offset?.isSome with
    | true =>
        simp only [hsort]
        exact shows_bind (Stage.order_shows d projected names) hlimited
    | false =>
        simp only [hsort]
        exact shows_map (Stage.order_shows d projected names) _

/-- A SELECT that the grammar read shows the stages that it calls for. -/
theorem readSelect_shows {sql : String} {s : Sql.Select} (h : Sql.parse sql = .ok s)
    (base : String) : (readSelect (.extract sql) base).Shows s.stages := by
  obtain ⟨hgroups, hsort⟩ := Sql.keys_of_parse h
  have hselect := Sql.Descriptor.select?_extract h
  generalize Descriptor.extract sql = d at hselect
  have hjoins : d.joins.length = s.moreTables.length + s.joins.length := by
    rw [Descriptor.joins, hselect]
    show s.joinClauses.length = _
    rw [Sql.Select.joinClauses, List.length_append, List.length_map, List.length_map]
  have hkeys : (!d.groupKeys.isEmpty) = s.groupBy.isSome := by
    rw [Descriptor.groupKeys, hselect]
    show (!s.groupKeys.isEmpty) = _
    rw [hgroups, Bool.not_not]
  have hsorted : (!d.sortKeys.isEmpty) = s.orderBy.isSome := by
    rw [Descriptor.sortKeys, hselect]
    show (!s.sortKeys.isEmpty) = _
    rw [hsort, Bool.not_not]
  have hclauses : d.filter?.isSome = s.filter.isSome ∧ d.having?.isSome = s.having.isSome
      ∧ d.limit?.isSome = s.limit.isSome ∧ d.offset?.isSome = s.offset.isSome := by
    simp [Descriptor.filter?, Descriptor.having?, Descriptor.limit?, Descriptor.offset?, hselect]
  obtain ⟨hfilter, hhaving, hlimit, hoffset⟩ := hclauses
  -- the stages behind the filter, whatever table they start from
  have hrest : ∀ (filtered : Snapshot) (scope : Scope),
      (shape d ⟨filtered, scope⟩ >>= fun p => conclude d p.1 p.2).Shows
        (kindIf s.groupBy.isSome "GroupBy" ++ (kindIf s.having.isSome "Having" ++ ["Project"])
          ++ (kindIf s.orderBy.isSome "OrderBy"
            ++ kindIf (s.limit.isSome || s.offset.isSome) "Limit")) := by
    intro filtered scope
    rw [← hkeys, ← hhaving, ← hsorted, ← hlimit, ← hoffset]
    exact shows_bind (shape_shows d _) fun p => conclude_shows d p.1 p.2
  have hstages : s.stages = [] ++ (["Scan"]
      ++ (List.replicate d.joins.length "Join" ++ (kindIf s.filter.isSome "Filter"
        ++ (kindIf s.groupBy.isSome "GroupBy" ++ (kindIf s.having.isSome "Having" ++ ["Project"])
          ++ (kindIf s.orderBy.isSome "OrderBy"
            ++ kindIf (s.limit.isSome || s.offset.isSome) "Limit"))))) := by
    rw [Sql.Select.stages, hjoins]
    simp only [List.append_assoc, List.nil_append]
  rw [hstages, ← hfilter]
  refine shows_bind (Stage.scan_shows base) (fun scanned => ?_)
  refine shows_bind (shows_showStep rfl) (fun _ => ?_)
  refine shows_bind (Stage.joinAll_shows d d.joins _) (fun joined => ?_)
  cases d.filter? with
  | some condition => exact shows_bind (Stage.filter_shows d _ condition) fun _ => hrest _ _
  | none => exact hrest _ _

/-- A SELECT that the grammar did not read shows a scan at most. -/
theorem unreadSelect_shows (d : Descriptor) :
    (unreadSelect d).Shows (kindIf d.fromTable?.isSome "Scan") := by
  unfold unreadSelect
  cases d.fromTable? with
  | some base =>
      refine shows_bind (Stage.scan_shows base) (fun scanned => ?_)
      show Shows (["Scan"] ++ []) _
      refine shows_bind (shows_showStep rfl) (fun _ => ?_)
      exact shows_map (shows_fetch _) _
  | none => exact shows_map (shows_fetch _) _

theorem modification_shows (sql : String) (kind : Sql.StatementKind) :
    (modification sql kind).Shows [] := by
  refine shows_bind (shows_fetch sql) (fun reply => ?_)
  split
  · exact shows_map (Stage.scan_shows _) _
  · exact shows_pure _

/-- An admitted SELECT shows what its reading calls for. -/
theorem select_shows {sql : String} (h : Sql.validate sql = .ok ()) :
    (select sql).Shows (match Sql.parse sql with
      | .ok s => s.stages
      | .error _ => kindIf (Descriptor.extract sql).fromTable?.isSome "Scan") := by
  unfold select
  rw [h]
  show Shows ([] ++ _) (noteEvent _ >>= fun _ => match Sql.parse sql with
    | .ok s => readSelect (.extract sql) s.base.name
    | .error _ => unreadSelect (.extract sql))
  refine shows_bind (shows_noteEvent _) (fun _ => ?_)
  cases hread : Sql.parse sql with
  | ok s => exact readSelect_shows hread s.base.name
  | error e => exact unreadSelect_shows _

/-- Whatever the statement, nothing is objected to once the engine was asked. -/
theorem statement_objectsFirst (sql : String) : (statement sql).ObjectsFirst := by
  unfold statement
  split
  · exact objectsFirst_refuse _
  · split
    · exact objectsFirst_require fun _ _ => objectsFirst_refuse _
    · cases hvalid : Sql.validate sql with
      | ok u => exact (select_shows hvalid).unopposed.objectsFirst
      | error o => exact objectsFirst_require fun a ha => nomatch hvalid.symm.trans ha
    · exact (modification_shows sql _).unopposed.objectsFirst

/-- A blank statement is not valid. -/
theorem validate_blank {sql : String} (h : (Text.trim sql).isEmpty = true) :
    Sql.validate sql = .error .empty := by
  unfold Sql.validate
  rw [if_pos h]
  rfl

/-- A SELECT that `validate` passes is replayed as one. -/
theorem statement_valid {sql : String} (hselect : Sql.classify sql = .ok .select)
    (h : Sql.validate sql = .ok ()) : statement sql = select sql := by
  unfold statement
  split
  · next hblank => exact nomatch (validate_blank hblank).symm.trans h
  · rw [hselect]

/-- A statement that `classify` rejects is refused, whatever the objection. -/
theorem statement_unclassified {sql : String} {o : Sql.Objection}
    (h : Sql.classify sql = .error o) : ∃ o', statement sql = .refuse o' := by
  unfold statement
  split
  · exact ⟨_, rfl⟩
  · rw [h]
    dsimp only
    cases Sql.checkFirstWord sql with
    | ok u => exact ⟨o, rfl⟩
    | error o' => exact ⟨o', rfl⟩

/-- A SELECT that `validate` rejects is refused. -/
theorem statement_invalid {sql : String} {o : Sql.Objection}
    (hselect : Sql.classify sql = .ok .select) (h : Sql.validate sql = .error o) :
    ∃ o', statement sql = .refuse o' := by
  rcases statement_select hselect with hempty | hsel
  · exact ⟨_, hempty⟩
  · rw [hsel, select, h]
    exact ⟨o, rfl⟩

/-- A statement that is no SELECT shows no step. -/
theorem statement_shows_nothing {σ : Type} (engine : Engine σ) {sql : String}
    (h : Sql.classify sql ≠ .ok .select) (s : σ) : ((statement sql).run engine s).steps = [] := by
  cases hkind : Sql.classify sql with
  | error o =>
      obtain ⟨o', ho'⟩ := statement_unclassified hkind
      rw [ho']
      rfl
  | ok kind =>
      unfold statement
      split
      · rfl
      · rw [hkind]
        have hshows := shows_run engine (modification_shows sql kind) s
        have hsteps : ((modification sql kind).run engine s).steps = [] :=
          List.map_eq_nil_iff.mp (List.prefix_nil.mp hshows.1)
        cases kind with
        | select => exact absurd hkind h
        | insert => exact hsteps
        | update => exact hsteps
        | delete => exact hsteps

end Replay

/-! ## What a replay records -/

section Record

variable {σ : Type} (engine : Engine σ) (sql : String) (s : σ)

theorem replay_calls : (replay engine sql s).calls
    = ((Replay.statement (Sql.normalize sql)).run engine s).calls := by
  unfold replay
  generalize (Replay.statement (Sql.normalize sql)).run engine s = t
  obtain ⟨result, state, calls, events, steps⟩ := t
  cases result <;> rfl

theorem replay_steps : (replay engine sql s).outcome.steps
    = ((Replay.statement (Sql.normalize sql)).run engine s).steps := by
  unfold replay
  generalize (Replay.statement (Sql.normalize sql)).run engine s = t
  obtain ⟨result, state, calls, events, steps⟩ := t
  cases result <;> rfl

variable {engine sql s}

/-- A value of the dialogue is the final table. -/
theorem replay_of_ok {final : Snapshot}
    (h : ((Replay.statement (Sql.normalize sql)).run engine s).result = .ok final) :
    (replay engine sql s).outcome.error = none
      ∧ (replay engine sql s).outcome.finalResult = final := by
  unfold replay
  generalize (Replay.statement (Sql.normalize sql)).run engine s = t at h ⊢
  obtain ⟨result, state, calls, events, steps⟩ := t
  obtain rfl : result = .ok final := h
  exact ⟨rfl, rfl⟩

/-- A failure of the dialogue is the error, and the final table is empty. -/
theorem replay_of_error {failure : Failure}
    (h : ((Replay.statement (Sql.normalize sql)).run engine s).result = .error failure) :
    (replay engine sql s).outcome.error = some failure.message
      ∧ (replay engine sql s).outcome.finalResult = .empty resultTable := by
  unfold replay
  generalize (Replay.statement (Sql.normalize sql)).run engine s = t at h ⊢
  obtain ⟨result, state, calls, events, steps⟩ := t
  obtain rfl : result = .error failure := h
  exact ⟨rfl, rfl⟩

/-- When a replay has an error its dialogue did not end with a value, and the final
    table is empty. -/
theorem replay_failure (h : (replay engine sql s).outcome.error ≠ none) :
    ∃ failure, ((Replay.statement (Sql.normalize sql)).run engine s).result = .error failure
      ∧ (replay engine sql s).outcome.error = some failure.message
      ∧ (replay engine sql s).outcome.finalResult = .empty resultTable := by
  cases hresult : ((Replay.statement (Sql.normalize sql)).run engine s).result with
  | ok final => exact absurd (replay_of_ok hresult).1 h
  | error failure => exact ⟨failure, rfl, replay_of_error hresult⟩

end Record

/-- A replay shows the stages that its statement calls for: all of them without an
    error, a front of them with one, and then the final table is empty.  No
    statement is asked behind one that failed; a replay with an error failed on its
    last call or made none; and a statement that is not admitted shows no step and
    asks nothing, but for a modification, which no check stands before. -/
theorem replay_stages {σ : Type} (engine : Engine σ) (sql : String) (s : σ) :
    (∀ parsed, Sql.classify (Sql.normalize sql) = .ok .select →
        Sql.validate (Sql.normalize sql) = .ok () → Sql.parse (Sql.normalize sql) = .ok parsed →
        ((replay engine sql s).outcome.error = none →
          (replay engine sql s).outcome.steps.map Step.kind = parsed.stages)
        ∧ ((replay engine sql s).outcome.error ≠ none →
          (replay engine sql s).outcome.steps.map Step.kind <+: parsed.stages
          ∧ (replay engine sql s).outcome.finalResult = .empty resultTable))
    ∧ (∀ before asked after message, (replay engine sql s).calls = before ++ asked :: after →
        (engine.execute asked (engine.stateAfter before s)).1 = .error message → after = [])
    ∧ ((replay engine sql s).outcome.error ≠ none →
        (replay engine sql s).calls = []
        ∨ ∃ before last message, (replay engine sql s).calls = before ++ [last]
            ∧ (engine.execute last (engine.stateAfter before s)).1 = .error message)
    ∧ ((∃ o, Sql.classify (Sql.normalize sql) = .error o)
          ∨ (∃ o, Sql.validate (Sql.normalize sql) = .error o) →
        (replay engine sql s).outcome.steps = []
        ∧ ((replay engine sql s).calls = []
          ∨ ∃ kind, Sql.classify (Sql.normalize sql) = .ok kind ∧ kind ≠ .select)) := by
  rw [replay_calls, replay_steps]
  refine ⟨?stages, ?stops, ?lastFails, ?refused⟩
  -- the stages shown are a front of the stages of the statement, and all of them when it ends
  -- well
  case stages =>
    intro parsed hselect hvalid hparse
    have hstatement := Replay.statement_valid hselect hvalid
    have hshows := Replay.select_shows hvalid
    rw [hparse] at hshows
    obtain ⟨hfront, hall⟩ := Dialogue.shows_run engine hshows s
    rw [hstatement]
    constructor
    · intro hok
      obtain ⟨final, hresult, -⟩ := replay_success hok
      rw [hstatement] at hresult
      exact hall final hresult
    · intro herror
      obtain ⟨-, -, -, hfinal⟩ := replay_failure herror
      exact ⟨hfront, hfinal⟩
  -- nothing is asked behind a call that fails
  case stops =>
    intro before asked after message hcalls hfails
    exact Dialogue.run_stops engine _ hcalls hfails
  -- an objection is made before the first call, so an error behind calls is that of the last one
  case lastFails =>
    intro herror
    obtain ⟨failure, hresult, -⟩ := replay_failure herror
    cases failure with
    | objection o =>
        exact .inl (Dialogue.objectsFirst_run engine (Replay.statement_objectsFirst _) hresult).1
    | engine last hint =>
        obtain ⟨exchanges, -, ⟨-, hno⟩ | ⟨last, message, hcalls, hfails, -⟩⟩ :=
          Dialogue.run_exchanges engine (Replay.statement (Sql.normalize sql)) s
        · exact absurd hresult (hno _ _)
        · exact .inr ⟨_, last, message, hcalls, hfails⟩
  -- a statement that is refused shows nothing, and asks nothing if it is a query
  case refused =>
    intro hrejected
    by_cases hselect : Sql.classify (Sql.normalize sql) = .ok .select
    · rcases hrejected with ⟨o, ho⟩ | ⟨o, ho⟩
      · exact nomatch hselect.symm.trans ho
      · obtain ⟨o', hrefuse⟩ := Replay.statement_invalid hselect ho
        rw [hrefuse]
        exact ⟨rfl, .inl rfl⟩
    · refine ⟨Replay.statement_shows_nothing engine hselect s, ?_⟩
      cases hkind : Sql.classify (Sql.normalize sql) with
      | error o =>
          obtain ⟨o', hrefuse⟩ := Replay.statement_unclassified hkind
          rw [hrefuse]
          exact .inl rfl
      | ok kind => exact .inr ⟨kind, rfl, fun h => hselect (h ▸ hkind)⟩

/-- A scan that is answered and a filter that is not: the replay stops with the scan.
    With an answer to the filter and to the statement it goes through all stages, and
    a misspelled statement does not begin. -/
theorem replay_stages_scripted :
    (∃ parsed, Sql.parse (Sql.normalize "SELECT a FROM t WHERE a > 1 ;") = .ok parsed
      ∧ (replay (Engine.scripted none) "SELECT a FROM t WHERE a > 1 ;"
          [.ok ⟨["rowid", "a"], [[.int 1, .int 5]]⟩, .ok ⟨["id"], [[.int 1]]⟩,
            .ok ⟨["a"], [[.int 5]]⟩]).outcome.steps.map Step.kind = parsed.stages
      ∧ (replay (Engine.scripted none) "SELECT a FROM t WHERE a > 1 ;"
          [.ok ⟨["rowid", "a"], [[.int 1, .int 5]]⟩, .error "down"]).outcome.steps.map Step.kind
          <+: parsed.stages)
    ∧ (∃ before last message, (replay (Engine.scripted none) "SELECT a FROM t WHERE a > 1 ;"
          [.ok ⟨["rowid", "a"], [[.int 1, .int 5]]⟩, .error "down"]).calls = before ++ [last]
        ∧ ((Engine.scripted none).execute last ((Engine.scripted none).stateAfter before
          [.ok ⟨["rowid", "a"], [[.int 1, .int 5]]⟩, .error "down"])).1 = .error message)
    ∧ (∀ after, (replay (Engine.scripted none) "SELECT a FROM t" [.error "down"]).calls
        = "SELECT rowid AS __sqlstep_rowid, * FROM \"t\"" :: after → after = [])
    ∧ (replay (Engine.scripted none) "SELCT a FROM t" []).outcome.steps = [] := by
  have hselect : Sql.classify (Sql.normalize "SELECT a FROM t WHERE a > 1 ;") = .ok .select := by
    decide +kernel
  have hvalid : Sql.validate (Sql.normalize "SELECT a FROM t WHERE a > 1 ;") = .ok () := by
    decide +kernel
  have haccepted : (Sql.parse (Sql.normalize "SELECT a FROM t WHERE a > 1 ;")).isOk = true := by
    decide +kernel
  obtain ⟨parsed, hparsed⟩ := Sql.accepted_of_isOk haccepted
  refine ⟨⟨parsed, hparsed, ?_, ?_⟩, ?_, ?_, ?_⟩
  · exact ((replay_stages _ _ _).1 parsed hselect hvalid hparsed).1 (by decide +kernel)
  · exact (((replay_stages _ _ _).1 parsed hselect hvalid hparsed).2 (by decide +kernel)).1
  · rcases (replay_stages (Engine.scripted none) "SELECT a FROM t WHERE a > 1 ;"
        [.ok ⟨["rowid", "a"], [[.int 1, .int 5]]⟩, .error "down"]).2.2.1 (by decide +kernel) with h | h
    · exact absurd h (by decide +kernel)
    · exact h
  · intro after hcalls
    exact (replay_stages _ _ _).2.1 [] _ after "down" hcalls rfl
  · exact ((replay_stages _ _ _).2.2.2
      (.inl ⟨.unsupported "SELCT", by decide +kernel⟩)).1

/-- A modification goes to the engine unchecked: its parentheses do not balance, and
    it is asked all the same. -/
theorem replay_unbalanced_delete :
    Sql.validate (Sql.normalize "DELETE FROM t WHERE (a = 1")
        = .error (.unbalancedParentheses 1 0)
      ∧ (replay (Engine.scripted none) "DELETE FROM t WHERE (a = 1" []).calls
        = ["DELETE FROM t WHERE (a = 1"] := by
  decide +kernel

end QueryReplay
