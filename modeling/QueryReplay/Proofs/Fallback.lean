import QueryReplay.Proofs.StageOrder

/-! # Statements that the grammar does not read

    A SELECT that the grammar does not read is left to the engine, behind a look
    at the table that stands behind the first FROM of its words.  That word is a
    guess: where it names a table, the statement is asked next and its answer is
    the result; where it does not, the look fails and the statement is never
    asked (`replay_unread`). -/

namespace QueryReplay

open Sql (Descriptor)

namespace Dialogue

variable {α σ : Type} {engine : Engine σ} {sql : String} {s : σ} {f : Reply → Dialogue α}

/-- A question that is answered goes on with the answer, in the state behind it. -/
theorem run_fetch_ok {reply : Reply} (h : (engine.execute sql s).1 = .ok reply) :
    ((fetch sql >>= f).run engine s).result
        = ((f reply).run engine (engine.execute sql s).2).result
      ∧ ((fetch sql >>= f).run engine s).calls
        = sql :: ((f reply).run engine (engine.execute sql s).2).calls := by
  have hexec : engine.execute sql s = (.ok reply, (engine.execute sql s).2) := by rw [← h]
  show ((ask sql f).run engine s).result = _ ∧ ((ask sql f).run engine s).calls = _
  rw [run, hexec]
  exact ⟨rfl, rfl⟩

/-- A question that fails ends the dialogue with the hint for the engine's message. -/
theorem run_fetch_error {message : String} (h : (engine.execute sql s).1 = .error message) :
    ((fetch sql >>= f).run engine s).result
        = .error (.engine sql (hintFor message ((engine.tableNames (engine.execute sql s).2).getD [])))
      ∧ ((fetch sql >>= f).run engine s).calls = [sql] := by
  have hexec : engine.execute sql s = (.error message, (engine.execute sql s).2) := by rw [← h]
  show ((ask sql f).run engine s).result = _ ∧ ((ask sql f).run engine s).calls = _
  rw [run, hexec]
  exact ⟨rfl, rfl⟩

end Dialogue

namespace Replay

/-- The look at the table behind the first FROM of a text, if a table can stand there. -/
def looks (sql : String) : List String := (Sql.firstFromTable? sql).toList.map scanQuery

/-- A SELECT that the grammar does not read looks at a table and asks the statement. -/
theorem select_unread {σ : Type} (engine : Engine σ) {sql : String} {e : Sql.ParseError} (s : σ)
    (hselect : Sql.classify sql = .ok .select) (hvalid : Sql.validate sql = .ok ())
    (hread : Sql.parse sql = .error e) :
    ((statement sql).run engine s).result
        = ((unreadSelect (.extract sql)).run engine s).result
      ∧ ((statement sql).run engine s).calls
        = ((unreadSelect (.extract sql)).run engine s).calls := by
  have hunread : select sql = (do
      Dialogue.noteEvent (.clausesRead (Descriptor.extract sql).fingerprint
        (Descriptor.extract sql).isComplete (Descriptor.extract sql).joins.length)
      unreadSelect (.extract sql)) := by
    have hreading : (Descriptor.extract sql).reading = .error e := hread
    rw [select, hvalid]
    simp only [hreading]
    rfl
  rw [statement_valid hselect hvalid, hunread]
  exact ⟨rfl, rfl⟩

end Replay

/-- A SELECT that is admitted but not read.  If the look at the guessed table is
    answered, or there is none, the statement is asked next: its answer is the final
    table, or its failure, as a hint, is the error.  If the look fails, the statement
    is not asked, and the error is that of the look. -/
theorem replay_unread {σ : Type} (engine : Engine σ) (sql : String) (s : σ) {e : Sql.ParseError}
    (hselect : Sql.classify (Sql.normalize sql) = .ok .select)
    (hvalid : Sql.validate (Sql.normalize sql) = .ok ())
    (hread : Sql.parse (Sql.normalize sql) = .error e) :
    ((∀ look ∈ Replay.looks (Sql.normalize sql), ∃ r, (engine.execute look s).1 = .ok r) →
        (replay engine sql s).calls = Replay.looks (Sql.normalize sql) ++ [Sql.normalize sql]
        ∧ (∀ reply, (engine.execute (Sql.normalize sql)
              (engine.stateAfter (Replay.looks (Sql.normalize sql)) s)).1 = .ok reply →
            (replay engine sql s).outcome.error = none
            ∧ (replay engine sql s).outcome.finalResult = reply.toSnapshot resultTable)
        ∧ (∀ message, (engine.execute (Sql.normalize sql)
              (engine.stateAfter (Replay.looks (Sql.normalize sql)) s)).1 = .error message →
            (replay engine sql s).outcome.error = some (hintFor message ((engine.tableNames
              (engine.stateAfter (replay engine sql s).calls s)).getD []))))
    ∧ (∀ look ∈ Replay.looks (Sql.normalize sql), ∀ message,
        (engine.execute look s).1 = .error message →
        (replay engine sql s).calls = [look]
        ∧ (replay engine sql s).outcome.error = some (hintFor message ((engine.tableNames
            (engine.stateAfter (replay engine sql s).calls s)).getD []))) := by
  obtain ⟨hresult, hcalls⟩ := Replay.select_unread engine s hselect hvalid hread
  have htable : (Descriptor.extract (Sql.normalize sql)).fromTable?
      = Sql.firstFromTable? (Sql.normalize sql) := by
    rw [Descriptor.fromTable?, Descriptor.extract, hread]
  have hsql : (Descriptor.extract (Sql.normalize sql)).sql = Sql.normalize sql := rfl
  rw [← replay_calls] at hcalls
  unfold Replay.unreadSelect at hresult hcalls
  rw [htable, hsql] at hresult hcalls
  unfold Replay.looks
  -- the statement itself, asked in whatever state the look leaves
  have hask : ∀ s', ((do return (← Dialogue.fetch (Sql.normalize sql)).toSnapshot resultTable
      : Dialogue Snapshot).run engine s').calls = [Sql.normalize sql] := by
    intro s'
    rcases hexec : (engine.execute (Sql.normalize sql) s').1 with message | reply
    · exact (Dialogue.run_fetch_error hexec).2
    · exact (Dialogue.run_fetch_ok hexec).2
  cases hguess : Sql.firstFromTable? (Sql.normalize sql) with
  | none =>
      rw [hguess] at hresult hcalls
      have hall : (replay engine sql s).calls = [Sql.normalize sql] := hcalls.trans (hask s)
      refine ⟨fun _ => ⟨hall, ?_, ?_⟩, List.forall_mem_nil _⟩
      · intro reply hreply
        exact replay_of_ok (hresult.trans (Dialogue.run_fetch_ok hreply).1)
      · intro message hfails
        rw [hall]
        exact (replay_of_error (hresult.trans (Dialogue.run_fetch_error hfails).1)).1
  | some table =>
      rw [hguess] at hresult hcalls
      constructor
      · intro hlook
        obtain ⟨r, hr⟩ := hlook (scanQuery table) List.mem_cons_self
        -- the look shows its step and leaves the statement to be asked
        have hnext := Dialogue.run_fetch_ok (s := s) (f := fun r => do
          Dialogue.showStep (Stage.scanStep table (Stage.scannedTable table r))
          return (← Dialogue.fetch (Sql.normalize sql)).toSnapshot resultTable) hr
        have hresult' := hresult.trans hnext.1
        have hall : (replay engine sql s).calls = [scanQuery table, Sql.normalize sql] :=
          (hcalls.trans hnext.2).trans (congrArg (scanQuery table :: ·) (hask _))
        refine ⟨hall, ?_, ?_⟩
        · intro reply hreply
          exact replay_of_ok (hresult'.trans (Dialogue.run_fetch_ok hreply).1)
        · intro message hfails
          rw [hall]
          exact (replay_of_error (hresult'.trans (Dialogue.run_fetch_error hfails).1)).1
      · intro look hlook message hfails
        obtain rfl := List.mem_singleton.mp hlook
        have hnext := Dialogue.run_fetch_error (f := fun r => do
          Dialogue.showStep (Stage.scanStep table (Stage.scannedTable table r))
          return (← Dialogue.fetch (Sql.normalize sql)).toSnapshot resultTable) hfails
        have hall := hcalls.trans hnext.2
        rw [hall]
        exact ⟨rfl, (replay_of_error (hresult.trans hnext.1)).1⟩

/-- A condition with a query in it: behind the look at `t` the statement is asked and its
    answer is the result, and a look that fails is the last call. -/
theorem replay_unread_subquery :
    ((replay (Engine.scripted none) "SELECT a FROM t WHERE a IN (SELECT b FROM u)"
        [.ok ⟨["rowid", "a"], [[.int 1, .int 5]]⟩, .ok ⟨["a"], [[.int 5]]⟩]).outcome.error = none
      ∧ (replay (Engine.scripted none) "SELECT a FROM t WHERE a IN (SELECT b FROM u)"
          [.ok ⟨["rowid", "a"], [[.int 1, .int 5]]⟩, .ok ⟨["a"], [[.int 5]]⟩]).outcome.finalResult
        = Reply.toSnapshot ⟨["a"], [[.int 5]]⟩ resultTable)
    ∧ (replay (Engine.scripted none) "SELECT a FROM t WHERE a IN (SELECT b FROM u)"
        [.error "down"]).calls = [scanQuery "t"] := by
  have hselect : Sql.classify (Sql.normalize "SELECT a FROM t WHERE a IN (SELECT b FROM u)")
      = .ok .select := by decide +kernel
  have hvalid : Sql.validate (Sql.normalize "SELECT a FROM t WHERE a IN (SELECT b FROM u)")
      = .ok () := by decide +kernel
  have hrejected : (Sql.parse (Sql.normalize
      "SELECT a FROM t WHERE a IN (SELECT b FROM u)")).isOk = false := by decide +kernel
  have hlooks : Replay.looks (Sql.normalize "SELECT a FROM t WHERE a IN (SELECT b FROM u)")
      = [scanQuery "t"] := by decide +kernel
  cases hread : Sql.parse (Sql.normalize "SELECT a FROM t WHERE a IN (SELECT b FROM u)") with
  | ok parsed =>
      rw [hread] at hrejected
      exact nomatch hrejected
  | error e =>
      constructor
      · refine ((replay_unread (Engine.scripted none) _ _ hselect hvalid hread).1 ?_).2.1 _ ?_
        · intro look _
          exact ⟨_, rfl⟩
        · rw [hlooks]
          rfl
      · refine ((replay_unread (Engine.scripted none) _ _ hselect hvalid hread).2 _ ?_ "down" rfl).1
        rw [hlooks]
        exact List.mem_cons_self

/-- The first FROM of a statement may stand in a function call: the engine answers this
    statement, but the replay looks at a table of the name behind that FROM, which there
    is not, and ends with the engine's complaint about it. -/
theorem replay_extract_unasked :
    ∃ engine : Engine Unit,
      (engine.execute "SELECT EXTRACT(YEAR FROM hired) FROM employees" ()).1
          = .ok ⟨["y"], [[.int 2020]]⟩
        ∧ Sql.classify (Sql.normalize "SELECT EXTRACT(YEAR FROM hired) FROM employees")
          = .ok .select
        ∧ Sql.validate (Sql.normalize "SELECT EXTRACT(YEAR FROM hired) FROM employees") = .ok ()
        ∧ (Sql.parse (Sql.normalize "SELECT EXTRACT(YEAR FROM hired) FROM employees")).isOk = false
        ∧ (replay engine "SELECT EXTRACT(YEAR FROM hired) FROM employees" ()).calls
          = [scanQuery "hired"]
        ∧ (replay engine "SELECT EXTRACT(YEAR FROM hired) FROM employees" ()).outcome.error
          = some "Table 'hired' does not exist. Available tables: employees." := by
  refine ⟨⟨fun sql s => (if sql = "SELECT EXTRACT(YEAR FROM hired) FROM employees" then
      .ok ⟨["y"], [[.int 2020]]⟩ else .error "no such table: hired", s),
    fun _ => some ["employees"]⟩, rfl, ?_, ?_, ?_, ?_, ?_⟩
  all_goals decide +kernel

end QueryReplay
