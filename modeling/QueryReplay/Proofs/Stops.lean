import QueryReplay.Proofs.Dialogues

/-! # Where a dialogue stops — calls, objections and steps

    A dialogue stops with a value, with an objection, or on a statement that the
    engine fails on.  What is known of all three at once:

    * every statement but perhaps the last was answered, and the last one was
      not exactly when the engine's failure is the result (`run_exchanges`);
    * a dialogue that objects only before its first question has asked and shown
      nothing when it objects (`objectsFirst_run`);
    * a dialogue that shows steps of given kinds has shown them all when it ends
      with a value, and a front of them wherever it stops (`shows_run`). -/

namespace QueryReplay

namespace Engine

variable {σ : Type} (engine : Engine σ)

/-- Of exchanges each one was made in the state after those before it. -/
theorem answers_append {before after : List (String × Reply)} {s : σ} :
    engine.Answers (before ++ after) s ↔ engine.Answers before s
      ∧ engine.Answers after (engine.stateAfter (before.map Prod.fst) s) := by
  induction before generalizing s with
  | nil => exact ⟨fun h => ⟨trivial, h⟩, fun h => h.2⟩
  | cons exchange rest ih =>
      constructor
      · rintro ⟨hreply, hrest⟩
        exact ⟨⟨hreply, (ih.mp hrest).1⟩, (ih.mp hrest).2⟩
      · rintro ⟨⟨hreply, hbefore⟩, hafter⟩
        exact ⟨hreply, ih.mpr ⟨hbefore, hafter⟩⟩

/-- The exchange at an index was made in the state after those before it. -/
theorem answers_getElem? {exchanges : List (String × Reply)} {s : σ}
    (h : engine.Answers exchanges s) {t : Nat} {sql : String} {reply : Reply}
    (ht : exchanges[t]? = some (sql, reply)) :
    (engine.execute sql (engine.stateAfter ((exchanges.take t).map Prod.fst) s)).1 = .ok reply := by
  induction exchanges generalizing t s with
  | nil => exact nomatch ht
  | cons exchange rest ih =>
      cases t with
      | zero =>
          obtain rfl := Option.some.inj ht
          exact h.1
      | succ t => exact ih h.2 ht

/-- A statement among those that were answered did not fail. -/
theorem answers_not_error {exchanges : List (String × Reply)} {s : σ}
    (h : engine.Answers exchanges s) {before after : List String} {sql message : String}
    (hcalls : exchanges.map Prod.fst = before ++ sql :: after) :
    (engine.execute sql (engine.stateAfter before s)).1 ≠ .error message := by
  obtain ⟨front, rest, rfl, rfl, hrest⟩ := List.map_eq_append_iff.mp hcalls
  obtain ⟨⟨_, reply⟩, more, rfl, rfl, -⟩ := List.map_eq_cons_iff.mp hrest
  have hreply := ((engine.answers_append).mp h).2.1
  intro hfails
  exact nomatch hreply.symm.trans hfails

end Engine

namespace Dialogue

variable {α β σ : Type}

/-! ## Calls -/

/-- Every statement was answered, unless the engine's failure is the result: then
    the last one failed, and those before it were answered. -/
theorem run_exchanges (engine : Engine σ) (d : Dialogue α) (s : σ) :
    ∃ exchanges, engine.Answers exchanges s
      ∧ (((d.run engine s).calls = exchanges.map Prod.fst
          ∧ ∀ sql message, (d.run engine s).result ≠ .error (.engine sql message))
        ∨ ∃ sql message, (d.run engine s).calls = exchanges.map Prod.fst ++ [sql]
          ∧ (engine.execute sql (engine.stateAfter (exchanges.map Prod.fst) s)).1 = .error message
          ∧ ∃ hint, (d.run engine s).result = .error (.engine sql hint)) := by
  induction d generalizing s with
  | done a => exact ⟨[], trivial, .inl ⟨rfl, fun _ _ => nofun⟩⟩
  | refuse o => exact ⟨[], trivial, .inl ⟨rfl, fun _ _ => nofun⟩⟩
  | ask sql next ih =>
      rcases hexec : engine.execute sql s with ⟨message | reply, s'⟩
      -- the one that failed is the last call and no exchange
      · refine ⟨[], trivial, .inr ⟨sql, message, ?_, ?_, ?_⟩⟩
        · rw [run, hexec]
          rfl
        · show (engine.execute sql s).1 = _
          rw [hexec]
        · rw [run, hexec]
          exact ⟨_, rfl⟩
      · obtain ⟨exchanges, hanswers, hend⟩ := ih reply s'
        have hstate : (engine.execute sql s).2 = s' := by rw [hexec]
        refine ⟨(sql, reply) :: exchanges, ⟨by rw [hexec], by rw [hstate]; exact hanswers⟩, ?_⟩
        rw [run, hexec]
        rcases hend with ⟨hcalls, hresult⟩ | ⟨last, message, hcalls, hfails, hresult⟩
        · exact .inl ⟨congrArg (sql :: ·) hcalls, hresult⟩
        · refine .inr ⟨last, message, congrArg (sql :: ·) hcalls, ?_, hresult⟩
          show (engine.execute last (engine.stateAfter (exchanges.map Prod.fst)
            (engine.execute sql s).2)).1 = _
          rw [hstate]
          exact hfails
  | display step next ih => exact ih s
  | note e next ih => exact ih s

/-- Nothing is asked behind a statement that failed. -/
theorem run_stops (engine : Engine σ) (d : Dialogue α) {s : σ} {before after : List String}
    {asked message : String} (hcalls : (d.run engine s).calls = before ++ asked :: after)
    (hfails : (engine.execute asked (engine.stateAfter before s)).1 = .error message) :
    after = [] := by
  obtain ⟨exchanges, hanswers, ⟨hall, -⟩ | ⟨last, _, hall, -⟩⟩ := run_exchanges engine d s
  · exact absurd hfails (engine.answers_not_error hanswers (hall.symm.trans hcalls))
  · rcases List.eq_nil_or_concat after with rfl | ⟨after', x, rfl⟩
    · rfl
    · -- then the failed one is not the last, so it was answered
      rw [hall, List.concat_eq_append, ← List.cons_append, ← List.append_assoc] at hcalls
      obtain ⟨hbefore, -⟩ := List.append_inj' hcalls rfl
      exact absurd hfails (engine.answers_not_error hanswers hbefore)

/-! ## Objections -/

/-- The dialogue never objects. -/
def Unopposed : Dialogue α → Prop
  | done _ => True
  | refuse _ => False
  | ask _ next => ∀ reply, (next reply).Unopposed
  | display _ next => next.Unopposed
  | note _ next => next.Unopposed

/-- The dialogue objects, if at all, before it asks or shows anything. -/
def ObjectsFirst : Dialogue α → Prop
  | done _ => True
  | refuse _ => True
  | ask _ next => ∀ reply, (next reply).Unopposed
  | display _ next => next.Unopposed
  | note _ next => next.ObjectsFirst

/-- A tree without objections has none behind a question. -/
theorem Unopposed.objectsFirst {d : Dialogue α} (h : d.Unopposed) : d.ObjectsFirst := by
  induction d with
  | done a => exact trivial
  | refuse o => exact trivial
  | ask sql next _ => exact h
  | display step next _ => exact h
  | note e next ih => exact ih h

theorem objectsFirst_refuse (o : Sql.Objection) : (refuse o : Dialogue α).ObjectsFirst := trivial

/-- An objection to what is required stands in front of all that follows. -/
theorem objectsFirst_require {e : Except Sql.Objection α} {f : α → Dialogue β}
    (hf : ∀ a, e = .ok a → (f a).ObjectsFirst) : (require e >>= f).ObjectsFirst := by
  cases e with
  | ok a => exact hf a rfl
  | error o => exact trivial

/-- No run of such a tree ends with an objection. -/
theorem unopposed_run (engine : Engine σ) {d : Dialogue α} (h : d.Unopposed) (s : σ)
    (o : Sql.Objection) : (d.run engine s).result ≠ .error (.objection o) := by
  induction d generalizing s with
  | done a => exact fun heq => by cases heq
  | refuse o => exact h.elim
  | ask sql next ih =>
      rcases hexec : engine.execute sql s with ⟨message | reply, s'⟩
      · rw [run, hexec]
        exact fun heq => by cases heq
      · rw [run, hexec]
        exact ih reply (h reply) s'
  | display step next ih => exact ih h s
  | note e next ih => exact ih h s

/-- When such a dialogue objects, nothing was asked and nothing was shown. -/
theorem objectsFirst_run (engine : Engine σ) {d : Dialogue α} (h : d.ObjectsFirst) {s : σ}
    {o : Sql.Objection} (hresult : (d.run engine s).result = .error (.objection o)) :
    (d.run engine s).calls = [] ∧ (d.run engine s).steps = [] := by
  induction d with
  | done a => exact nomatch hresult
  | refuse o => exact ⟨rfl, rfl⟩
  | ask sql next _ => exact absurd hresult (unopposed_run engine (d := ask sql next) h s o)
  | display step next _ =>
      exact absurd hresult (unopposed_run engine (d := display step next) h s o)
  | note e next ih => exact ih h hresult

/-! ## Kinds of steps -/

/-- Whatever is answered, the dialogue shows steps of these kinds, in this order,
    before it ends with a value, and it never objects. -/
def Shows : List String → Dialogue α → Prop
  | kinds, done _ => kinds = []
  | _, refuse _ => False
  | kinds, ask _ next => ∀ reply, Shows kinds (next reply)
  | kinds, display step next => ∃ rest, kinds = step.kind :: rest ∧ Shows rest next
  | kinds, note _ next => Shows kinds next

section Rules

variable {kinds more : List String}

/-- A question shows nothing, whatever is answered. -/
theorem shows_ask {sql : String} {next : Reply → Dialogue α} :
    (ask sql next).Shows kinds ↔ ∀ reply, (next reply).Shows kinds := Iff.rfl

/-- A step is the first that is shown. -/
theorem shows_display {step : Step} {next : Dialogue α} :
    (display step next).Shows kinds ↔ ∃ rest, kinds = step.kind :: rest ∧ next.Shows rest := Iff.rfl

theorem shows_note {e : Event} {next : Dialogue α} :
    (note e next).Shows kinds ↔ next.Shows kinds := Iff.rfl

/-- What is shown first stands in front. -/
theorem shows_bind {d : Dialogue α} {f : α → Dialogue β} (hd : d.Shows kinds)
    (hf : ∀ a, (f a).Shows more) : (d >>= f).Shows (kinds ++ more) := by
  induction d generalizing kinds with
  | done a =>
      obtain rfl : kinds = [] := hd
      exact hf a
  | refuse o => exact hd.elim
  | ask sql next ih => exact fun reply => ih reply (hd reply)
  | display step next ih =>
      obtain ⟨rest, rfl, hrest⟩ := hd
      exact ⟨rest ++ more, rfl, ih hrest⟩
  | note e next ih => exact ih hd

theorem shows_pure (a : α) : (pure a : Dialogue α).Shows [] := rfl

theorem shows_fetch (sql : String) : (fetch sql).Shows [] := fun _ => rfl

theorem shows_showStep {step : Step} {kind : String} (h : step.kind = kind) :
    (showStep step).Shows [kind] := ⟨[], congrArg (· :: []) h.symm, rfl⟩

theorem shows_noteEvent (e : Event) : (noteEvent e).Shows [] := rfl

/-- What is made of a value shows no step. -/
theorem shows_map {d : Dialogue α} (hd : d.Shows kinds) (f : α → β) :
    (d >>= fun a => pure (f a)).Shows kinds := by
  have h := shows_bind hd fun a => shows_pure (f a)
  rwa [List.append_nil] at h

/-- A dialogue that ends by showing a step. -/
theorem shows_last {step : Step} {kind : String} {b : β} (h : step.kind = kind) :
    (showStep step >>= fun _ => pure b : Dialogue β).Shows [kind] :=
  shows_map (shows_showStep h) fun _ => b

/-- A tree that tells what it shows makes no objection. -/
theorem Shows.unopposed {d : Dialogue α} (h : d.Shows kinds) : d.Unopposed := by
  induction d generalizing kinds with
  | done a => exact trivial
  | refuse o => exact h.elim
  | ask sql next ih => exact fun reply => ih reply (h reply)
  | display step next ih =>
      obtain ⟨rest, -, hrest⟩ := h
      exact ih hrest
  | note e next ih => exact ih h

/-- All steps are there when the dialogue ends with a value, and a front of them
    wherever it stops. -/
theorem shows_run (engine : Engine σ) {d : Dialogue α} (h : d.Shows kinds) (s : σ) :
    (d.run engine s).steps.map Step.kind <+: kinds
      ∧ ∀ a, (d.run engine s).result = .ok a → (d.run engine s).steps.map Step.kind = kinds := by
  induction d generalizing kinds s with
  | done a =>
      obtain rfl : kinds = [] := h
      exact ⟨List.nil_prefix, fun _ _ => rfl⟩
  | refuse o => exact h.elim
  | ask sql next ih =>
      rcases hexec : engine.execute sql s with ⟨message | reply, s'⟩
      -- it stops here and has no value
      · rw [run, hexec]
        exact ⟨List.nil_prefix, fun a ha => by cases ha⟩
      · rw [run, hexec]
        exact ih reply (h reply) s'
  | display step next ih =>
      obtain ⟨rest, rfl, hrest⟩ := h
      obtain ⟨hfront, hall⟩ := ih hrest s
      refine ⟨?_, fun a ha => ?_⟩
      · exact List.cons_prefix_cons.mpr ⟨rfl, hfront⟩
      · exact congrArg (step.kind :: ·) (hall a ha)
  | note e next ih => exact ih h s

end Rules

-- as for `Ensures`, the rules are the way in from here on
attribute [irreducible] Unopposed ObjectsFirst Shows

end Dialogue

end QueryReplay
