import QueryReplay.Proofs.Stops

/-! # What holds of the steps that are shown

    `Ensures` speaks of dialogues that end with a value.  A replay that fails
    keeps the steps that it showed before, so what is said of those steps is an
    invariant: it is proved where a step is shown, and it holds of the steps of
    every run, however the run ends.

    * `Maintains` folds an invariant of exchanges and steps over the tree, with
      a postcondition that hands on what the next part needs;
    * one rule for each way to build a dialogue;
    * `maintains_run`: the invariant holds of the steps of every run;
    * a step that depends on some answers is told by a front of the exchanges (`Traced`);
    * behind a part that shows nothing, the steps are those of the part that follows
      (`mem_steps_bind`). -/

namespace QueryReplay.Dialogue

variable {α β σ : Type}

/-- Whatever is answered, the invariant holds behind every step that is shown, and
    the postcondition where the dialogue ends with a value. -/
def Maintains (inv : List (String × Reply) → List Step → Prop)
    (post : List (String × Reply) → List Step → α → Prop) :
    Dialogue α → List (String × Reply) → List Step → Prop
  | done a, asked, shown => post asked shown a
  | refuse _, _, _ => True
  | ask sql next, asked, shown =>
    ∀ reply, Maintains inv post (next reply) (asked ++ [(sql, reply)]) shown
  | display step next, asked, shown =>
    inv asked (shown ++ [step]) ∧ Maintains inv post next asked (shown ++ [step])
  | note _ next, asked, shown => Maintains inv post next asked shown

variable {inv : List (String × Reply) → List Step → Prop}

section Rules

variable {post : List (String × Reply) → List Step → β → Prop}
variable {asked : List (String × Reply)} {shown : List Step}

theorem maintains_pure {a : β} (h : post asked shown a) :
    (pure a : Dialogue β).Maintains inv post asked shown := h

theorem maintains_refuse (o : Sql.Objection) :
    (refuse o : Dialogue β).Maintains inv post asked shown := trivial

/-- In sequence, the first part must leave what the second part starts from. -/
theorem maintains_bind {d : Dialogue α} {f : α → Dialogue β} :
    ∀ {asked : List (String × Reply)} {shown : List Step},
      d.Maintains inv (fun asked shown a => (f a).Maintains inv post asked shown) asked shown →
      (d >>= f).Maintains inv post asked shown := by
  induction d with
  | done a => intro asked shown h; exact h
  | refuse o => intro asked shown _; exact trivial
  | ask sql next ih => intro asked shown h reply; exact ih reply (h reply)
  | display step next ih => intro asked shown h; exact ⟨h.1, ih h.2⟩
  | note e next ih => intro asked shown h; exact ih h

/-- A question maintains what does not depend on its reply. -/
theorem maintains_fetch {sql : String} {post : List (String × Reply) → List Step → Reply → Prop}
    (h : ∀ reply, post (asked ++ [(sql, reply)]) shown reply) :
    (fetch sql).Maintains inv post asked shown := h

/-- A step is shown only where the invariant holds with it. -/
theorem maintains_showStep {step : Step}
    {post : List (String × Reply) → List Step → Unit → Prop}
    (hinv : inv asked (shown ++ [step])) (h : post asked (shown ++ [step]) ()) :
    (showStep step).Maintains inv post asked shown := ⟨hinv, h⟩

theorem maintains_noteEvent {e : Event} {post : List (String × Reply) → List Step → Unit → Prop}
    (h : post asked shown ()) : (noteEvent e).Maintains inv post asked shown := h

/-- An objection ends the tree with the invariant as it was. -/
theorem maintains_require {e : Except Sql.Objection β} (h : ∀ a, e = .ok a → post asked shown a) :
    (require e).Maintains inv post asked shown := by
  cases e with
  | ok a => exact h a rfl
  | error o => exact trivial

end Rules

/-- An invariant that further exchanges do not spoil holds of the steps of every run,
    with the answers that the engine gave. -/
theorem maintains_run (engine : Engine σ) {post : List (String × Reply) → List Step → α → Prop}
    (hgrow : ∀ asked exchange shown, inv asked shown → inv (asked ++ [exchange]) shown)
    (d : Dialogue α) :
    ∀ {asked : List (String × Reply)} {shown : List Step} {s : σ},
      d.Maintains inv post asked shown → inv asked shown →
      ∃ exchanges, exchanges.map Prod.fst <+: (d.run engine s).calls
        ∧ engine.Answers exchanges s
        ∧ inv (asked ++ exchanges) (shown ++ (d.run engine s).steps) := by
  -- where the dialogue stops the invariant holds of what was asked and shown by then
  have hend : ∀ {asked : List (String × Reply)} {shown : List Step} {calls : List String} {s : σ},
      inv asked shown → ∃ exchanges, exchanges.map Prod.fst <+: calls
        ∧ engine.Answers exchanges s ∧ inv (asked ++ exchanges) (shown ++ []) := by
    intro asked shown calls s hinv
    exact ⟨[], List.nil_prefix, trivial, by rw [List.append_nil, List.append_nil]; exact hinv⟩
  induction d with
  | done a => intro asked shown s _ hinv; exact hend hinv
  | refuse o => intro asked shown s _ hinv; exact hend hinv
  | ask sql next ih =>
      intro asked shown s h hinv
      rcases hexec : engine.execute sql s with ⟨message | reply, s'⟩
      · rw [run, hexec]
        exact hend hinv
      · rw [run, hexec]
        obtain ⟨exchanges, hcalls, hanswers, hinv⟩ :=
          ih reply (s := s') (h reply) (hgrow asked (sql, reply) shown hinv)
        refine ⟨(sql, reply) :: exchanges, List.cons_prefix_cons.mpr ⟨rfl, hcalls⟩, ?_, ?_⟩
        · rw [Engine.Answers, hexec]
          exact ⟨rfl, hanswers⟩
        · rw [List.append_assoc] at hinv
          exact hinv
  | display step next ih =>
      intro asked shown s h _
      obtain ⟨exchanges, hcalls, hanswers, hinv⟩ := ih (s := s) h.2 h.1
      rw [List.append_assoc] at hinv
      exact ⟨exchanges, hcalls, hanswers, hinv⟩
  | note e next ih => intro asked shown s h hinv; exact ih h hinv

/-- A dialogue that shows only steps of kinds that do not touch the invariant hands on
    what follows from it. -/
theorem Shows.maintains_keeping {post : List (String × Reply) → List Step → α → Prop}
    {kinds : List String} {d : Dialogue α} (h : d.Shows kinds)
    (hgrow : ∀ asked exchange shown, inv asked shown → inv (asked ++ [exchange]) shown)
    (hstep : ∀ asked shown step, step.kind ∈ kinds → inv asked shown → inv asked (shown ++ [step]))
    (hpost : ∀ asked shown a, inv asked shown → post asked shown a) :
    ∀ {asked : List (String × Reply)} {shown : List Step},
      inv asked shown → d.Maintains inv post asked shown := by
  induction d generalizing kinds with
  | done a => intro asked shown hinv; exact hpost asked shown a hinv
  | refuse o => intro asked shown _; exact trivial
  | ask sql next ih =>
      intro asked shown hinv reply
      exact ih reply (shows_ask.mp h reply) hstep (hgrow asked (sql, reply) shown hinv)
  | display step next ih =>
      intro asked shown hinv
      obtain ⟨rest, rfl, hrest⟩ := shows_display.mp h
      have hnext := hstep asked shown step List.mem_cons_self hinv
      exact ⟨hnext, ih hrest (fun asked shown s hs =>
        hstep asked shown s (List.mem_cons_of_mem _ hs)) hnext⟩
  | note e next ih =>
      intro asked shown hinv
      exact ih (shows_note.mp h) hstep hinv

/-- It is enough to look at the steps of the kinds that are shown. -/
theorem Shows.maintains {kinds : List String} {d : Dialogue α}
    (hgrow : ∀ asked exchange shown, inv asked shown → inv (asked ++ [exchange]) shown)
    (hstep : ∀ asked shown step, step.kind ∈ kinds → inv asked shown → inv asked (shown ++ [step]))
    (h : d.Shows kinds) {asked : List (String × Reply)} {shown : List Step} (hinv : inv asked shown) :
    d.Maintains inv (fun _ _ _ => True) asked shown :=
  h.maintains_keeping hgrow hstep (fun _ _ _ _ => trivial) hinv

/-- A dialogue that shows nothing hands on what holds wherever it may end. -/
theorem Shows.maintains_silent {post : List (String × Reply) → List Step → α → Prop}
    {shown : List Step} {d : Dialogue α} (h : d.Shows [])
    (hpost : ∀ asked a, post asked shown a) : ∀ {asked : List (String × Reply)},
      d.Maintains inv post asked shown := by
  induction d with
  | done a => exact hpost _ a
  | refuse o => intro _; exact trivial
  | ask sql next ih => intro asked reply; exact ih reply (shows_ask.mp h reply)
  | display step next ih =>
      obtain ⟨rest, hkinds, -⟩ := shows_display.mp h
      exact nomatch hkinds
  | note e next ih => intro asked; exact ih (shows_note.mp h)

/-! ## In sequence -/

/-- The steps of two dialogues in sequence, when the first ends with a value. -/
theorem steps_bind (engine : Engine σ) {d : Dialogue α} {f : α → Dialogue β} {s : σ} {a : α}
    (h : (d.run engine s).result = .ok a) : ((d >>= f).run engine s).steps
      = (d.run engine s).steps ++ ((f a).run engine (d.run engine s).state).steps := by
  induction d generalizing s with
  | done b =>
      obtain rfl : b = a := Except.ok.inj h
      rfl
  | refuse o => cases h
  | ask sql next ih =>
      rcases hexec : engine.execute sql s with ⟨message | reply, s'⟩
      · rw [run, hexec] at h
        cases h
      · rw [run, hexec] at h ⊢
        show ((ask sql fun reply => next reply >>= f).run engine s).steps = _
        rw [run, hexec]
        exact ih reply h
  | display step next ih => exact congrArg (step :: ·) (ih h)
  | note e next ih => exact ih h

/-- Behind a dialogue that shows nothing, the steps are those of what follows its value. -/
theorem mem_steps_bind (engine : Engine σ) {d : Dialogue α} {f : α → Dialogue β} {s : σ} {a : α}
    {P : Step → Prop} (h : (d.run engine s).result = .ok a) (hsilent : d.Shows [])
    (hrest : (f a).Maintains (fun _ shown => ∀ step ∈ shown, P step) (fun _ _ _ => True) [] []) :
    ∀ step ∈ ((d >>= f).run engine s).steps, P step := by
  have hnone := (shows_run engine hsilent s).1
  rw [List.prefix_nil, List.map_eq_nil_iff] at hnone
  rw [steps_bind engine h, hnone, List.nil_append]
  obtain ⟨exchanges, -, -, hshown⟩ := maintains_run engine (fun _ _ _ h => h) _ hrest nofun
  exact hshown

/-! ## Steps told by exchanges -/

/-- Each step so far is told by a front of the exchanges. -/
def Traced (told : List (String × Reply) → Step → Prop) (asked : List (String × Reply))
    (shown : List Step) : Prop :=
  ∀ step ∈ shown, ∃ exchanges, exchanges <+: asked ∧ told exchanges step

section Traced

variable {told : List (String × Reply) → Step → Prop}
variable {asked : List (String × Reply)} {shown : List Step}

/-- Nothing shown has nothing to be traced to. -/
theorem traced_nil : Traced told asked [] := fun _ h => absurd h List.not_mem_nil

/-- More exchanges take nothing back. -/
theorem Traced.grow (h : Traced told asked shown) {asked' : List (String × Reply)}
    (hgrown : asked <+: asked') : Traced told asked' shown := by
  intro step hstep
  obtain ⟨exchanges, hfront, htold⟩ := h step hstep
  exact ⟨exchanges, hfront.trans hgrown, htold⟩

/-- A step is traced to the exchanges in front of it. -/
theorem Traced.concat (h : Traced told asked shown) {step : Step}
    {exchanges : List (String × Reply)} (hfront : exchanges <+: asked)
    (hstep : told exchanges step) : Traced told asked (shown ++ [step]) := by
  intro s hs
  rcases List.mem_append.mp hs with hs | hs
  · exact h s hs
  · exact List.mem_singleton.mp hs ▸ ⟨exchanges, hfront, hstep⟩

/-- A dialogue whose steps need no exchange to be told. -/
theorem Traced.through {post : List (String × Reply) → List Step → α → Prop} {kinds : List String}
    {d : Dialogue α} (hshows : d.Shows kinds) (hkinds : ∀ step, step.kind ∈ kinds → told [] step)
    (hpost : ∀ asked' shown' a, Traced told asked' shown' → post asked' shown' a)
    (h : Traced told asked shown) : d.Maintains (Traced told) post asked shown := by
  refine hshows.maintains_keeping (fun _ _ _ hinv => hinv.grow (List.prefix_append ..)) ?_ hpost h
  exact fun _ _ step hkind hinv => hinv.concat List.nil_prefix (hkinds step hkind)

/-- In every run, each step is told by the first of the answers that the engine gave. -/
theorem traced_run (engine : Engine σ) {d : Dialogue α} (s : σ)
    (h : d.Maintains (Traced told) (fun _ _ _ => True) [] []) :
    ∀ step ∈ (d.run engine s).steps, ∃ exchanges,
      exchanges.map Prod.fst <+: (d.run engine s).calls ∧ engine.Answers exchanges s
        ∧ told exchanges step := by
  intro step hstep
  obtain ⟨asked, hcalls, hanswers, hinv⟩ := maintains_run engine
    (fun _ _ _ hinv => hinv.grow (List.prefix_append ..)) d (s := s) h traced_nil
  rw [List.nil_append, List.nil_append] at hinv
  obtain ⟨exchanges, ⟨more, rfl⟩, htold⟩ := hinv step hstep
  refine ⟨exchanges, ?_, (engine.answers_append.mp hanswers).1, htold⟩
  rw [List.map_append] at hcalls
  exact (List.prefix_append ..).trans hcalls

end Traced

attribute [irreducible] Maintains

end QueryReplay.Dialogue
