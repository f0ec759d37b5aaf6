import QueryReplay.Replay.Dialogue

/-! # What holds when a dialogue ends

    A dialogue is a tree over the engine's answers, so what it guarantees can
    be read off the tree without an engine:

    * `Ensures` folds a postcondition over the tree: it may speak about the
      exchanges so far, the steps shown so far and the value at the end;
    * one rule for each way to build a dialogue (`ensures_bind`,
      `ensures_fetch`, …), so that a stage is proved along its text;
    * `ensures_run`: leading the dialogue with any engine gives a transcript of
      which the postcondition holds, with the answers that the engine gave. -/

namespace QueryReplay

/-! ## Exchanges with an engine -/

namespace Engine

variable {σ : Type} (engine : Engine σ)

/-- The engine's state after it has been asked statements. -/
def stateAfter : List String → σ → σ
  | [], s => s
  | sql :: rest, s => stateAfter rest (engine.execute sql s).2

/-- Statements with the answers that the engine gives to them in turn. -/
def Answers : List (String × Reply) → σ → Prop
  | [], _ => True
  | (sql, reply) :: rest, s =>
    (engine.execute sql s).1 = .ok reply ∧ Answers rest (engine.execute sql s).2

/-- The last exchange was made in the state after those before it. -/
theorem answers_concat {before : List (String × Reply)} {sql : String} {reply : Reply} {s : σ}
    (h : engine.Answers (before ++ [(sql, reply)]) s) :
    (engine.execute sql (engine.stateAfter (before.map Prod.fst) s)).1 = .ok reply := by
  induction before generalizing s with
  | nil => exact h.1
  | cons exchange rest ih => exact ih h.2

end Engine

namespace Dialogue

variable {α β σ : Type}

/-! ## Guarantees -/

/-- Whatever is answered, when the dialogue ends with a value the postcondition
    holds of all exchanges, all steps shown and the value. -/
def Ensures (post : List (String × Reply) → List Step → α → Prop) :
    Dialogue α → List (String × Reply) → List Step → Prop
  | done a, asked, shown => post asked shown a
  | refuse _, _, _ => True
  | ask sql next, asked, shown =>
    ∀ reply, Ensures post (next reply) (asked ++ [(sql, reply)]) shown
  | display step next, asked, shown => Ensures post next asked (shown ++ [step])
  | note _ next, asked, shown => Ensures post next asked shown

/-- Weaker postconditions are ensured as well. -/
theorem ensures_mono {post post' : List (String × Reply) → List Step → α → Prop}
    (hpost : ∀ asked shown a, post asked shown a → post' asked shown a) {d : Dialogue α} :
    ∀ {asked : List (String × Reply)} {shown : List Step},
      d.Ensures post asked shown → d.Ensures post' asked shown := by
  induction d with
  | done a => intro asked shown h; exact hpost asked shown a h
  | refuse o => intro _ _ _; exact trivial
  | ask sql next ih => intro asked shown h reply; exact ih reply (h reply)
  | display step next ih => intro asked shown h; exact ih h
  | note e next ih => intro asked shown h; exact ih h

section Rules

variable {post : List (String × Reply) → List Step → β → Prop}
variable {asked : List (String × Reply)} {shown : List Step}

theorem ensures_pure {a : β} (h : post asked shown a) :
    (pure a : Dialogue β).Ensures post asked shown := h

/-- In sequence, the first part must ensure that the second part can be led. -/
theorem ensures_bind {d : Dialogue α} {f : α → Dialogue β} :
    ∀ {asked : List (String × Reply)} {shown : List Step},
      d.Ensures (fun asked shown a => (f a).Ensures post asked shown) asked shown →
      (d >>= f).Ensures post asked shown := by
  induction d with
  | done a => intro asked shown h; exact h
  | refuse o => intro asked shown _; exact trivial
  | ask sql next ih => intro asked shown h reply; exact ih reply (h reply)
  | display step next ih => intro asked shown h; exact ih h
  | note e next ih => intro asked shown h; exact ih h

/-- A question ensures what holds whatever the reply is, with the exchange behind those before it.
-/
theorem ensures_fetch {sql : String} {post : List (String × Reply) → List Step → Reply → Prop}
    (h : ∀ reply, post (asked ++ [(sql, reply)]) shown reply) :
    (fetch sql).Ensures post asked shown := h

/-- A step is shown behind those before it. -/
theorem ensures_showStep {step : Step} {post : List (String × Reply) → List Step → Unit → Prop}
    (h : post asked (shown ++ [step]) ()) : (showStep step).Ensures post asked shown := h

theorem ensures_noteEvent {e : Event} {post : List (String × Reply) → List Step → Unit → Prop}
    (h : post asked shown ()) : (noteEvent e).Ensures post asked shown := h

/-- An objection ends the tree, so that only what is required has to hold. -/
theorem ensures_require {e : Except Sql.Objection β} (h : ∀ a, e = .ok a → post asked shown a) :
    (require e).Ensures post asked shown := by
  cases e with
  | ok a => exact h a rfl
  | error o => exact trivial

end Rules

/-- A transcript has what the dialogue ensures, with the engine's own answers. -/
theorem ensures_run (engine : Engine σ) {post : List (String × Reply) → List Step → α → Prop}
    (d : Dialogue α) :
    ∀ {asked : List (String × Reply)} {shown : List Step} {s : σ} {a : α},
      d.Ensures post asked shown → (d.run engine s).result = .ok a →
      ∃ exchanges, exchanges.map Prod.fst = (d.run engine s).calls
        ∧ engine.Answers exchanges s
        ∧ post (asked ++ exchanges) (shown ++ (d.run engine s).steps) a := by
  -- an answer that fails ends the run with an error, so all exchanges up to the result are
  -- answered
  induction d with
  | done b =>
      intro asked shown s a h hok
      obtain rfl : b = a := Except.ok.inj hok
      exact ⟨[], rfl, trivial, by rw [run, List.append_nil, List.append_nil]; exact h⟩
  | refuse o => intro asked shown s a _ hok; exact nomatch hok
  | ask sql next ih =>
      intro asked shown s a h hok
      rcases hexec : engine.execute sql s with ⟨message | reply, s'⟩
      · rw [run, hexec] at hok
        exact nomatch hok
      · rw [run, hexec] at hok ⊢
        obtain ⟨exchanges, hcalls, hanswers, hpost⟩ := ih reply (h reply) hok
        refine ⟨(sql, reply) :: exchanges, ?_, ?_, ?_⟩
        · exact congrArg (sql :: ·) hcalls
        · rw [Engine.Answers, hexec]
          exact ⟨rfl, hanswers⟩
        · rw [List.append_assoc] at hpost
          exact hpost
  | display step next ih =>
      intro asked shown s a h hok
      obtain ⟨exchanges, hcalls, hanswers, hpost⟩ := ih h hok
      rw [List.append_assoc] at hpost
      exact ⟨exchanges, hcalls, hanswers, hpost⟩
  | note e next ih =>
      intro asked shown s a h hok
      exact ih h hok

/-- A refusal is the objection that it is told. -/
theorem run_refuse (engine : Engine σ) (o : Sql.Objection) (s : σ) :
    ((refuse o : Dialogue α).run engine s).result = .error (.objection o) := rfl

-- from here on the rules are the way in; unfolding would lead the whole dialogue
attribute [irreducible] Ensures

end Dialogue

end QueryReplay
