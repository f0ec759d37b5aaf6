import QueryReplay.Proofs.TableSets

/-! # Reloads — when loading a dataset is all or nothing

    A dataset is loaded by commands that each take effect by themselves: one text drops
    each table, and a script makes the new ones.  Loading is `AllOrNothing` when a
    refusal leaves the tables as they were and a success leaves those of the dataset.
    How a load goes tells whether it was (`load_allOrNothing`):

    * It may stop at the text for a name.  Then the tables in front of it are gone
      (`stopped_held`), so it was all or nothing only if there were none.
    * Or every text for a name is accepted, and the script is run on what is left.  If it
      runs, the tables are whole exactly if nothing was left (`whole_iff`), as it is when
      all names are plain.

    Nothing is assumed of the text for a name that holds a double quote: it may be refused
    or be taken for something else. -/

namespace QueryReplay

namespace Connection

variable {σ ε τ : Type} [Connection σ ε] {held : σ → String → Option τ}
variable {d : Dataset} {names front rest : List String} {name : String} {s s₁ s₂ t : σ} {e : ε}

/-- What the script of a dataset makes is whole exactly if it runs where there are no
    tables. -/
theorem Standard.whole_iff (h : Standard held) (hscript : batch d.script t = (.ok (), s)) :
    Whole held d s ↔ NoTables held t := by
  constructor
  · rintro ⟨u, ⟨v, hv, hfresh⟩, hsame⟩ name
    by_cases hown : d.tables.any (Text.sameLetters name) = true
    · exact h.apart hscript hown
    · -- a table of another name would be left, and a fresh database has none
      have hother := Bool.eq_false_iff.mpr hown
      rw [← h.beside hscript hother, hsame, h.beside hfresh hother, hv name]
  · intro hnone
    exact ⟨s, ⟨t, hnone, hscript⟩, rfl⟩

/-- Where a load stops at a name, the tables in front of it are gone and the others are
    there. -/
theorem Standard.stopped_held (h : Standard held) (hplain : ∀ n ∈ front, PlainName n)
    (hfront : dropAll front s = (.ok (), s₁)) (hrefused : batch (dropText name) s₁ = (.error e, s₂))
    (hspared : PlainName name ∨ held s₂ = held s₁) : held s₂ = without front (held s) := by
  rw [← h.dropAll_held hplain hfront]
  rcases hspared with hname | hsame
  · exact h.spared hname hrefused
  · exact hsame

/-- Nothing is lost by a load that stops at the first name, and something is by one that
    stops later. -/
theorem Standard.stopped_allOrNothing (h : Standard held)
    (hnames : tableNames s = .ok (front ++ name :: rest)) (hload : load d s = (.error e, s₂))
    (hheld : held s₂ = without front (held s)) : AllOrNothing held d s ↔ front = [] := by
  rw [allOrNothing_refused hload, hheld]
  constructor
  · intro hsame
    refine List.eq_nil_iff_forall_not_mem.mpr fun n hn => ?_
    have hsome : (held s n).isSome := (h.listed hnames n).mp (List.mem_append_left _ hn)
    rw [← hsame, without_of_mem hn] at hsome
    cases hsome
  · rintro rfl
    exact without_nil _

/-- Over plain names no success is partial. -/
theorem Standard.allOrNothing_of_plain (h : Standard held)
    (hplain : ∀ names, tableNames s = .ok names → ∀ n ∈ names, PlainName n)
    (hok : (load d s).1 = .ok ()) : AllOrNothing held d s := by
  cases hnames : tableNames s with
  | error e =>
      rw [load_refused hnames] at hok
      cases hok
  | ok names =>
      rcases dropAll_course names s with ⟨t, hdrop⟩ | ⟨front, name, rest, s₁, e, s₂, rfl, hfront, hstop⟩
      · have hload := load_dropped hnames hdrop d
        rcases hscript : batch d.script t with ⟨e | _, s'⟩
        · rw [hload, hscript] at hok
          cases hok
        · rw [allOrNothing_loaded (hload.trans hscript), h.whole_iff hscript]
          exact h.dropAll_noTables hnames (hplain names hnames) hdrop
      · rw [load_stops hnames hfront hstop] at hok
        cases hok

/-- **RELOADS**: when the names cannot be listed nothing is done.  Otherwise the tables are
    dropped up to a text that is refused, or all of them.

    A load that stops at a name has lost exactly the tables in front of it, when these have
    plain names and the refused text changed no table, as the one for a plain name never
    does; so it was all or nothing only if it stopped at the first.  When all texts for
    names are accepted the script is run.  If it is refused, what it leaves has to be what
    was there before; if it runs, the tables have to be gone before, as they are when all
    names are plain. -/
theorem load_allOrNothing (h : Standard held) (d : Dataset) (s : σ) :
    (∀ e, tableNames s = .error e → load d s = (.error e, s) ∧ AllOrNothing held d s)
      ∧ ∀ names, tableNames s = .ok names →
        ((∃ t, dropAll names s = (.ok (), t))
          ∨ ∃ front name rest s₁ e s₂, names = front ++ name :: rest
            ∧ dropAll front s = (.ok (), s₁) ∧ batch (dropText name) s₁ = (.error e, s₂))
        ∧ (∀ front name rest s₁ e s₂, names = front ++ name :: rest →
            dropAll front s = (.ok (), s₁) → batch (dropText name) s₁ = (.error e, s₂) →
            load d s = (.error e, s₂)
              ∧ ((∀ n ∈ front, PlainName n) → PlainName name ∨ held s₂ = held s₁ →
                held s₂ = without front (held s) ∧ (AllOrNothing held d s ↔ front = [])))
        ∧ ∀ t, dropAll names s = (.ok (), t) → load d s = batch d.script t
          ∧ ((∀ n ∈ names, PlainName n) → NoTables held t)
          ∧ (∀ s', batch d.script t = (.ok (), s') → (AllOrNothing held d s ↔ NoTables held t))
          ∧ ∀ e s', batch d.script t = (.error e, s') →
            (AllOrNothing held d s ↔ held s' = held s) := by
  -- a load ends where the listing fails, where a drop is refused, or with the script
  refine ⟨fun e hnames => ?_, fun names hnames => ⟨dropAll_course names s, ?_, ?_⟩⟩
  · have hload := load_refused hnames d
    exact ⟨hload, (allOrNothing_refused hload).mpr rfl⟩
  · rintro front name rest s₁ e s₂ rfl hfront hrefused
    have hload := load_stops hnames hfront hrefused d
    refine ⟨hload, fun hplain hspared => ?_⟩
    have hheld := h.stopped_held hplain hfront hrefused hspared
    exact ⟨hheld, h.stopped_allOrNothing hnames hload hheld⟩
  · intro t hdrop
    have hload := load_dropped hnames hdrop d
    refine ⟨hload, fun hplain => h.dropAll_noTables hnames hplain hdrop, ?_, ?_⟩
    · intro s' hscript
      rw [hscript] at hload
      rw [allOrNothing_loaded hload, h.whole_iff hscript]
    · intro e s' hscript
      rw [hscript] at hload
      exact allOrNothing_refused hload

end Connection

namespace Database

/-- Two tables, the second with a double quote in its name. -/
def quotedPair : Database := ⟨[⟨"a", [⟨"v", .integer, true, false⟩], [], 0⟩,
  ⟨"b\"c", [⟨"v", .integer, true, false⟩], [], 0⟩]⟩

theorem tableNames_quotedPair :
    Connection.tableNames quotedPair = .ok (["a"] ++ "b\"c" :: []) :=
  congrArg Except.ok (List.mergeSort_of_pairwise (List.pairwise_pair.mpr (by cbv)))

theorem dropAll_quotedPair :
    Connection.dropAll ["a"] quotedPair = (.ok (), (⟨quotedPair.tables.drop 1⟩ : Database)) := by
  rw [Connection.dropAll_cons (batch_drop quotedPair (by decide))]
  rfl

/-- The text for the second name is no command. -/
theorem batch_quotedPair : Connection.batch (Connection.dropText "b\"c")
    (⟨quotedPair.tables.drop 1⟩ : Database) = (.error .malformed, ⟨quotedPair.tables.drop 1⟩) := by
  decide +kernel

/-- A load over these two is refused at the second. -/
theorem load_allOrNothing_quotedPair :
    Connection.load .store quotedPair = (.error .malformed, ⟨quotedPair.tables.drop 1⟩)
      ∧ held ⟨quotedPair.tables.drop 1⟩ = without ["a"] quotedPair.held
      ∧ ¬Connection.AllOrNothing held .store quotedPair := by
  obtain ⟨-, hstopped, -⟩ := (Connection.load_allOrNothing standard .store quotedPair).2 _
    tableNames_quotedPair
  obtain ⟨hload, hlost⟩ := hstopped ["a"] "b\"c" [] _ _ _ rfl dropAll_quotedPair batch_quotedPair
  obtain ⟨hheld, hall⟩ := hlost (by decide) (.inr rfl)
  exact ⟨hload, hheld, fun h => nomatch hall.mp h⟩

/-- A load that is refused has dropped a table. -/
theorem load_loses_table :
    (Connection.load .company quotedPair).1 = .error .malformed
      ∧ quotedPair.names = ["a", "b\"c"]
      ∧ (Connection.load .company quotedPair).2.names = ["b\"c"]
      ∧ ¬Connection.AllOrNothing held .company quotedPair := by
  have hload := Connection.load_stops tableNames_quotedPair dropAll_quotedPair batch_quotedPair
    .company
  refine ⟨by rw [hload], rfl, by rw [hload]; decide, fun hall => ?_⟩
  have hkept := congrFun ((Connection.allOrNothing_refused hload).mp hall) "a"
  exact absurd hkept (by decide +kernel)

end Database

end QueryReplay
