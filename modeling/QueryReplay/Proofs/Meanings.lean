import QueryReplay.Engine.Connection
import QueryReplay.Proofs.Statements

/-! # Meanings — what a database system takes texts to mean

    Nothing is known of a database system but what it can be asked.  What is proved
    about one names what its texts mean to it, as far as they are put together here:

    * `held` tells which tables a state holds: under each name a table with its
      columns, its rows and their identities, whatever these are made of;
    * `Standard`: the text for a plain name drops the table of that name or is refused,
      and the script of a dataset makes its tables beside the others or is refused.  It
      may be refused for what else there is in the database: a table that refers to
      another, a view of a name that is to be made;
    * `tidy` tells the states in which nothing is in the way, and `Orderly` says that
      nothing is refused there and that single statements leave it so;
    * `Determined`: a class of texts whose answers depend on the tables alone.

    A load is then known by how far it comes (`dropAll_course`); in a tidy state it comes
    to its end (`Orderly.load_tidy`). -/

namespace QueryReplay

/-- The name is not empty and stands for itself in double quotes. -/
def PlainName (name : String) : Prop := name ≠ "" ∧ '"' ∉ name.toList

instance : DecidablePred PlainName := fun _ => inferInstanceAs (Decidable (_ ∧ _))

/-- The tables of the datasets have plain names. -/
theorem plainName_tables (d : Dataset) : ∀ name ∈ d.tables, PlainName name := by
  cases d <;> decide

theorem nodup_tables (d : Dataset) : d.tables.Nodup := by
  cases d <;> decide

/-- Tables by name, without those of some names in any letter case. -/
def without {τ : Type} (names : List String) (tables : String → Option τ) (name : String) :
    Option τ :=
  if names.any (Text.sameLetters name) then none else tables name

theorem without_nil {τ : Type} (tables : String → Option τ) : without [] tables = tables := rfl

/-- Taking away twice is taking away all of both. -/
theorem without_without {τ : Type} (names more : List String) (tables : String → Option τ) :
    without more (without names tables) = without (names ++ more) tables := by
  funext name
  unfold without
  rw [List.any_append]
  cases names.any (Text.sameLetters name) <;> simp

/-- A name that is dropped is gone. -/
theorem without_of_mem {τ : Type} {names : List String} {name : String} (h : name ∈ names)
    (tables : String → Option τ) : without names tables name = none :=
  if_pos (List.any_eq_true.mpr ⟨name, h, Text.sameLetters_self name⟩)

namespace Connection

variable {σ ε τ : Type} [Connection σ ε] {held : σ → String → Option τ} {tidy : σ → Prop}
variable {d : Dataset} {names : List String} {s s' : σ} {e : ε}

/-! ## What texts mean -/

/-- There are no tables. -/
def NoTables (held : σ → String → Option τ) (s : σ) : Prop := ∀ name, held s name = none

/-- The commands that load a dataset mean what they say.  Each takes effect by itself, and
    one that is refused changes no table. -/
structure Standard (held : σ → String → Option τ) : Prop where
  /-- The tables that are listed are those that are held. -/
  listed {s : σ} {names : List String} : tableNames s = .ok names →
    ∀ name, name ∈ names ↔ (held s name).isSome
  /-- The text for a plain name drops the table of this name, in any letter case, and no
      other. -/
  dropped {s s' : σ} {name : String} : PlainName name →
    batch (dropText name) s = (.ok (), s') → held s' = without [name] (held s)
  spared {s s' : σ} {name : String} {e : ε} : PlainName name →
    batch (dropText name) s = (.error e, s') → held s' = held s
  /-- The script of a dataset runs only where no table is called like one of its own. -/
  apart {d : Dataset} {s s' : σ} {name : String} : batch d.script s = (.ok (), s') →
    d.tables.any (Text.sameLetters name) → held s name = none
  /-- When it runs it leaves the other tables. -/
  beside {d : Dataset} {s s' : σ} {name : String} : batch d.script s = (.ok (), s') →
    d.tables.any (Text.sameLetters name) = false → held s' name = held s name
  /-- Where there are no tables it always makes the same. -/
  made {d : Dataset} {s s' t t' : σ} : NoTables held s → NoTables held t →
    batch d.script s = (.ok (), s') → batch d.script t = (.ok (), t') → held s' = held t'

/-- In a tidy state nothing is refused that loads a dataset or looks at a table, and such
    commands and single statements that read or write rows keep it tidy. -/
structure Orderly (held : σ → String → Option τ) (tidy : σ → Prop) : Prop
    extends Standard held where
  plain {s : σ} : tidy s → ∃ names, tableNames s = .ok names ∧ names.Nodup
    ∧ ∀ name ∈ names, PlainName name
  drops {s : σ} {name : String} : tidy s → PlainName name →
    ∃ s', batch (dropText name) s = (.ok (), s') ∧ tidy s'
  /-- The scripts run without error and make the tables of their dataset. -/
  makes {d : Dataset} {s : σ} : tidy s → NoTables held s →
    ∃ s', batch d.script s = (.ok (), s') ∧ tidy s' ∧ ∀ name, (held s' name).isSome ↔ name ∈ d.tables
  /-- A single SELECT, INSERT, UPDATE or DELETE makes and drops no table. -/
  keeps {s : σ} {sql : String} : tidy s → Sql.Admissible sql →
    tidy (query sql s).2 ∧ ∀ name, (held (query sql s).2 name).isSome = (held s name).isSome
  /-- A table that is there can be told of, and that changes nothing. -/
  tells {s : σ} {name : String} : tidy s → (held s name).isSome →
    (∃ cs, columns name s = .ok cs)
      ∧ ∃ n s', number (countText name) s = (.ok n, s') ∧ tidy s' ∧ held s' = held s

/-- Two tidy states with the same tables. -/
structure Alike (held : σ → String → Option τ) (tidy : σ → Prop) (s t : σ) : Prop where
  left : tidy s
  right : tidy t
  same : held s = held t

/-- What is answered to these texts, and what is listed and counted, depends on the tables
    alone, and so does what the texts leave. -/
structure Determined (held : σ → String → Option τ) (tidy : σ → Prop) (texts : String → Prop) :
    Prop where
  answers {s t : σ} {sql : String} : Alike held tidy s t → texts sql →
    (query sql s).1 = (query sql t).1 ∧ Alike held tidy (query sql s).2 (query sql t).2
  lists {s t : σ} : Alike held tidy s t → tableNames s = tableNames t
  describes {s t : σ} (name : String) : Alike held tidy s t → columns name s = columns name t
  counts {s t : σ} {name : String} : Alike held tidy s t → (held s name).isSome →
    (number (countText name) s).1 = (number (countText name) t).1

/-! ## Dropping tables -/

/-- What the first text leaves is where the others begin. -/
theorem dropAll_cons {name : String} {rest : List String}
    (h : batch (dropText name) s = (.ok (), s')) : dropAll (name :: rest) s = dropAll rest s' := by
  rw [dropAll, h]

/-- The names in front are dropped first, and the others after them. -/
theorem dropAll_append {first : List String} (more : List String)
    (h : dropAll first s = (.ok (), s')) : dropAll (first ++ more) s = dropAll more s' := by
  induction first generalizing s with
  | nil =>
      cases h
      rfl
  | cons name rest ih =>
      rw [dropAll] at h
      rw [List.cons_append, dropAll]
      split at h
      · exact ih h
      · cases h

/-- Dropping goes on to the end, or to the first text that is refused. -/
theorem dropAll_course (names : List String) (s : σ) :
    (∃ s', dropAll names s = (.ok (), s'))
      ∨ ∃ front name rest s' e t, names = front ++ name :: rest ∧ dropAll front s = (.ok (), s')
        ∧ batch (dropText name) s' = (.error e, t) := by
  induction names generalizing s with
  | nil => exact .inl ⟨s, rfl⟩
  | cons name rest ih =>
      rcases hbatch : batch (dropText name) s with ⟨e | _, t⟩
      · exact .inr ⟨[], name, rest, s, e, t, rfl, rfl, hbatch⟩
      · rcases ih t with ⟨s', hrest⟩ | ⟨front, name', rest', s', e, t', hsplit, hfront, hrefused⟩
        · exact .inl ⟨s', by rw [dropAll_cons hbatch, hrest]⟩
        · refine .inr ⟨name :: front, name', rest', s', e, t', by rw [hsplit]; rfl, ?_, hrefused⟩
          rw [dropAll_cons hbatch, hfront]

/-- Dropping plain names that are not refused leaves the tables without them. -/
theorem Standard.dropAll_held (h : Standard held) (hplain : ∀ name ∈ names, PlainName name)
    (hdrop : dropAll names s = (.ok (), s')) : held s' = without names (held s) := by
  induction names generalizing s with
  | nil =>
      cases hdrop
      rfl
  | cons name rest ih =>
      rcases hbatch : batch (dropText name) s with ⟨e | _, t⟩
      · rw [dropAll, hbatch] at hdrop
        cases hdrop
      · rw [dropAll_cons hbatch] at hdrop
        rw [ih (fun n hn => hplain n (List.mem_cons_of_mem name hn)) hdrop,
          h.dropped (hplain name List.mem_cons_self) hbatch, without_without]
        rfl

/-- When all tables are dropped there are none. -/
theorem Standard.dropAll_noTables (h : Standard held) (hnames : tableNames s = .ok names)
    (hplain : ∀ name ∈ names, PlainName name) (hdrop : dropAll names s = (.ok (), s')) :
    NoTables held s' := by
  intro name
  rw [h.dropAll_held hplain hdrop]
  by_cases hmem : name ∈ names
  · exact without_of_mem hmem _
  · have hnone : held s name = none := by simpa using (h.listed hnames name).not.mp hmem
    unfold without
    split
    · rfl
    · exact hnone

/-! ## How far a load comes -/

/-- The state is what the script of the dataset makes where there are no tables. -/
def Fresh (held : σ → String → Option τ) (d : Dataset) (s : σ) : Prop :=
  ∃ t, NoTables held t ∧ batch d.script t = (.ok (), s)

/-- The tables are those of a fresh database with the dataset. -/
def Whole (held : σ → String → Option τ) (d : Dataset) (s : σ) : Prop :=
  ∃ t, Fresh held d t ∧ held s = held t

/-- A load keeps the tables when it is refused, and leaves those of a fresh database when
    it is not. -/
def AllOrNothing (held : σ → String → Option τ) (d : Dataset) (s : σ) : Prop :=
  (∀ e, (load d s).1 = .error e → held (load d s).2 = held s)
    ∧ ((load d s).1 = .ok () → Whole held d (load d s).2)

/-- A fresh state is a whole one. -/
theorem Fresh.whole (h : Fresh held d s) : Whole held d s := ⟨s, h, rfl⟩

/-- A load that is refused must have changed no table. -/
theorem allOrNothing_refused (h : load d s = (.error e, s')) :
    AllOrNothing held d s ↔ held s' = held s := by
  unfold AllOrNothing
  rw [h]
  exact ⟨fun hall => hall.1 e rfl, fun hsame => ⟨fun _ _ => hsame, nofun⟩⟩

/-- A load that succeeds must have left the tables of the dataset and no others. -/
theorem allOrNothing_loaded (h : load d s = (.ok (), s')) :
    AllOrNothing held d s ↔ Whole held d s' := by
  unfold AllOrNothing
  rw [h]
  exact ⟨fun hall => hall.2 rfl, fun hwhole => ⟨nofun, fun _ => hwhole⟩⟩

/-- Whatever fresh database is taken, the tables are the same. -/
theorem Standard.whole_eq (h : Standard held) (hs : Whole held d s) (hs' : Whole held d s') :
    held s = held s' := by
  obtain ⟨t, ⟨u, hu, hut⟩, hst⟩ := hs
  obtain ⟨t', ⟨u', hu', hut'⟩, hst'⟩ := hs'
  rw [hst, hst', h.made hu hu' hut hut']

/-- When the tables cannot be listed nothing is touched. -/
theorem load_refused (hnames : tableNames s = .error e) (d : Dataset) :
    load d s = (.error e, s) := by
  rw [load, hnames]

/-- Behind the drops the script is run, and its outcome is that of the load. -/
theorem load_dropped (hnames : tableNames s = .ok names) (hdrop : dropAll names s = (.ok (), s'))
    (d : Dataset) : load d s = batch d.script s' := by
  rw [load, hnames]
  simp only [hdrop]

/-- The first text that is refused ends a load. -/
theorem load_stops {front rest : List String} {name : String} {t : σ}
    (hnames : tableNames s = .ok (front ++ name :: rest)) (hfront : dropAll front s = (.ok (), s'))
    (hrefused : batch (dropText name) s' = (.error e, t)) (d : Dataset) :
    load d s = (.error e, t) := by
  rw [load, hnames]
  simp only [dropAll_append _ hfront, dropAll, hrefused]

/-! ## Loads in tidy states -/

/-- Plain names are dropped one by one without a refusal, from a tidy state to a tidy one. -/
theorem Orderly.dropAll_tidy (h : Orderly held tidy) (hs : tidy s)
    (hplain : ∀ name ∈ names, PlainName name) :
    ∃ s', dropAll names s = (.ok (), s') ∧ tidy s' := by
  induction names generalizing s with
  | nil => exact ⟨s, rfl, hs⟩
  | cons name rest ih =>
      obtain ⟨t, hbatch, ht⟩ := h.drops hs (hplain name List.mem_cons_self)
      rw [dropAll_cons hbatch]
      exact ih ht fun n hn => hplain n (List.mem_cons_of_mem name hn)

/-- In a tidy state a load succeeds, whatever tables there are. -/
theorem Orderly.load_tidy (h : Orderly held tidy) (hs : tidy s) (d : Dataset) :
    ∃ s', load d s = (.ok (), s') ∧ tidy s' ∧ Fresh held d s'
      ∧ ∀ name, (held s' name).isSome ↔ name ∈ d.tables := by
  obtain ⟨names, hnames, -, hplain⟩ := h.plain hs
  obtain ⟨t, hdrop, ht⟩ := h.dropAll_tidy hs hplain
  have hnone := h.dropAll_noTables hnames hplain hdrop
  obtain ⟨s', hscript, htidy, hmade⟩ := h.makes (d := d) ht hnone
  exact ⟨s', by rw [load_dropped hnames hdrop, hscript], htidy, ⟨t, hnone, hscript⟩, hmade⟩

/-- Loads over tidy states end alike. -/
theorem Orderly.load_alike (h : Orderly held tidy) (hs : tidy s) (hs' : tidy s') (d : Dataset) :
    ∃ t t', load d s = (.ok (), t) ∧ load d s' = (.ok (), t') ∧ Alike held tidy t t' := by
  obtain ⟨t, hload, ht, hfresh, -⟩ := h.load_tidy hs d
  obtain ⟨t', hload', ht', hfresh', -⟩ := h.load_tidy hs' d
  exact ⟨t, t', hload, hload', ht, ht', h.whole_eq hfresh.whole hfresh'.whole⟩

end Connection

end QueryReplay
