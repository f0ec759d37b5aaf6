import QueryReplay.Proofs.Commands

/-! # Table sets — what the small database takes texts to mean

    Only two kinds of command change which tables the small database has, so the names
    stay when a text holds none of these (`ask_names`), and a command changes no table but
    the one that it names (`perform_held`).  The text for a plain name drops the table of
    that name (`batch_drop`), and the scripts make the tables of their datasets
    (`script_runs`).  It is therefore `Standard`.

    Where the tables are some of those of one dataset, in their order (`Tidy`), nothing is
    refused, and the tables that are held tell the database (`Tidy.eq_of_held`).  It is
    therefore `Orderly` there, and `Determined` by its tables. -/

namespace QueryReplay

open Database

/-- The table that a command is about. -/
def Command.table : Command → String
  | createTable name _ => name
  | dropTable name _ => name
  | insert name _ => name
  | update name _ _ => name
  | delete name _ => name
  | query q => q.table

/-- Whether a command drops no table. -/
def Command.spares : Command → Bool
  | dropTable _ _ => false
  | _ => true

/-- Whether a command makes the table of a name. -/
def Command.makes (name : String) : Command → Bool
  | createTable made _ => made == name
  | _ => false

/-- Only CREATE TABLE makes a table. -/
theorem Command.exists_of_makes {name : String} {c : Command} (h : c.makes name) :
    ∃ columns, c = .createTable name columns := by
  cases c with
  | createTable made columns => exact ⟨columns, by rw [eq_of_beq h]⟩
  | _ => cases h

theorem bind_ok {ε α β : Type} {x : Except ε α} {f : α → Except ε β} {b : β}
    (h : x >>= f = .ok b) : ∃ a, x = .ok a ∧ f a = .ok b := by
  cases x with
  | error e => exact nomatch h
  | ok a => exact ⟨a, rfl, h⟩

/-! ## Rows and names -/

namespace StoredTable

/-- Inserting keeps the name of the table. -/
theorem insert_name {t t' : StoredTable} {rows : List (List Cell)} (h : t.insert rows = .ok t') :
    t'.name = t.name := by
  obtain ⟨fitted, -, h⟩ := bind_ok h
  obtain ⟨-, -, h⟩ := bind_ok h
  obtain ⟨-, -, h⟩ := bind_ok h
  cases h
  rfl

/-- So does updating. -/
theorem update_name {t t' : StoredTable} {values : List (Nat × Cell)} {chosen : StoredRow → Bool}
    (h : t.update values chosen = .ok t') : t'.name = t.name := by
  obtain ⟨-, -, h⟩ := bind_ok h
  obtain ⟨-, -, h⟩ := bind_ok h
  cases h
  show (if _ then _ else _ : StoredTable).name = t.name
  split <;> rfl

end StoredTable

namespace Database

/-- The names of the tables, in the order in which they were made. -/
def names (db : Database) : List String := db.tables.map StoredTable.name

/-- No two names differ in the letter case only. -/
def LettersDiffer (names : List String) : Prop :=
  ∀ a ∈ names, ∀ b ∈ names, Text.sameLetters a b = true → a = b

instance : DecidablePred LettersDiffer := fun names =>
  inferInstanceAs (Decidable (∀ a ∈ names, ∀ b ∈ names, _))

/-- A table that is found is one of the database. -/
theorem table_some {db : Database} {name : String} {t : StoredTable} (h : db.table name = .ok t) :
    t ∈ db.tables := by
  unfold table at h
  split at h
  · next found hfound =>
      cases h
      exact List.mem_of_find?_eq_some hfound
  · exact nomatch h

/-- A table that takes the place of one with its name changes no name. -/
theorem replace_names {db : Database} {t t' : StoredTable} (hdiffer : LettersDiffer db.names)
    (ht : t ∈ db.tables) (hname : t'.name = t.name) : (db.replace t').names = db.names := by
  unfold names replace
  rw [List.map_map]
  refine List.map_congr_left fun old hold => ?_
  simp only [Function.comp_apply]
  split
  · next hsame =>
      rw [hname] at hsame ⊢
      exact (hdiffer old.name (List.mem_map_of_mem hold) t.name (List.mem_map_of_mem ht) hsame).symm
  · rfl

/-- A command that neither makes nor drops a table keeps the names. -/
theorem perform_names {db db' : Database} {c : Command} {answer : Answer}
    (hdiffer : LettersDiffer db.names) (hc : c.keepsTables)
    (h : db.perform c = .ok (answer, db')) : db'.names = db.names := by
  cases c with
  | createTable name columns => exact nomatch hc
  | dropTable name ifExists => exact nomatch hc
  | insert name rows =>
      obtain ⟨t, ht, h⟩ := bind_ok h
      obtain ⟨t', ht', h⟩ := bind_ok h
      cases h
      exact replace_names hdiffer (table_some ht) (StoredTable.insert_name ht')
  | update name values filter? =>
      obtain ⟨t, ht, h⟩ := bind_ok h
      obtain ⟨values', -, h⟩ := bind_ok h
      obtain ⟨chosen, -, h⟩ := bind_ok h
      obtain ⟨t', ht', h⟩ := bind_ok h
      cases h
      exact replace_names hdiffer (table_some ht) (StoredTable.update_name ht')
  | delete name filter? =>
      obtain ⟨t, ht, h⟩ := bind_ok h
      obtain ⟨chosen, -, h⟩ := bind_ok h
      cases h
      exact replace_names hdiffer (table_some ht) rfl
  | query q =>
      obtain ⟨t, -, h⟩ := bind_ok h
      obtain ⟨answer', -, h⟩ := bind_ok h
      cases h
      rfl

/-- The induction is on the commands, each of which finds the names as they were. -/
theorem performAll_names {db : Database} {cs : List Command} {last : Answer}
    (hdiffer : LettersDiffer db.names) (hcs : ∀ c ∈ cs, c.keepsTables) :
    (db.performAll last cs).2.names = db.names := by
  induction cs generalizing db last with
  | nil => rfl
  | cons c rest ih =>
      unfold performAll
      split
      · next answer db' hperform =>
          have hkept := perform_names hdiffer (hcs c List.mem_cons_self) hperform
          rw [ih (hkept ▸ hdiffer) fun d hd => hcs d (List.mem_cons_of_mem c hd), hkept]
      · rfl

/-- A text without commands that make or drop a table keeps the names. -/
theorem ask_names {db : Database} {sql : String} (hdiffer : LettersDiffer db.names)
    (h : ∀ cs, Command.parseAll? sql = some cs → ∀ c ∈ cs, c.keepsTables) :
    (db.ask sql).2.names = db.names := by
  unfold ask
  split
  · next c rest hread => exact performAll_names hdiffer (h _ hread)
  · rfl

/-! ## Tables by name -/

/-- What is listed is what is there. -/
theorem mem_tableNames {db : Database} {name : String} : name ∈ db.tableNames ↔ name ∈ db.names :=
  (List.mergeSort_perm _ _).mem_iff

/-- The table of that very name, with its rows and their identities. -/
def held (db : Database) (name : String) : Option StoredTable :=
  db.tables.find? fun t => t.name == name

/-- A table is held under its name and no other. -/
theorem held_isSome {db : Database} {name : String} : (db.held name).isSome ↔ name ∈ db.names := by
  simp [held, names]

theorem held_eq_none {db : Database} {name : String} : db.held name = none ↔ name ∉ db.names := by
  rw [← held_isSome, Option.isSome_iff_ne_none, not_not]

/-- Only the empty database holds no table. -/
theorem noTables_iff {db : Database} : Connection.NoTables held db ↔ db = empty := by
  constructor
  · intro h
    have hnames : db.names = [] :=
      List.eq_nil_iff_forall_not_mem.mpr fun name => held_eq_none.mp (h name)
    obtain ⟨tables⟩ := db
    exact congrArg Database.mk (List.map_eq_nil_iff.mp hnames)
  · rintro rfl name
    rfl

/-- A table of a name that no other one has is found under it. -/
theorem held_of_mem {db : Database} (h : db.names.Nodup) {t : StoredTable} (ht : t ∈ db.tables) :
    db.held t.name = some t := by
  obtain ⟨found, hfound⟩ :=
    Option.isSome_iff_exists.mp (held_isSome.mpr (List.mem_map_of_mem ht : t.name ∈ db.names))
  have hsame : found.name = t.name := by simpa using List.find?_some hfound
  rw [hfound, List.inj_on_of_nodup_map h (List.mem_of_find?_eq_some hfound) ht hsame]

/-- The names and what is held under them tell the tables. -/
theorem tables_eq {db : Database} (h : db.names.Nodup) :
    db.names.filterMap db.held = db.tables := by
  rw [names, List.filterMap_map]
  refine (List.filterMap_congr fun t ht => ?_).trans List.filterMap_some
  exact held_of_mem h ht

/-! ## Dropping tables -/

/-- The database without the tables of a name. -/
def dropped (db : Database) (name : String) : Database :=
  ⟨db.tables.filter fun t => !Text.sameLetters t.name name⟩

/-- A drop takes one table away and touches no other. -/
theorem dropped_held (db : Database) (name : String) :
    (db.dropped name).held = without [name] db.held := by
  funext n
  unfold held dropped without
  rw [List.find?_filter]
  by_cases hsame : Text.sameLetters n name = true
  · rw [if_pos (by simpa using hsame), List.find?_eq_none]
    rintro t - hkept
    simp only [Bool.not_eq_true', beq_iff_eq, decide_eq_true_eq] at hkept
    rw [hkept.2, hsame] at hkept
    exact nomatch hkept.1
  · rw [if_neg (by simpa using hsame)]
    congr 1
    funext t
    by_cases hname : t.name = n
    · simp [hname, hsame]
    · simp [hname]

/-- The text for a plain name drops the table of that name, or nothing if there is none. -/
theorem batch_drop (db : Database) {name : String} (h : PlainName name) :
    Connection.batch (Connection.dropText name) db = (.ok (), db.dropped name) := by
  have hperform : db.perform (.dropTable name true)
      = .ok (⟨["Success"], []⟩, db.dropped name) := by
    rw [perform, if_neg (by simp)]
    rfl
  show (Except.map _ (db.run (Connection.dropText name)).1, _) = _
  rw [run, parseAll_drop h]
  simp only [performAll, hperform]
  rfl

/-- Dropping tables by plain names leaves those of other names. -/
theorem dropAll_eq (db : Database) {gone : List String} (h : ∀ name ∈ gone, PlainName name) :
    Connection.dropAll gone db
      = (.ok (), ⟨db.tables.filter fun t => !gone.any (Text.sameLetters t.name)⟩) := by
  induction gone generalizing db with
  | nil => simp [Connection.dropAll]
  | cons name rest ih =>
      rw [Connection.dropAll_cons (batch_drop db (h name List.mem_cons_self)),
        ih _ fun other hother => h other (List.mem_cons_of_mem name hother), dropped,
        List.filter_filter]
      simp [Bool.and_comm]

/-- A drop leaves names in their order. -/
theorem dropped_names (db : Database) (name : String) :
    (db.dropped name).names.Sublist db.names :=
  List.filter_sublist.map _

/-! ## Other tables -/

theorem table_eq_ok {db : Database} {name : String} {t : StoredTable} (h : db.table name = .ok t) :
    db.table? name = some t := by
  unfold table at h
  split at h
  · next found hfound =>
      cases h
      exact hfound
  · exact nomatch h

/-- A table that takes the place of another of its name is not in the way of other names. -/
theorem replace_held {db : Database} {t : StoredTable} {name : String}
    (h : Text.sameLetters name t.name = false) : (db.replace t).held name = db.held name := by
  have hother : ∀ old : StoredTable, Text.sameLetters old.name t.name = true → old.name ≠ name := by
    rintro old hsame rfl
    rw [h] at hsame
    cases hsame
  have hself : t.name ≠ name := by
    rintro rfl
    rw [Text.sameLetters_self] at h
    cases h
  unfold held replace
  induction db.tables with
  | nil => rfl
  | cons old rest ih =>
      rw [List.map_cons, List.find?_cons, List.find?_cons, ih]
      by_cases hsame : Text.sameLetters old.name t.name = true
      · rw [if_pos hsame, beq_false_of_ne hself, beq_false_of_ne (hother old hsame)]
      · rw [if_neg hsame]

/-- A command changes no table of another name. -/
theorem perform_held {db db' : Database} {c : Command} {answer : Answer} {name : String}
    (hother : Text.sameLetters name c.table = false) (h : db.perform c = .ok (answer, db')) :
    db'.held name = db.held name := by
  -- INSERT, UPDATE and DELETE put a table back under the name it was found by, and that name
  -- differs from this one in more than case
  have hreplaced : ∀ {t t' : StoredTable}, db.table c.table = .ok t → t'.name = t.name →
      (db.replace t').held name = db.held name := by
    intro t t' ht hname
    refine replace_held (Bool.eq_false_iff.mpr fun hsame => ?_)
    have hfound : db.tables.find? (fun old => Text.sameLetters old.name c.table) = some t :=
      table_eq_ok ht
    have hnamed : Text.sameLetters t.name c.table = true := by simpa using List.find?_some hfound
    rw [hname] at hsame
    rw [Text.sameLetters_iff] at hnamed hsame
    rw [Text.sameLetters_iff.mpr (hsame.trans hnamed)] at hother
    cases hother
  cases c with
  | createTable made columns =>
      rw [perform] at h
      split at h
      · cases h
      · obtain ⟨t, ht, h⟩ := bind_ok h
        cases h
        have hname : t.name ≠ name := by
          have hmade : t.name = made := by
            unfold StoredTable.create at ht
            dsimp only at ht
            split at ht
            · cases ht
            · cases ht
              rfl
          rintro rfl
          rw [← hmade] at hother
          rw [show Text.sameLetters t.name (Command.createTable t.name columns).table = true from
            Text.sameLetters_self _] at hother
          cases hother
        unfold held
        rw [List.find?_append, List.find?_singleton, if_neg (by simpa using hname), Option.or_none]
  | dropTable gone ifExists =>
      rw [perform] at h
      split at h
      · cases h
      · cases h
        have hother : Text.sameLetters name gone = false := hother
        have hkept : without [gone] db.held name = db.held name :=
          if_neg (by simpa using hother)
        exact (congrFun (dropped_held db gone) name).trans hkept
  -- in the three commands that write rows the binds are peeled off up to the table put back
  | insert _ rows =>
      obtain ⟨t, ht, h⟩ := bind_ok h
      obtain ⟨t', ht', h⟩ := bind_ok h
      cases h
      exact hreplaced ht (StoredTable.insert_name ht')
  | update _ values filter? =>
      obtain ⟨t, ht, h⟩ := bind_ok h
      obtain ⟨values', -, h⟩ := bind_ok h
      obtain ⟨chosen, -, h⟩ := bind_ok h
      obtain ⟨t', ht', h⟩ := bind_ok h
      cases h
      exact hreplaced ht (StoredTable.update_name ht')
  | delete _ filter? =>
      obtain ⟨t, ht, h⟩ := bind_ok h
      obtain ⟨chosen, -, h⟩ := bind_ok h
      cases h
      exact hreplaced ht rfl
  | query q =>
      obtain ⟨t, -, h⟩ := bind_ok h
      obtain ⟨answer', -, h⟩ := bind_ok h
      cases h
      rfl

/-- Commands about other tables leave a table alone. -/
theorem performAll_held {db : Database} {cs : List Command} {last : Answer} {name : String}
    (hother : ∀ c ∈ cs, Text.sameLetters name c.table = false) :
    (db.performAll last cs).2.held name = db.held name := by
  induction cs generalizing db last with
  | nil => rfl
  | cons c rest ih =>
      unfold performAll
      split
      · next answer db' hperform =>
          rw [ih fun d hd => hother d (List.mem_cons_of_mem c hd),
            perform_held (hother c List.mem_cons_self) hperform]
      · rfl

/-- There is a table of this name, in any letter case. -/
def Has (db : Database) (name : String) : Prop :=
  ∃ n ∈ db.names, Text.sameLetters n name = true

/-- A table that is there stays there. -/
theorem replace_has {db : Database} {t : StoredTable} {name : String} (h : db.Has name) :
    (db.replace t).Has name := by
  obtain ⟨n, hn, hsame⟩ := h
  obtain ⟨old, hold, rfl⟩ := List.mem_map.mp hn
  refine ⟨_, List.mem_map_of_mem (List.mem_map_of_mem hold), ?_⟩
  split
  · next htaken =>
      rw [Text.sameLetters_iff] at htaken hsame ⊢
      exact htaken.symm.trans hsame
  · exact hsame

/-- Only a command that drops a table takes a name away. -/
theorem perform_has {db db' : Database} {c : Command} {answer : Answer} {name : String}
    (hspares : c.spares) (hhas : db.Has name) (h : db.perform c = .ok (answer, db')) :
    db'.Has name := by
  -- only DROP takes a table away; the others leave it, add one, or put one back under its name
  cases c with
  | createTable made columns =>
      rw [perform] at h
      split at h
      · cases h
      · obtain ⟨t, -, h⟩ := bind_ok h
        cases h
        obtain ⟨n, hn, hsame⟩ := hhas
        refine ⟨n, ?_, hsame⟩
        unfold names
        rw [List.map_append]
        exact List.mem_append_left _ hn
  | dropTable gone ifExists => cases hspares
  | insert written rows =>
      obtain ⟨t, -, h⟩ := bind_ok h
      obtain ⟨t', -, h⟩ := bind_ok h
      cases h
      exact replace_has hhas
  | update written values filter? =>
      obtain ⟨t, -, h⟩ := bind_ok h
      obtain ⟨values', -, h⟩ := bind_ok h
      obtain ⟨chosen, -, h⟩ := bind_ok h
      obtain ⟨t', -, h⟩ := bind_ok h
      cases h
      exact replace_has hhas
  | delete written filter? =>
      obtain ⟨t, -, h⟩ := bind_ok h
      obtain ⟨chosen, -, h⟩ := bind_ok h
      cases h
      exact replace_has hhas
  | query q =>
      obtain ⟨t, -, h⟩ := bind_ok h
      obtain ⟨answer', -, h⟩ := bind_ok h
      cases h
      exact hhas

/-- Commands that make a table and drop none run only where there is none of its name. -/
theorem performAll_apart {db db' : Database} {cs : List Command} {last answer : Answer}
    {name : String} {columns : List StoredColumn} (hspares : ∀ c ∈ cs, c.spares)
    (hmakes : .createTable name columns ∈ cs) (h : db.performAll last cs = (.ok answer, db')) :
    ¬db.Has name := by
  intro hhas
  induction cs generalizing db last with
  | nil => cases hmakes
  | cons c rest ih =>
      unfold performAll at h
      split at h
      · next answer' db₁ hperform =>
          rcases List.mem_cons.mp hmakes with rfl | hmakes
          · -- the table is there already
            obtain ⟨n, hn, hsame⟩ := hhas
            obtain ⟨t, ht, rfl⟩ := List.mem_map.mp hn
            rw [perform] at hperform
            split at hperform
            · cases hperform
            · next hnone => exact absurd hsame (List.find?_eq_none.mp hnone t ht)
          · exact ih (fun d hd => hspares d (List.mem_cons_of_mem c hd)) hmakes h
              (perform_has (hspares c List.mem_cons_self) hhas hperform)
      · cases h

/-! ## Datasets -/

/-- The commands in the characters of a text. -/
def commandsOf? (cs : List Char) : Option (List Command) :=
  (Sql.Lexer.tokens? (Sql.Lexer.gap cs.length cs).2.length (Sql.Lexer.gap cs.length cs).2).bind
    fun ts => CommandReader.commandsUpTo (ts.length + 1) ts

theorem parseAll_ofList (cs : List Char) :
    Command.parseAll? (String.ofList cs) = commandsOf? cs := by
  unfold Command.parseAll? commandsOf? Sql.TokenStream.ofString?
  rw [String.toList_ofList]
  simp only [Option.bind_map]
  rfl

/-- The characters are those of commands that run on these tables, and this holds of the
    commands and of what they leave. -/
def Runs (tables : List StoredTable) (check : List Command → Database → Bool)
    (cs : List Char) : Bool :=
  match commandsOf? cs with
  | some commands =>
    let (result, db) := performAll ⟨tables⟩ {} commands
    result.isOk && check commands db
  | none => false

/-- What runs in a check runs as a batch. -/
theorem batch_runs {tables : List StoredTable} {check : List Command → Database → Bool}
    {cs : List Char} (h : Runs tables check cs) :
    ∃ commands db, Command.parseAll? (String.ofList cs) = some commands
      ∧ Connection.batch (String.ofList cs) (⟨tables⟩ : Database) = (.ok (), db)
      ∧ check commands db := by
  unfold Runs at h
  split at h
  · next commands hcommands =>
      obtain ⟨hok, hcheck⟩ := Bool.and_eq_true_iff.mp h
      refine ⟨commands, _, by rw [parseAll_ofList, hcommands], ?_, hcheck⟩
      show (Except.map _ (run ⟨tables⟩ (String.ofList cs)).1, _) = _
      rw [run, parseAll_ofList, hcommands]
      dsimp only
      cases hresult : (performAll ⟨tables⟩ {} commands).1 with
      | error e =>
          rw [hresult] at hok
          cases hok
      | ok answer => rfl
  · cases h

/-- The commands are about tables of the dataset, drop none and make each, and these are
    the tables there are then. -/
def makesAll (d : Dataset) (commands : List Command) (db : Database) : Bool :=
  db.names == d.tables && commands.all (fun c => d.tables.contains c.table && c.spares)
    && d.tables.all fun name => commands.any (·.makes name)

set_option maxRecDepth 20000 in
/-- The characters of the scripts are compared as they are: taken from the text, each
    would be decoded again. -/
theorem script_runs (d : Dataset) :
    ∃ commands db, Command.parseAll? d.script = some commands
      ∧ Connection.batch d.script empty = (.ok (), db) ∧ makesAll d commands db := by
  have hruns : ∃ cs, d.script = String.ofList cs ∧ Runs [] (makesAll d) cs := by
    cases d with
    | company =>
        show ∃ cs, Dataset.companyScript = String.ofList cs ∧ _
        unfold Dataset.companyScript
        exact ⟨_, rfl, by decide +kernel⟩
    | store =>
        show ∃ cs, Dataset.storeScript = String.ofList cs ∧ _
        unfold Dataset.storeScript
        exact ⟨_, rfl, by decide +kernel⟩
  obtain ⟨cs, hscript, hruns⟩ := hruns
  rw [hscript]
  exact batch_runs hruns

/-- A database without tables is loaded with a dataset. -/
theorem load_empty (d : Dataset) :
    Connection.load d empty = (.ok (), ofDataset d) ∧ (ofDataset d).names = d.tables := by
  obtain ⟨commands, made, -, hbatch, hcheck⟩ := script_runs d
  simp only [makesAll, Bool.and_eq_true, beq_iff_eq] at hcheck
  have hnone : Connection.tableNames empty = .ok [] := congrArg Except.ok List.mergeSort_nil
  have hload : Connection.load d empty = (.ok (), made) := by
    rw [Connection.load_dropped hnone rfl, hbatch]
  have hmade : ofDataset d = made := congrArg Prod.snd hload
  rw [hmade]
  exact ⟨hload, hcheck.1.1⟩

/-- What runs when the script of a dataset does. -/
theorem performAll_of_script {d : Dataset} {db db' : Database}
    (h : Connection.batch d.script db = (.ok (), db')) :
    ∃ commands answer, db.performAll {} commands = (.ok answer, db')
      ∧ (∀ c ∈ commands, c.table ∈ d.tables ∧ c.spares)
      ∧ ∀ name ∈ d.tables, ∃ columns, .createTable name columns ∈ commands := by
  obtain ⟨commands, made, hparse, -, hcheck⟩ := script_runs d
  simp only [makesAll, Bool.and_eq_true, List.all_eq_true, List.contains_iff_mem,
    List.any_eq_true] at hcheck
  have hrun : db.run d.script = db.performAll {} commands := by rw [run, hparse]
  rcases hall : db.performAll {} commands with ⟨e | answer, left⟩
  · have hbatch : Connection.batch d.script db
        = ((db.run d.script).1.map fun _ => (), (db.run d.script).2) := rfl
    rw [hbatch, hrun, hall] at h
    cases h
  · have hbatch : Connection.batch d.script db
        = ((db.run d.script).1.map fun _ => (), (db.run d.script).2) := rfl
    rw [hbatch, hrun, hall] at h
    cases h
    refine ⟨commands, answer, hall, hcheck.1.2, fun name hname => ?_⟩
    obtain ⟨c, hc, hmakes⟩ := hcheck.2 name hname
    obtain ⟨columns, rfl⟩ := Command.exists_of_makes hmakes
    exact ⟨columns, hc⟩

/-- **STANDARD**: the commands that load a dataset mean what they say. -/
theorem standard : Connection.Standard held where
  listed hnames name := by
    cases hnames
    rw [mem_tableNames, held_isSome]
  dropped {db db' name} hplain hbatch := by
    rw [batch_drop db hplain] at hbatch
    cases hbatch
    exact dropped_held db name
  spared {db db' name e} hplain hbatch := by
    rw [batch_drop db hplain] at hbatch
    cases hbatch
  apart {d db db' name} hbatch hown := by
    obtain ⟨own, hmem, hsame⟩ := List.any_eq_true.mp hown
    obtain ⟨commands, answer, hrun, hcommands, hmakes⟩ := performAll_of_script hbatch
    obtain ⟨columns, hcreate⟩ := hmakes own hmem
    have hfree := performAll_apart (fun c hc => (hcommands c hc).2) hcreate hrun
    exact held_eq_none.mpr fun hname => hfree ⟨name, hname, hsame⟩
  beside {d db db' name} hbatch hother := by
    obtain ⟨commands, answer, hrun, hcommands, -⟩ := performAll_of_script hbatch
    have hkept : (db.performAll {} commands).2.held name = db.held name :=
      performAll_held fun c hc => by
        simpa using List.any_eq_false.mp hother c.table (hcommands c hc).1
    rwa [hrun] at hkept
  made hs ht hbatch hbatch' := by
    rw [noTables_iff.mp hs] at hbatch
    rw [noTables_iff.mp ht, hbatch] at hbatch'
    cases hbatch'
    rfl

/-! ## Tidy databases -/

/-- The tables are some of those of a dataset, in their order. -/
def Tidy (db : Database) : Prop := ∃ d : Dataset, db.names.Sublist d.tables

/-- The tables of a dataset are told apart by name. -/
theorem Tidy.nodup {db : Database} (h : db.Tidy) : db.names.Nodup := by
  obtain ⟨d, hd⟩ := h
  exact (nodup_tables d).sublist hd

/-- Tidy databases have plain names only. -/
theorem Tidy.plainName {db : Database} (h : db.Tidy) {name : String} (hname : name ∈ db.names) :
    PlainName name := by
  obtain ⟨d, hd⟩ := h
  exact plainName_tables d name (hd.subset hname)

/-- Their names differ in more than letter case. -/
theorem Tidy.lettersDiffer {db : Database} (h : db.Tidy) : LettersDiffer db.names := by
  obtain ⟨d, hd⟩ := h
  have hdiffer : LettersDiffer d.tables := by cases d <;> decide
  exact fun a ha b hb => hdiffer a (hd.subset ha) b (hd.subset hb)

/-- The empty database is tidy. -/
theorem tidy_empty : empty.Tidy := ⟨.company, List.nil_sublist _⟩

/-- Some tables of a dataset are told by which they are, and tell the dataset. -/
theorem sublist_tables_eq {d d' : Dataset} {names names' : List String}
    (h : names.Sublist d.tables) (h' : names'.Sublist d'.tables)
    (hmem : ∀ name, name ∈ names ↔ name ∈ names') : names = names' := by
  have hall : ∀ d d' : Dataset, ∀ names ∈ d.tables.sublists, ∀ names' ∈ d'.tables.sublists,
      (∀ name ∈ names, name ∈ names') → (∀ name ∈ names', name ∈ names) → names = names' := by
    intro d d'
    cases d <;> cases d' <;> decide +kernel
  exact hall d d' names (List.mem_sublists.mpr h) names' (List.mem_sublists.mpr h')
    (fun name => (hmem name).mp) (fun name => (hmem name).mpr)

/-- A tidy database is told by the tables that are held. -/
theorem Tidy.eq_of_held {db db' : Database} (h : db.Tidy) (h' : db'.Tidy)
    (hheld : db.held = db'.held) : db = db' := by
  have hnames : db.names = db'.names := by
    obtain ⟨d, hd⟩ := h
    obtain ⟨d', hd'⟩ := h'
    refine sublist_tables_eq hd hd' fun name => ?_
    rw [← held_isSome, ← held_isSome, hheld]
  have htables : db.tables = db'.tables := by
    rw [← tables_eq h.nodup, ← tables_eq h'.nodup, hnames, hheld]
  exact congrArg Database.mk htables

/-- Dropping a table keeps a database tidy. -/
theorem Tidy.dropped {db : Database} (h : db.Tidy) (name : String) : (db.dropped name).Tidy := by
  obtain ⟨d, hd⟩ := h
  exact ⟨d, (dropped_names db name).trans hd⟩

/-- An admissible text changes rows at most. -/
theorem Tidy.ask {db : Database} (h : db.Tidy) {sql : String} (hsql : Sql.Admissible sql) :
    (db.ask sql).2.Tidy ∧ (db.ask sql).2.names = db.names := by
  have hnames : (db.ask sql).2.names = db.names :=
    ask_names h.lettersDiffer fun cs hcs => keepsTables_of_admissible hsql hcs
  obtain ⟨d, hd⟩ := h
  exact ⟨⟨d, hnames ▸ hd⟩, hnames⟩

/-- The rows of a table that is there can be counted. -/
theorem number_count {db : Database} {name : String} (hplain : PlainName name)
    (hname : name ∈ db.names) :
    ∃ n, Connection.number (Connection.countText name) db = (.ok n, db) := by
  obtain ⟨t, ht, rfl⟩ := List.mem_map.mp hname
  obtain ⟨found, hfound⟩ : ∃ found, db.table t.name = .ok found := by
    unfold table table?
    split
    · next found _ => exact ⟨found, rfl⟩
    · next hnone =>
        exact absurd (Text.sameLetters_self t.name) (List.find?_eq_none.mp hnone t ht)
  have hask : db.ask (Connection.countText t.name)
      = (.ok ⟨["count_star()"], [[.integer found.rows.length]]⟩, db) := by
    rw [ask, parseAll_count hplain]
    simp only [performAll, perform, CommandReader.countQuery, hfound]
    rfl
  refine ⟨found.rows.length, ?_⟩
  show (Except.bind (db.ask (Connection.countText t.name)).1 firstNumber, _) = _
  rw [hask]
  rfl

/-- **ORDERLY**: with some tables of one dataset nothing is refused. -/
theorem orderly : Connection.Orderly held Tidy where
  toStandard := standard
  plain {db} h :=
    ⟨db.tableNames, rfl, (List.mergeSort_perm _ _).nodup_iff.mpr h.nodup,
      fun name hname => h.plainName (mem_tableNames.mp hname)⟩
  drops {db name} h hplain := ⟨db.dropped name, batch_drop db hplain, h.dropped name⟩
  makes {d db} h hnone := by
    obtain ⟨commands, made, -, hbatch, hcheck⟩ := script_runs d
    have hnames : made.names = d.tables := by
      simp only [makesAll, Bool.and_eq_true, beq_iff_eq] at hcheck
      exact hcheck.1.1
    refine ⟨made, by rw [noTables_iff.mp hnone, hbatch], ⟨d, hnames ▸ .refl _⟩, fun name => ?_⟩
    rw [held_isSome, hnames]
  keeps {db sql} h hsql := by
    obtain ⟨htidy, hnames⟩ := h.ask hsql
    refine ⟨htidy, fun name => ?_⟩
    rw [Bool.eq_iff_iff, held_isSome, held_isSome, ← hnames]
    rfl
  tells {db name} h hname := by
    have hmem := held_isSome.mp hname
    obtain ⟨n, hnumber⟩ := number_count (h.plainName hmem) hmem
    exact ⟨⟨db.columnsOf name, rfl⟩, n, db, hnumber, h, rfl⟩

/-- **DETERMINED**: the tables that are held tell the database, and so all its answers. -/
theorem determined : Connection.Determined held Tidy Sql.Admissible where
  answers {db db' sql} h hsql := by
    obtain rfl := h.left.eq_of_held h.right h.same
    obtain ⟨htidy, -⟩ := h.left.ask hsql
    exact ⟨rfl, htidy, htidy, rfl⟩
  lists {db db'} h := by rw [h.left.eq_of_held h.right h.same]
  describes {db db'} name h := by rw [h.left.eq_of_held h.right h.same]
  counts {db db' name} h _ := by rw [h.left.eq_of_held h.right h.same]

end Database

end QueryReplay
