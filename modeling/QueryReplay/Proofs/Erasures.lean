import QueryReplay.Proofs.Sessions

/-! # Erasures — nobody can tell what came before a reset

    Two services are alike when the same dataset is active and the same tables are held.
    As far as the answers of the database system depend on the tables alone
    (`Connection.Determined`):

    * a replay goes the same way on both (`replay_alike`), and the tables are told of in the
      same way (`Orderly.info_alike`);
    * so they respond alike to a request, and are alike after it (`handle_alike`);
    * hence to any sequence of requests (`handleAll_alike`).

    A dataset that is loaded leaves nothing of what was before, so services are alike after
    they were reset to one dataset (`reset_erases_session`).  A table whose name ends the
    quotes around it outlives the reset (`reset_leaves_quoted`). -/

namespace QueryReplay

open Connection (Orderly Determined Whole)

/-! ## Replays on the same tables -/

section System

variable {σ ε τ : Type} [Connection σ ε] [ToString ε] {held : σ → String → Option τ}
variable {tidy : σ → Prop} {texts : String → Prop}

/-- Where the answers depend on the tables alone, so does the outcome of a replay. -/
theorem replay_alike (hd : Determined held tidy texts) {sql : String}
    (hsql : (Replay.statement (Sql.normalize sql)).Asks texts) {db db' : σ}
    (h : Connection.Alike held tidy db db') :
    Connection.Alike held tidy (replay Connection.engine sql db).state
        (replay Connection.engine sql db').state
      ∧ (replay Connection.engine sql db).outcome
        = (replay Connection.engine sql db').outcome := by
  obtain ⟨hstate, hsame⟩ := Dialogue.run_alike Connection.engine (Connection.Alike held tidy)
    (fun s t hst => congrArg Except.toOption (hd.lists hst))
    (fun call hcall s t hst => by
      obtain ⟨hanswer, hafter⟩ := hd.answers hst hcall
      obtain ⟨hs, hs'⟩ := Connection.engine_execute call s
      obtain ⟨ht, ht'⟩ := Connection.engine_execute call t
      rw [hs, ht, hs', ht', hanswer]
      exact ⟨rfl, hafter⟩)
    hsql h
  rw [replay_state, replay_state]
  refine ⟨hstate, ?_⟩
  unfold replay
  generalize (Replay.statement (Sql.normalize sql)).run Connection.engine db = t at hsame
  rw [hsame]
  cases hresult : t.result <;> simp only [hresult]

end System

/-! ## Listings of the same tables -/

namespace Connection

variable {σ ε τ : Type} [Connection σ ε] {held : σ → String → Option τ} {tidy : σ → Prop}
variable {texts : String → Prop}

/-- Between tidy states with the same tables nothing that is told of them tells. -/
theorem Orderly.tableInfos_alike (h : Orderly held tidy) (hd : Determined held tidy texts)
    {names : List String} {db db' : σ} (hdb : Alike held tidy db db')
    (hnames : ∀ name ∈ names, (held db name).isSome) :
    (tableInfos names db).1 = (tableInfos names db').1
      ∧ Alike held tidy (tableInfos names db).2 (tableInfos names db').2 := by
  induction names generalizing db db' with
  | nil => exact ⟨rfl, hdb⟩
  | cons name rest ih =>
      have hname := hnames name List.mem_cons_self
      obtain ⟨⟨cs, hcolumns⟩, n, db₁, hnumber, htidy₁, hheld₁⟩ := h.tells hdb.left hname
      obtain ⟨-, n', db₁', hnumber', htidy₁', hheld₁'⟩ := h.tells hdb.right (hdb.same ▸ hname)
      obtain rfl : n = n' := by
        have hcount := hd.counts hdb hname
        rw [hnumber, hnumber'] at hcount
        exact Except.ok.inj hcount
      have hcolumns' : columns name db' = .ok cs := hd.describes name hdb ▸ hcolumns
      have hdb₁ : Alike held tidy db₁ db₁' :=
        ⟨htidy₁, htidy₁', hheld₁.trans (hdb.same.trans hheld₁'.symm)⟩
      obtain ⟨hsame, hafter⟩ := ih hdb₁ fun m hm => by
        rw [hheld₁]
        exact hnames m (List.mem_cons_of_mem name hm)
      simp only [tableInfos, tableInfo, hcolumns, hcolumns', hnumber, hnumber', Except.map]
      exact ⟨by rw [hsame], hafter⟩

/-- The listing of the tables is the same. -/
theorem Orderly.info_alike (h : Orderly held tidy) (hd : Determined held tidy texts) {db db' : σ}
    (hdb : Alike held tidy db db') :
    (info db).1 = (info db').1 ∧ Alike held tidy (info db).2 (info db').2 := by
  obtain ⟨names, hnames, -⟩ := h.plain hdb.left
  rw [info, info, ← hd.lists hdb, hnames]
  exact h.tableInfos_alike hd hdb fun name hname => (h.listed hnames name).mp hname

end Connection

/-- The request asks the database system for such texts only, whatever it answers. -/
def Request.Within (texts : String → Prop) (r : Request) : Prop :=
  ∀ sql ∈ r.query?, (Replay.statement (Sql.normalize sql)).Asks texts

namespace Service

/-! ## Requests to services that are alike -/

section Alike

variable {σ ε τ : Type} [Connection σ ε]

/-- The same dataset is active, and the tables are the same. -/
structure Alike (held : σ → String → Option τ) (tidy : σ → Prop) (s t : Service σ) : Prop where
  active : s.active = t.active
  database : Connection.Alike held tidy s.database t.database

variable {held : σ → String → Option τ} {tidy : σ → Prop} {texts : String → Prop}
variable {s t : Service σ}

/-- A load brings any two services with tidy databases to states that are alike. -/
theorem load_alike (h : Orderly held tidy) (hs : tidy s.database) (ht : tidy t.database)
    (d : Dataset) : ∃ s' t', s.load d = (.ok (), s') ∧ t.load d = (.ok (), t')
      ∧ s'.Alike held tidy t' := by
  obtain ⟨db, db', hload, hload', halike⟩ := h.load_alike hs ht d
  exact ⟨⟨db, d⟩, ⟨db', d⟩, load_ok hload, load_ok hload', rfl, halike⟩

/-- A switch loads on both sides or on neither. -/
theorem switch_alike (h : Orderly held tidy) (hst : s.Alike held tidy t)
    (named? : Option Dataset) : ∃ s' t', s.switch named? = (.ok (), s')
      ∧ t.switch named? = (.ok (), t') ∧ s'.Alike held tidy t' := by
  cases named? with
  | none => exact ⟨s, t, rfl, rfl, hst⟩
  | some d =>
      by_cases hd : d = s.active
      · exact ⟨s, t, if_pos hd, if_pos (hd.trans hst.active), hst⟩
      · obtain ⟨s', t', hload, hload', halike⟩ := load_alike h hst.database.left hst.database.right d
        refine ⟨s', t', ?_, ?_, halike⟩
        · rw [switch, if_neg hd, hload]
        · rw [switch, if_neg (hst.active ▸ hd), hload']

variable [ToString ε]

/-- The same response, from services that stay alike. -/
structure HandledAlike (held : σ → String → Option τ) (tidy : σ → Prop) (a b : Handled σ) :
    Prop where
  response : a.response = b.response
  service : a.service.Alike held tidy b.service

theorem replayNow_alike (hd : Determined held tidy texts) (hst : s.Alike held tidy t) {sql : String}
    (hsql : (Replay.statement (Sql.normalize sql)).Asks texts) :
    HandledAlike held tidy (s.replayNow sql) (t.replayNow sql) := by
  obtain ⟨hstate, houtcome⟩ := replay_alike hd hsql hst.database
  refine ⟨congrArg (outcomeResponse statusOk) houtcome, ?_⟩
  rw [replayNow_service, replayNow_service]
  generalize (replay Connection.engine sql s.database).state = db at hstate
  generalize (replay Connection.engine sql t.database).state = db' at hstate
  exact ⟨hst.active, hstate⟩

/-- Switching first and replaying then, both on databases that are alike. -/
theorem execute_alike (h : Orderly held tidy) (hd : Determined held tidy texts)
    (hst : s.Alike held tidy t) {sql : String} (schema? : Option String)
    (hsql : (Replay.statement (Sql.normalize sql)).Asks texts) :
    HandledAlike held tidy (s.execute sql schema?) (t.execute sql schema?) := by
  cases hnamed : dataset? schema? with
  | error message =>
      simp only [execute, hnamed]
      exact ⟨rfl, hst⟩
  | ok named? =>
      obtain ⟨s', t', hswitch, hswitch', halike⟩ := switch_alike h hst named?
      simp only [execute, hnamed, hswitch, hswitch']
      obtain ⟨hresponse, hservice⟩ := replayNow_alike hd halike hsql
      exact ⟨hresponse, hservice⟩

theorem handleTables_alike (h : Orderly held tidy) (hd : Determined held tidy texts)
    (hst : s.Alike held tidy t) : HandledAlike held tidy s.handleTables t.handleTables := by
  obtain ⟨hsame, hafter⟩ := h.info_alike hd hst.database
  unfold handleTables
  rcases hs : Connection.info s.database with ⟨told, db⟩
  rcases ht : Connection.info t.database with ⟨told', db'⟩
  rw [hs, ht] at hsame hafter
  obtain rfl : told = told' := hsame
  rw [hst.active]
  cases told with
  | ok tables => exact ⟨rfl, rfl, hafter⟩
  | error e => exact ⟨rfl, rfl, hafter⟩

/-- Whatever is asked for, both sides load it or refuse the name. -/
theorem reset_alike (h : Orderly held tidy) (hst : s.Alike held tidy t) (schema? : Option String) :
    HandledAlike held tidy (s.reset schema?) (t.reset schema?) := by
  cases hnamed : dataset? schema? with
  | error message =>
      simp only [reset, hnamed]
      exact ⟨rfl, hst⟩
  | ok named? =>
      obtain ⟨s', t', hload, hload', halike⟩ :=
        load_alike h hst.database.left hst.database.right (named?.getD s.active)
      simp only [reset, hnamed, ← hst.active, hload, hload']
      exact ⟨rfl, halike⟩

/-- All four routes, and with them every request, get the same answers. -/
theorem perform_alike (h : Orderly held tidy) (hd : Determined held tidy texts)
    (hst : s.Alike held tidy t) {r : Request} (hr : r.Within texts) {route : Route}
    (hroute : Route.ofPath? r.path = some route) (hposted : route.isRead = false → r.method = "POST") :
    HandledAlike held tidy (s.perform r route) (t.perform r route) := by
  cases route with
  | health => exact ⟨rfl, hst⟩
  | tables => exact handleTables_alike h hd hst
  | reset =>
      simp only [perform, handleReset]
      split
      · exact reset_alike h hst _
      · exact reset_alike h hst _
  | execute =>
      simp only [perform, handleExecute]
      split
      · exact ⟨rfl, hst⟩
      · next values hvalues =>
          refine execute_alike h hd hst _ (hr _ ?_)
          rw [Request.query?, if_pos ⟨hposted rfl, path_of_route hroute⟩, hvalues]
          rfl

/-- Services with the same tables respond alike and stay alike. -/
theorem handle_alike (h : Orderly held tidy) (hd : Determined held tidy texts)
    (hst : s.Alike held tidy t) {r : Request} (hr : r.Within texts) :
    HandledAlike held tidy (s.handle r) (t.handle r) := by
  unfold handle
  split
  · exact ⟨rfl, hst⟩
  · next route hroute =>
      split
      · next hread _ => exact perform_alike h hd hst hr hroute (by rw [hread]; nofun)
      · next hread _ =>
          obtain ⟨hresponse, hservice⟩ :=
            perform_alike h hd hst hr hroute (by rw [hread]; nofun)
          refine ⟨?_, hservice⟩
          simp only [headOnly, hresponse]
      · next hread hmethod => exact perform_alike h hd hst hr hroute fun _ => hmethod
      · exact ⟨rfl, hst⟩

/-- So they do over any sequence of requests. -/
theorem handleAll_alike (h : Orderly held tidy) (hd : Determined held tidy texts)
    (hst : s.Alike held tidy t) {requests : List Request} (hr : ∀ r ∈ requests, r.Within texts) :
    (s.handleAll requests).1 = (t.handleAll requests).1 := by
  induction requests generalizing s t with
  | nil => rfl
  | cons r rest ih =>
      obtain ⟨hresponse, hservice⟩ := handle_alike h hd hst (hr r List.mem_cons_self)
      have hrest := ih hservice fun q hq => hr q (List.mem_cons_of_mem r hq)
      simp only [handleAll, hresponse, hrest]

/-- **RESETS**: services start over any tidy databases of an orderly system, and harmless
    requests leave them tidy.  From there a reset to a dataset is answered with 200 and
    leaves the tables of a fresh database with that dataset, the same ones wherever it
    happens.  So after it any further requests that ask for texts whose answers depend on
    the tables alone are answered alike, whatever came before. -/
theorem reset_erases_session (h : Orderly held tidy) (hd : Determined held tidy texts) {db₁ db₂ : σ}
    (hdb₁ : tidy db₁) (hdb₂ : tidy db₂) (d₁ d₂ : Dataset) :
    ∃ s₁ s₂ : Service σ, launch d₁ db₁ = .ok s₁ ∧ launch d₂ db₂ = .ok s₂
      ∧ ∀ before₁ before₂ : List Request,
        (HarmlessSession before₁ → tidy (s₁.after before₁).database)
        ∧ (HarmlessSession before₂ → tidy (s₂.after before₂).database)
        ∧ (tidy (s₁.after before₁).database → tidy (s₂.after before₂).database →
          ∀ (r₁ r₂ : Request) (d : Dataset), r₁.reset? = some d → r₂.reset? = some d →
            ((s₁.after before₁).handle r₁).response.status = statusOk
            ∧ ((s₂.after before₂).handle r₂).response.status = statusOk
            ∧ ((s₁.after before₁).handle r₁).service.active = d
            ∧ Whole held d ((s₁.after before₁).handle r₁).service.database
            ∧ ((s₁.after before₁).handle r₁).service.Alike held tidy
                ((s₂.after before₂).handle r₂).service
            ∧ ∀ further : List Request, (∀ r ∈ further, r.Within texts) →
              (((s₁.after before₁).handle r₁).service.handleAll further).1
                = (((s₂.after before₂).handle r₂).service.handleAll further).1) := by
  obtain ⟨s₁, hlaunch₁, hs₁⟩ := launch_agrees h hdb₁ d₁
  obtain ⟨s₂, hlaunch₂, hs₂⟩ := launch_agrees h hdb₂ d₂
  refine ⟨s₁, s₂, hlaunch₁, hlaunch₂, fun before₁ before₂ => ⟨fun hsession => ?_,
    fun hsession => ?_, fun htidy₁ htidy₂ r₁ r₂ d hr₁ hr₂ => ?_⟩⟩
  · exact (agrees_after h hs₁ hsession).tidy
  · exact (agrees_after h hs₂ hsession).tidy
  · obtain ⟨t₁, t₂, hload₁, hload₂, halike⟩ := load_alike h htidy₁ htidy₂ d
    obtain ⟨t, hload, -, hactive, hwhole⟩ := load_agrees h htidy₁ d
    obtain rfl : t₁ = t := congrArg Prod.snd (hload₁.symm.trans hload)
    obtain ⟨hstatus₁, hservice₁⟩ := handle_reset hr₁ hload₁
    obtain ⟨hstatus₂, hservice₂⟩ := handle_reset hr₂ hload₂
    rw [hservice₁, hservice₂]
    exact ⟨hstatus₁, hstatus₂, hactive, hwhole, halike,
      fun further hfurther => handleAll_alike h hd halike hfurther⟩

end Alike

theorem reset?_company : (Request.posted "/api/reset" "[\"company\"]").reset? = some .company := by
  have hread : BodyReader.record resetFields "[\"company\"]" = .ok [some "company"] := rfl
  rw [Request.reset?_posted (by decide +kernel) hread]
  rfl

/-- Two services, one of them after rows were deleted, are reset; then any harmless requests
    are answered alike. -/
theorem reset_erases_deleting :
    let s := (start .company).after [.posted "/api/execute" "[\"DELETE FROM projects\"]"]
    let r := Request.posted "/api/reset" "[\"company\"]"
    (s.handle r).response.status = statusOk ∧ ((start .store).handle r).response.status = statusOk
      ∧ ∀ further : List Request, HarmlessSession further →
        ((s.handle r).service.handleAll further).1
          = (((start .store).handle r).service.handleAll further).1 := by
  obtain ⟨s₁, s₂, hlaunch₁, hlaunch₂, hreset⟩ := reset_erases_session Database.orderly
    Database.determined Database.tidy_empty Database.tidy_empty .company .store
  obtain rfl : start .company = s₁ := Except.ok.inj ((launch_empty .company).symm.trans hlaunch₁)
  obtain rfl : start .store = s₂ := Except.ok.inj ((launch_empty .store).symm.trans hlaunch₂)
  obtain ⟨htidy₁, htidy₂, herased⟩ :=
    hreset [.posted "/api/execute" "[\"DELETE FROM projects\"]"] []
  obtain ⟨hstatus₁, hstatus₂, -, -, -, hsame⟩ := herased (htidy₁ harmless_deleting)
    (htidy₂ nofun) _ _ _ reset?_company reset?_company
  exact ⟨hstatus₁, hstatus₂, fun further hfurther =>
    hsame further fun r hr sql hsql => (hfurther r hr sql hsql).asks⟩

/-- A table whose name ends the quotes around it. -/
def quotedTable : StoredTable :=
  ⟨"x\"; CREATE TABLE y (v INTEGER); --", [⟨"b", .integer, true, false⟩], [], 0⟩

/-- What the text that should drop that table makes. -/
def leakedTable : StoredTable := ⟨"y", [⟨"v", .integer, true, false⟩], [], 0⟩

/-- Its text is taken for one that drops `x`, makes another table and ends in a comment. -/
theorem batch_quoted : Connection.batch (Connection.dropText quotedTable.name)
    (⟨[quotedTable]⟩ : Database) = (.ok (), ⟨[quotedTable, leakedTable]⟩) := by
  decide +kernel

/-- The names of those tables and of the dataset's, as they were made and as they are
    listed. -/
def leakedNames : List String :=
  [quotedTable.name, leakedTable.name, "departments", "employees", "projects"]

def leakedListing : List String :=
  ["departments", "employees", "projects", quotedTable.name, leakedTable.name]

/-- There are these tables, and they cannot be told of: the name of the first is not read as
    one. -/
def leaksQuoted (_ : List Command) (db : Database) : Bool :=
  db.names == leakedNames && !(Connection.tableInfos leakedListing db).1.isOk

theorem info_leaked {db : Database} (h : db.names = leakedNames) :
    Connection.info db = Connection.tableInfos leakedListing db := by
  have hlisted : Connection.tableNames db = .ok leakedListing := by
    refine congrArg Except.ok ?_
    rw [Database.tableNames, show db.tables.map StoredTable.name = leakedNames from h]
    cbv
  rw [Connection.info, hlisted]

set_option maxRecDepth 20000 in
/-- When the dataset is loaded anew, the table stays and what its name holds is run. -/
theorem load_quoted :
    ∃ db, Connection.load .company (⟨(Database.ofDataset .company).tables ++ [quotedTable]⟩ : Database)
      = (.ok (), db) ∧ leaksQuoted [] db := by
  have hnames : (Database.ofDataset .company).tables.map StoredTable.name
      = Dataset.company.tables := (Database.load_empty .company).2
  have hlisted : Connection.tableNames
      (⟨(Database.ofDataset .company).tables ++ [quotedTable]⟩ : Database)
      = .ok (Dataset.company.tables ++ quotedTable.name :: []) := by
    refine congrArg Except.ok ?_
    rw [Database.tableNames, List.map_append, hnames]
    exact List.mergeSort_of_pairwise (by decide +kernel)
  have hdrop := Database.dropAll_eq ⟨(Database.ofDataset .company).tables ++ [quotedTable]⟩
    (plainName_tables .company)
  -- dropping the tables of the dataset leaves the one with quotes in its name
  have hown : (Database.ofDataset .company).tables.filter
      (fun t => !Dataset.company.tables.any (Text.sameLetters t.name)) = [] := by
    refine List.filter_eq_nil_iff.mpr fun t ht => ?_
    have hname : t.name ∈ Dataset.company.tables := hnames ▸ List.mem_map_of_mem ht
    simpa using ⟨t.name, hname, Text.sameLetters_self t.name⟩
  have hquoted : [quotedTable].filter
      (fun t => !Dataset.company.tables.any (Text.sameLetters t.name)) = [quotedTable] := by
    decide +kernel
  rw [List.filter_append, hown, hquoted, List.nil_append] at hdrop
  have hruns : ∃ cs, Dataset.company.script = String.ofList cs
      ∧ Database.Runs [quotedTable, leakedTable] leaksQuoted cs := by
    show ∃ cs, Dataset.companyScript = String.ofList cs ∧ _
    unfold Dataset.companyScript
    exact ⟨_, rfl, by decide +kernel⟩
  obtain ⟨cs, hscript, hruns⟩ := hruns
  obtain ⟨commands, db, -, hbatch, hleaks⟩ := Database.batch_runs hruns
  -- dropping that one as it is pasted runs the text between its quotes
  have hleaked : Connection.dropAll (Dataset.company.tables ++ quotedTable.name :: [])
      (⟨(Database.ofDataset .company).tables ++ [quotedTable]⟩ : Database)
      = (.ok (), ⟨[quotedTable, leakedTable]⟩) := by
    rw [Connection.dropAll_append _ hdrop, Connection.dropAll_cons batch_quoted]
    rfl
  exact ⟨db, by rw [Connection.load_dropped hlisted hleaked, hscript, hbatch], hleaks⟩

/-- The first word is taken from the comment, and so the database makes a table of that name. -/
theorem slipsIn_quoted : SlipsIn quotedTable
    "/* DELETE */ CREATE TABLE \"x\"\"; CREATE TABLE y (v INTEGER); --\" (b INTEGER)" :=
  ⟨by decide +kernel, by decide +kernel, by decide +kernel, by decide +kernel, by decide +kernel,
    by decide +kernel⟩

/-- A table that slipped in under such a name outlives a reset that is answered with 200,
    and its rest is left beside it: afterwards the tables cannot be listed, as they can
    where nothing came before. -/
theorem reset_leaves_quoted :
    let s := (start .company).after [.posted "/api/execute"
      "[\"/* DELETE */ CREATE TABLE \\\"x\\\"\\\"; CREATE TABLE y (v INTEGER); --\\\" (b INTEGER)\"]"]
    let r := Request.posted "/api/reset" "[\"company\"]"
    let g : Request := ⟨"GET", "/api/tables", none, ""⟩
    (s.handle r).response.status = statusOk ∧ ((start .company).handle r).response.status = statusOk
      ∧ (s.handle r).service.database.names
        = ["x\"; CREATE TABLE y (v INTEGER); --", "y", "departments", "employees", "projects"]
      ∧ ((s.handle r).service.handleAll [g]).1
        ≠ (((start .company).handle r).service.handleAll [g]).1 := by
  dsimp only
  rw [after_slipsIn slipsIn_quoted (by decide +kernel) (by decide +kernel) (by decide +kernel)]
  obtain ⟨db, hload, hleaks⟩ := load_quoted
  obtain ⟨hstatus₁, hservice₁⟩ := handle_reset reset?_company
    (load_ok (s := (⟨⟨(Database.ofDataset .company).tables ++ [quotedTable]⟩, .company⟩ :
      Service Database)) hload)
  obtain ⟨s', hload', hs', -⟩ :=
    load_agrees Database.orderly (agrees_start .company).tidy .company
  obtain ⟨hstatus₂, hservice₂⟩ := handle_reset reset?_company hload'
  obtain ⟨hnames, hinfo⟩ := Bool.and_eq_true_iff.mp hleaks
  rw [hservice₁, hservice₂]
  refine ⟨hstatus₁, hstatus₂, eq_of_beq hnames, fun hsame => ?_⟩
  have hpath : (⟨"GET", "/api/tables", none, ""⟩ : Request).path = "/api/tables" := by decide +kernel
  -- the one service lists its tables, the other one cannot
  have hresponse := List.singleton_inj.mp hsame
  obtain ⟨told, htold, -⟩ := handleTables_agrees Database.orderly hs'
  rw [handle_listing _ rfl hpath, handle_listing _ rfl hpath, htold] at hresponse
  unfold handleTables at hresponse
  dsimp only at hresponse
  rw [info_leaked (eq_of_beq hnames)] at hresponse
  rcases hall : Connection.tableInfos leakedListing db with ⟨e | infos, db'⟩
  · rw [hall] at hresponse
    exact nomatch congrArg Response.status hresponse
  · rw [hall] at hinfo
    cases hinfo

end Service

end QueryReplay
