import QueryReplay.Proofs.Admissibility
import QueryReplay.Proofs.TableSets
import QueryReplay.Service

/-! # Sessions — what requests leave behind

    A service is a database, of any system, and the dataset that it takes to be loaded.
    They agree (`Agrees`) when the database is tidy and its tables are those of the
    dataset.  A request can change such a service in two ways (`handle_cases`): it has a
    dataset loaded, and it has a statement replayed.

    * What a replay leaves is what its calls leave (`replay_stateAfter`), and of a harmless
      statement all calls are admissible, so that an orderly system keeps its tables
      (`replay_tidy`).
    * Hence the two agree after every session of harmless statements, and a request
      that is refused changes nothing (`session_agrees`).
    * A statement that makes a table and is taken for another slips in (`SlipsIn`), and
      its table is none of the dataset's (`session_drifts`). -/

namespace QueryReplay

open Connection (Orderly Whole)

/-! ## What a replay leaves -/

/-- A run leaves the engine as its calls leave it. -/
theorem Dialogue.run_state {σ α : Type} (engine : Engine σ) (d : Dialogue α) (s : σ) :
    (d.run engine s).state = engine.stateAfter (d.run engine s).calls s := by
  induction d generalizing s with
  | done a => rfl
  | refuse o => rfl
  | ask sql next ih =>
      rcases hexec : engine.execute sql s with ⟨message | reply, s'⟩
      · rw [run, hexec]
        show s' = (engine.execute sql s).2
        rw [hexec]
      · rw [run, hexec]
        show ((next reply).run engine s').state
          = engine.stateAfter ((next reply).run engine s').calls (engine.execute sql s).2
        rw [hexec]
        exact ih reply s'
  | display step next ih => exact ih s
  | note e next ih => exact ih s

/-- A replay leaves it as the run on the normalized text does. -/
theorem replay_state {σ : Type} (engine : Engine σ) (sql : String) (s : σ) :
    (replay engine sql s).state = ((Replay.statement (Sql.normalize sql)).run engine s).state := by
  unfold replay
  generalize (Replay.statement (Sql.normalize sql)).run engine s = t
  obtain ⟨result, state, calls, events, steps⟩ := t
  cases result <;> rfl

/-- A replay leaves what its calls leave, one after another. -/
theorem replay_stateAfter {σ : Type} (engine : Engine σ) (sql : String) (s : σ) :
    (replay engine sql s).state = engine.stateAfter (replay engine sql s).calls s := by
  rw [replay_state, replay_calls, Dialogue.run_state]

/-- The engine of a connection asks it and turns its answer into a reply. -/
theorem Connection.engine_execute {σ ε : Type} [Connection σ ε] [ToString ε] (sql : String) (s : σ) :
    (engine.execute sql s).2 = (query sql s).2
      ∧ (engine.execute sql s).1
        = ((query sql s).1.map Answer.toReply).mapError toString := by
  simp only [engine, execute]
  rcases query sql s with ⟨e | a, s'⟩ <;> exact ⟨rfl, rfl⟩

/-- A statement that is taken for one that writes to no table is run as it stands, and
    nothing else is. -/
theorem replay_untargeted {σ : Type} (engine : Engine σ) {sql : String} {k : Sql.StatementKind}
    (s : σ) (hnormal : Sql.normalize sql = sql) (hblank : (Text.trim sql).isEmpty = false)
    (hkind : Sql.classify sql = .ok k) (hne : k ≠ .select)
    (htarget : Sql.targetTable? sql k = none) :
    (replay engine sql s).state = (engine.execute sql s).2 := by
  have hstatement : Replay.statement sql
      = Dialogue.fetch sql >>= fun reply => pure (reply.toSnapshot resultTable) := by
    unfold Replay.statement
    rw [if_neg (by rw [hblank]; decide), hkind]
    cases k with
    | select => exact absurd rfl hne
    | insert => simp only [Replay.modification, htarget]
    | update => simp only [Replay.modification, htarget]
    | delete => simp only [Replay.modification, htarget]
  rw [replay_state, hnormal, hstatement]
  show (Dialogue.run engine (.ask sql _) s).state = _
  rw [Dialogue.run]
  split
  · next heq =>
      rw [heq]
      rfl
  · next heq => rw [heq]

/-- What every call keeps is kept. -/
theorem Engine.stateAfter_keeps {σ : Type} {engine : Engine σ} (inv : σ → Prop)
    {calls : List String} (h : ∀ call ∈ calls, ∀ s, inv s → inv (engine.execute call s).2)
    {s : σ} (hs : inv s) : inv (engine.stateAfter calls s) := by
  induction calls generalizing s with
  | nil => exact hs
  | cons call rest ih =>
      exact ih (fun c hc => h c (List.mem_cons_of_mem call hc)) (h call List.mem_cons_self s hs)

/-- A statement that reads or writes rows, or one that is refused by its first word;
    and no part of it that is put into a question ends in a line comment. -/
def Sql.Harmless (sql : String) : Prop :=
  HasClosedTexts (normalize sql)
    ∧ (Admissible (normalize sql) ∨ ∀ k, classify (normalize sql) ≠ .ok k)

/-- Whatever is asked about a harmless statement is admissible. -/
theorem Sql.Harmless.asks {sql : String} (h : Harmless sql) :
    (Replay.statement (normalize sql)).Asks Admissible := by
  obtain ⟨hclosed, hself | hrefused⟩ := h
  · refine Dialogue.asks_imp (Replay.statement_asks_closed hclosed) ?_
    rintro call (rfl | hselect)
    · exact hself
    · exact hselect.admissible
  · cases hkind : classify (normalize sql) with
    | ok k => exact absurd hkind (hrefused k)
    | error o =>
        obtain ⟨o', hrefuse⟩ := Replay.statement_unclassified hkind
        rw [hrefuse]
        exact Dialogue.asks_refuse o'

section System

variable {σ ε τ : Type} [Connection σ ε] [ToString ε] {held : σ → String → Option τ}
variable {tidy : σ → Prop}

/-- A harmless statement keeps the tables. -/
theorem replay_tidy (h : Orderly held tidy) {sql : String} (hsql : Sql.Harmless sql) {db : σ}
    (hdb : tidy db) : tidy (replay Connection.engine sql db).state
      ∧ ∀ name, (held (replay Connection.engine sql db).state name).isSome
        = (held db name).isSome := by
  rw [replay_stateAfter]
  refine Engine.stateAfter_keeps
    (fun db' => tidy db' ∧ ∀ name, (held db' name).isSome = (held db name).isSome) ?_
    ⟨hdb, fun _ => rfl⟩
  intro call hcall db' hdb'
  rw [replay_calls] at hcall
  have hcall := Dialogue.asks_run Connection.engine hsql.asks db call hcall
  obtain ⟨htidy, hsame⟩ := h.keeps hdb'.1 hcall
  rw [(Connection.engine_execute call db').1]
  exact ⟨htidy, fun name => (hsame name).trans (hdb'.2 name)⟩

end System

/-! ## Requests -/

namespace Request

/-- The statement that a request asks to be replayed. -/
def query? (r : Request) : Option String :=
  if r.method = "POST" ∧ r.path = "/api/execute" then
    match readBody Service.executeFields r.contentType? r.body with
    | .ok values => some ((values.head?.join).getD "")
    | .error _ => none
  else none

/-- The dataset that a request names to be loaded anew. -/
def reset? (r : Request) : Option Dataset :=
  if r.method = "POST" ∧ r.path = "/api/reset" then
    match readBody Service.resetFields r.contentType? r.body with
    | .ok values => values.head?.join.bind Dataset.ofName?
    | .error _ => none
  else none

/-- A request that brings a document. -/
def posted (path body : String) : Request := ⟨"POST", path, some "application/json", body⟩

/-- A target without a question is the path. -/
theorem path_posted {path : String} (body : String)
    (h : (path.toList.all fun c => c != '?' && c != '#') = true) :
    (posted path body).path = path := by
  show String.ofList (path.toList.takeWhile _) = path
  rw [List.takeWhile_eq_self_iff.mpr (List.all_eq_true.mp h), String.ofList_toList]

/-- A document that is not too large is read. -/
theorem readBody_document (fields : List TextField) {body : String}
    (h : body.utf8ByteSize ≤ bodyLimit) :
    readBody fields (some "application/json") body = BodyReader.record fields body := by
  unfold readBody
  rw [if_pos (by cbv), if_neg (Nat.not_lt.mpr h)]

theorem query?_posted {body : String} {values : List (Option String)}
    (hsize : body.utf8ByteSize ≤ bodyLimit)
    (h : BodyReader.record Service.executeFields body = .ok values) :
    (posted "/api/execute" body).query? = some ((values.head?.join).getD "") := by
  unfold query?
  rw [if_pos ⟨rfl, path_posted body (by decide)⟩]
  simp only [posted, readBody_document _ hsize, h]

theorem reset?_posted {body : String} {values : List (Option String)}
    (hsize : body.utf8ByteSize ≤ bodyLimit)
    (h : BodyReader.record Service.resetFields body = .ok values) :
    (posted "/api/reset" body).reset? = values.head?.join.bind Dataset.ofName? := by
  unfold reset?
  rw [if_pos ⟨rfl, path_posted body (by decide)⟩]
  simp only [posted, readBody_document _ hsize, h]

end Request

/-- Requests whose statements are harmless. -/
def HarmlessSession (requests : List Request) : Prop :=
  ∀ r ∈ requests, ∀ sql ∈ r.query?, Sql.Harmless sql

/-! ## Listing the tables -/

namespace Connection

variable {σ ε τ : Type} [Connection σ ε] {held : σ → String → Option τ} {tidy : σ → Prop}

/-- In a tidy state the tables that are there are told of under their names. -/
theorem Orderly.tableInfos_tidy (h : Orderly held tidy) {names : List String} {db : σ}
    (hdb : tidy db) (hnames : ∀ name ∈ names, (held db name).isSome) :
    ∃ told db', tableInfos names db = (.ok told, db') ∧ told.map TableInfo.name = names
      ∧ tidy db' ∧ held db' = held db := by
  induction names generalizing db with
  | nil => exact ⟨[], db, rfl, rfl, hdb, rfl⟩
  | cons name rest ih =>
      obtain ⟨⟨cs, hcolumns⟩, n, db₁, hnumber, htidy, hheld⟩ :=
        h.tells hdb (hnames name List.mem_cons_self)
      obtain ⟨told, db₂, hrest, hmap, htidy₂, hheld₂⟩ := ih htidy fun m hm => by
        rw [hheld]
        exact hnames m (List.mem_cons_of_mem name hm)
      refine ⟨⟨name, cs, n.toNat⟩ :: told, db₂, ?_, by rw [List.map_cons, hmap], htidy₂,
        hheld₂.trans hheld⟩
      simp only [tableInfos, tableInfo, hcolumns, hnumber, Except.map, hrest]

/-- The tables of a tidy database are listed without an error, by their names. -/
theorem Orderly.info_tidy (h : Orderly held tidy) {names : List String} {db : σ} (hdb : tidy db)
    (hnames : tableNames db = .ok names) :
    ∃ told db', info db = (.ok told, db') ∧ told.map TableInfo.name = names
      ∧ tidy db' ∧ held db' = held db := by
  rw [info, hnames]
  exact h.tableInfos_tidy hdb fun name hname => (h.listed hnames name).mp hname

end Connection

namespace Service

/-! ## What a request does -/

section Step

variable {σ ε τ : Type} [Connection σ ε]

/-- A load that succeeds makes its dataset the active one. -/
theorem load_ok {s : Service σ} {d : Dataset} {db : σ}
    (h : Connection.load d s.database = (.ok (), db)) : s.load d = (.ok (), ⟨db, d⟩) := by
  unfold load
  rw [h]

theorem path_of_route {path : String} {route : Route} (h : Route.ofPath? path = some route) :
    path = match route with
      | .execute => "/api/execute"
      | .tables => "/api/tables"
      | .reset => "/api/reset"
      | .health => "/health" := by
  unfold Route.ofPath? at h
  split at h <;> cases h <;> rfl

variable [ToString ε]

/-- The service after requests, one after another. -/
def after (s : Service σ) : List Request → Service σ
  | [] => s
  | r :: rest => (s.handle r).service.after rest

theorem replayNow_service (s : Service σ) (sql : String) : (s.replayNow sql).service
    = { s with database := (replay Connection.engine sql s.database).state } := rfl

/-- A reset that loads answers 200. -/
theorem reset_loaded {s s' : Service σ} {schema? : Option String} {named? : Option Dataset}
    (hnamed : dataset? schema? = .ok named?)
    (hload : s.load (named?.getD s.active) = (.ok (), s')) :
    (s.reset schema?).response.status = statusOk ∧ (s.reset schema?).service = s' := by
  unfold reset
  rw [hnamed]
  dsimp only
  rw [hload]
  exact ⟨rfl, rfl⟩

/-- A request either leaves the service alone or does what its route does, and those that
    do not only look are posted. -/
theorem handle_performs (s : Service σ) (r : Request) :
    (s.handle r).service = s ∨ ∃ route, Route.ofPath? r.path = some route
      ∧ (route.isRead = false → r.method = "POST")
      ∧ (s.handle r).service = (s.perform r route).service
      ∧ (s.handle r).response.status = (s.perform r route).response.status := by
  unfold handle
  split
  · exact .inl rfl
  · next route hroute =>
      split
      · next hread _ => exact .inr ⟨route, hroute, by rw [hread]; nofun, rfl, rfl⟩
      · next hread _ => exact .inr ⟨route, hroute, by rw [hread]; nofun, rfl, rfl⟩
      · next hread hmethod => exact .inr ⟨route, hroute, fun _ => hmethod, rfl, rfl⟩
      · exact .inl rfl

/-- What a request of the method that its route asks for does. -/
theorem handle_of_route (s : Service σ) {r : Request} {route : Route}
    (hroute : Route.ofPath? r.path = some route)
    (hmethod : r.method = if route.isRead then "GET" else "POST") :
    s.handle r = s.perform r route := by
  unfold handle
  rw [hroute, hmethod]
  cases route <;> rfl

theorem handle_listing (s : Service σ) {r : Request} (hmethod : r.method = "GET")
    (hpath : r.path = "/api/tables") : s.handle r = s.handleTables := by
  have hroute : Route.ofPath? r.path = some .tables := by
    rw [hpath]
    rfl
  have hget : r.method = if Route.tables.isRead then "GET" else "POST" := by
    rw [hmethod]
    rfl
  rw [handle_of_route s hroute hget, perform]

/-- A posted statement is replayed on the tables as they are. -/
theorem handle_posted (s : Service σ) {body sql : String} (hsize : body.utf8ByteSize ≤ bodyLimit)
    (hread : BodyReader.record executeFields body = .ok [some sql, none]) :
    (s.handle (.posted "/api/execute" body)).service = (s.replayNow sql).service := by
  have hroute : Route.ofPath? (Request.posted "/api/execute" body).path = some .execute := by
    rw [Request.path_posted body (by decide)]
    rfl
  have hbody : readBody executeFields (Request.posted "/api/execute" body).contentType?
      (Request.posted "/api/execute" body).body = .ok [some sql, none] := by
    rw [← hread]
    exact Request.readBody_document executeFields hsize
  rw [handle_of_route s hroute rfl]
  unfold perform handleExecute
  rw [hbody]
  rfl

/-- A request for a reset is answered with 200 when the dataset can be loaded. -/
theorem handle_reset {s s' : Service σ} {r : Request} {d : Dataset} (hr : r.reset? = some d)
    (hload : s.load d = (.ok (), s')) :
    (s.handle r).response.status = statusOk ∧ (s.handle r).service = s' := by
  unfold Request.reset? at hr
  obtain ⟨⟨hmethod, hpath⟩, hr⟩ := Option.ite_none_right_eq_some.mp hr
  split at hr
  · next values hvalues =>
      obtain ⟨name, hname, hd⟩ := Option.bind_eq_some_iff.mp hr
      have hnamed : dataset? (some name) = .ok (some d) := by
        unfold dataset?
        dsimp only
        rw [hd]
      have hroute : Route.ofPath? r.path = some .reset := by
        rw [hpath]
        rfl
      have hpost : r.method = if Route.reset.isRead then "GET" else "POST" := by
        rw [hmethod]
        rfl
      have hperform : s.perform r .reset = s.reset (some name) := by
        unfold perform handleReset
        rw [hvalues]
        dsimp only
        rw [hname]
      rw [handle_of_route s hroute hpost, hperform]
      exact reset_loaded hnamed (by rw [Option.getD_some]; exact hload)
  · exact nomatch hr

end Step

/-! ## Tables and dataset -/

section Agreement

variable {σ ε τ : Type} [Connection σ ε]

/-- The database is tidy, and its tables are those of the dataset that is taken to be
    loaded. -/
structure Agrees (held : σ → String → Option τ) (tidy : σ → Prop) (s : Service σ) : Prop where
  tidy : tidy s.database
  tables : ∀ name, (held s.database name).isSome ↔ name ∈ s.active.tables

variable {held : σ → String → Option τ} {tidy : σ → Prop} {s s' : Service σ}

/-- The tables that are listed are those of the dataset. -/
theorem Agrees.tableNames (h : Orderly held tidy) (hs : s.Agrees held tidy) :
    ∃ names, Connection.tableNames s.database = .ok names ∧ names.Perm s.active.tables := by
  obtain ⟨names, hnames, hnodup, -⟩ := h.plain hs.tidy
  refine ⟨names, hnames, (List.perm_ext_iff_of_nodup hnodup (nodup_tables s.active)).mpr ?_⟩
  exact fun name => (h.listed hnames name).trans (hs.tables name)

/-- A dataset is loaded whatever tables were there before. -/
theorem load_agrees (h : Orderly held tidy) (hs : tidy s.database) (d : Dataset) :
    ∃ s', s.load d = (.ok (), s') ∧ s'.Agrees held tidy ∧ s'.active = d
      ∧ Whole held d s'.database := by
  obtain ⟨db, hload, htidy, hfresh, htables⟩ := h.load_tidy hs d
  exact ⟨⟨db, d⟩, load_ok hload, ⟨htidy, htables⟩, rfl, hfresh.whole⟩

/-- A service starts over any tidy database. -/
theorem launch_agrees (h : Orderly held tidy) {db : σ} (hdb : tidy db) (d : Dataset) :
    ∃ s : Service σ, launch d db = .ok s ∧ s.Agrees held tidy := by
  obtain ⟨db', hload, htidy, -, htables⟩ := h.load_tidy hdb d
  refine ⟨⟨db', d⟩, ?_, htidy, htables⟩
  unfold launch
  rw [hload]

theorem switch_agrees (h : Orderly held tidy) (hs : s.Agrees held tidy) (named? : Option Dataset) :
    ∃ s', s.switch named? = (.ok (), s') ∧ s'.Agrees held tidy := by
  unfold switch
  split
  · next d =>
      split
      · exact ⟨s, rfl, hs⟩
      · obtain ⟨s', hload, hs', -⟩ := load_agrees h hs.tidy d
        exact ⟨s', hload, hs'⟩
  · exact ⟨s, rfl, hs⟩

variable [ToString ε]

/-- A reset is refused with nothing changed, or it loads. -/
theorem reset_cases (h : Orderly held tidy) (hs : s.Agrees held tidy) (schema? : Option String) :
    (s.reset schema?).service = s ∨ (s.reset schema?).response.status = statusOk
      ∧ (s.reset schema?).service.Agrees held tidy := by
  cases hnamed : dataset? schema? with
  | error message =>
      unfold reset
      rw [hnamed]
      exact .inl rfl
  | ok named? =>
      obtain ⟨s', hload, hs', -⟩ := load_agrees h hs.tidy (named?.getD s.active)
      obtain ⟨hstatus, hservice⟩ := reset_loaded hnamed hload
      exact .inr ⟨hstatus, hservice ▸ hs'⟩

theorem execute_cases (h : Orderly held tidy) (hs : s.Agrees held tidy) (sql : String)
    (schema? : Option String) :
    (s.execute sql schema?).service = s ∨ (s.execute sql schema?).response.status = statusOk
      ∧ ∃ s' : Service σ, s'.Agrees held tidy
        ∧ (s.execute sql schema?).service = (s'.replayNow sql).service := by
  unfold execute
  dsimp only
  split
  · exact .inl rfl
  · next named? _ =>
      obtain ⟨s', hswitch, hs'⟩ := switch_agrees h hs named?
      rw [hswitch]
      exact .inr ⟨rfl, s', hs', rfl⟩

/-- The tables are told of, and they stay. -/
theorem handleTables_agrees (h : Orderly held tidy) (hs : s.Agrees held tidy) :
    ∃ told : List TableInfo, s.handleTables.response = ⟨statusOk, .document (.object
        [("dataset", .string s.active.name), ("tables", .array (told.map tableDocument))])⟩
      ∧ (told.map TableInfo.name).Perm s.active.tables ∧ s.handleTables.service.Agrees held tidy := by
  obtain ⟨names, hnames, hperm⟩ := hs.tableNames h
  obtain ⟨told, db, hinfo, hmap, htidy, hheld⟩ := h.info_tidy hs.tidy hnames
  unfold handleTables
  rw [hinfo]
  exact ⟨told, rfl, hmap ▸ hperm, htidy, fun name => by rw [hheld]; exact hs.tables name⟩

/-- What a request can do to a service whose tables are those of its dataset: nothing, or,
    and then it is answered with 200, go on to tables of some dataset and replay a statement
    there. -/
theorem handle_cases (h : Orderly held tidy) (hs : s.Agrees held tidy) (r : Request) :
    (s.handle r).service = s ∨ (s.handle r).response.status = statusOk
      ∧ ∃ s' : Service σ, s'.Agrees held tidy ∧ ((s.handle r).service = s'
        ∨ ∃ sql ∈ r.query?, (s.handle r).service = (s'.replayNow sql).service) := by
  -- by routes; only reset and execute leave another service, one that agrees still or one behind
  -- a replay
  rcases handle_performs s r with hsame | ⟨route, hroute, hposted, hservice, hstatus⟩
  · exact .inl hsame
  · rw [hservice, hstatus]
    cases route with
    | health => exact .inl rfl
    | tables =>
        obtain ⟨told, hresponse, -, hs'⟩ := handleTables_agrees h hs
        refine .inr ⟨?_, _, hs', .inl rfl⟩
        show s.handleTables.response.status = _
        rw [hresponse]
    | reset =>
        unfold perform handleReset
        dsimp only
        split
        · exact (reset_cases h hs _).imp id fun ⟨hok, hs'⟩ => ⟨hok, _, hs', .inl rfl⟩
        · exact (reset_cases h hs _).imp id fun ⟨hok, hs'⟩ => ⟨hok, _, hs', .inl rfl⟩
    | execute =>
        unfold perform handleExecute
        dsimp only
        split
        · exact .inl rfl
        · next values hvalues =>
            refine (execute_cases h hs _ _).imp id fun ⟨hok, s', hs', hreplay⟩ =>
              ⟨hok, s', hs', .inr ⟨_, ?_, hreplay⟩⟩
            unfold Request.query?
            rw [if_pos ⟨hposted rfl, path_of_route hroute⟩, hvalues]
            rfl

/-- A harmless statement makes and drops no table. -/
theorem agrees_replayNow (h : Orderly held tidy) (hs : s.Agrees held tidy) {sql : String}
    (hsql : Sql.Harmless sql) : (s.replayNow sql).service.Agrees held tidy := by
  obtain ⟨htidy, hkept⟩ := replay_tidy h hsql hs.tidy
  rw [replayNow_service]
  generalize (replay Connection.engine sql s.database).state = db at htidy hkept
  exact ⟨htidy, fun name => by rw [hkept name]; exact hs.tables name⟩

/-- One request, whatever its route. -/
theorem agrees_handle (h : Orderly held tidy) (hs : s.Agrees held tidy) {r : Request}
    (hr : ∀ sql ∈ r.query?, Sql.Harmless sql) : (s.handle r).service.Agrees held tidy := by
  rcases handle_cases h hs r with hsame | ⟨-, s', hs', hservice | ⟨sql, hsql, hreplay⟩⟩
  · rwa [hsame]
  · rwa [hservice]
  · rw [hreplay]
    exact agrees_replayNow h hs' (hr sql hsql)

/-- The two agree after every session of harmless statements. -/
theorem agrees_after (h : Orderly held tidy) (hs : s.Agrees held tidy) {requests : List Request}
    (hsession : HarmlessSession requests) : (s.after requests).Agrees held tidy := by
  induction requests generalizing s with
  | nil => exact hs
  | cons r rest ih =>
      refine ih (agrees_handle h hs fun sql hsql => hsession r List.mem_cons_self sql hsql) ?_
      exact fun q hq => hsession q (List.mem_cons_of_mem r hq)

/-- A request that is not answered with 200 changes nothing. -/
theorem handle_refused (h : Orderly held tidy) (hs : s.Agrees held tidy) {r : Request}
    (hstatus : (s.handle r).response.status ≠ statusOk) : (s.handle r).service = s := by
  rcases handle_cases h hs r with hsame | ⟨hok, -⟩
  · exact hsame
  · exact absurd hok hstatus

/-- **SESSIONS**: a service starts over any tidy database of an orderly system.  Whatever
    harmless requests came since, the tables are those of the dataset that it takes to be
    loaded, the tables that it lists are these, and a request that it does not answer with
    200 leaves tables, rows and dataset as they are. -/
theorem session_agrees (h : Orderly held tidy) {db : σ} (hdb : tidy db) (d : Dataset) :
    ∃ s : Service σ, launch d db = .ok s ∧ ∀ requests, HarmlessSession requests →
      (∃ names, Connection.tableNames (s.after requests).database = .ok names
        ∧ names.Perm (s.after requests).active.tables)
      ∧ (∀ r : Request, r.method = "GET" → r.path = "/api/tables" →
        ∃ told : List TableInfo,
          ((s.after requests).handle r).response = ⟨statusOk, .document (.object
            [("dataset", .string (s.after requests).active.name),
              ("tables", .array (told.map tableDocument))])⟩
          ∧ (told.map TableInfo.name).Perm (s.after requests).active.tables)
      ∧ ∀ r : Request, ((s.after requests).handle r).response.status ≠ statusOk →
        ((s.after requests).handle r).service = s.after requests := by
  obtain ⟨s, hlaunch, hs⟩ := launch_agrees h hdb d
  refine ⟨s, hlaunch, fun requests hsession => ?_⟩
  have hagrees := agrees_after h hs hsession
  refine ⟨hagrees.tableNames h, fun r hmethod hpath => ?_,
    fun r hstatus => handle_refused h hagrees hstatus⟩
  obtain ⟨told, hresponse, hperm, -⟩ := handleTables_agrees h hagrees
  rw [handle_listing _ hmethod hpath]
  exact ⟨told, hresponse, hperm⟩

end Agreement

/-- The service over the small database, which starts empty. -/
theorem launch_empty (d : Dataset) : launch d Database.empty = .ok (start d) := by
  unfold launch
  rw [(Database.load_empty d).1]
  rfl

/-- The small database begins on its dataset. -/
theorem agrees_start (d : Dataset) : (start d).Agrees Database.held Database.Tidy := by
  obtain ⟨s, hlaunch, hs⟩ := launch_agrees Database.orderly Database.tidy_empty d
  rwa [Except.ok.inj ((launch_empty d).symm.trans hlaunch)]

/-- A session in which rows are deleted. -/
theorem harmless_deleting :
    HarmlessSession [.posted "/api/execute" "[\"DELETE FROM projects\"]"] := by
  have hread : BodyReader.record executeFields "[\"DELETE FROM projects\"]"
      = .ok [some "DELETE FROM projects", none] := by decide +kernel
  have htext : Sql.normalize "DELETE FROM projects" = "DELETE FROM projects" := by decide +kernel
  intro r hr sql hsql
  rw [List.mem_singleton.mp hr, Request.query?_posted (by decide +kernel) hread] at hsql
  obtain rfl : "DELETE FROM projects" = sql := Option.some.inj hsql
  refine ⟨?_, .inl ?_⟩
  · rw [htext]
    exact fun d hd => absurd (show (Sql.parse "DELETE FROM projects").isOk = true by rw [hd]; rfl)
      (by decide +kernel)
  · rw [htext]
    decide +kernel

/-- After rows are deleted, the tables are listed, and a path that there is not is asked for. -/
theorem session_agrees_deleting :
    let s := (start .company).after [.posted "/api/execute" "[\"DELETE FROM projects\"]"]
    (∃ names, Connection.tableNames s.database = .ok names ∧ names.Perm s.active.tables)
      ∧ (∃ told : List TableInfo, (s.handle ⟨"GET", "/api/tables", none, ""⟩).response
          = ⟨statusOk, .document (.object [("dataset", .string s.active.name),
              ("tables", .array (told.map tableDocument))])⟩
        ∧ (told.map TableInfo.name).Perm s.active.tables)
      ∧ (s.handle (.posted "/api/drop" "[]")).service = s := by
  obtain ⟨s, hlaunch, hsession⟩ := session_agrees Database.orderly Database.tidy_empty .company
  obtain rfl : start .company = s := Except.ok.inj ((launch_empty .company).symm.trans hlaunch)
  obtain ⟨hnames, hlisted, hrefused⟩ := hsession _ harmless_deleting
  refine ⟨hnames, hlisted _ rfl (by decide +kernel), hrefused _ ?_⟩
  have hroute : Route.ofPath? (Request.posted "/api/drop" "[]").path = none := by decide +kernel
  unfold handle
  rw [hroute]
  decide

/-! ## Tables that slip in -/

/-- The statement, which is normalized, makes a table, and is taken for one that deletes
    rows. -/
structure SlipsIn (t : StoredTable) (sql : String) : Prop where
  normal : Sql.normalize sql = sql
  written : (Text.trim sql).isEmpty = false
  taken : Sql.classify sql = .ok .delete
  untargeted : Sql.targetTable? sql .delete = none
  meant : Command.parseAll? sql = some [.createTable t.name t.columns]
  valid : StoredTable.create t.name t.columns = .ok t

theorem replay_slipsIn {db : Database} {t : StoredTable} {sql : String} (h : SlipsIn t sql)
    (hfree : db.table? t.name = none) :
    (replay Connection.engine sql db).state = ⟨db.tables ++ [t]⟩ := by
  have hperform : db.perform (.createTable t.name t.columns)
      = .ok (⟨["Count"], []⟩, ⟨db.tables ++ [t]⟩) := by
    rw [Database.perform, hfree]
    simp only [h.valid]
    rfl
  rw [replay_untargeted Connection.engine db h.normal h.written h.taken (by decide) h.untargeted,
    (Connection.engine_execute sql db).1]
  show (db.ask sql).2 = _
  rw [Database.ask, h.meant]
  simp only [Database.performAll, hperform]

/-- A statement that slips in leaves a table beside those of the dataset. -/
theorem after_slipsIn {d : Dataset} {t : StoredTable} {body sql : String} (h : SlipsIn t sql)
    (hsize : body.utf8ByteSize ≤ bodyLimit)
    (hread : BodyReader.record executeFields body = .ok [some sql, none])
    (hfree : ∀ name ∈ d.tables, Text.sameLetters name t.name = false) :
    (start d).after [.posted "/api/execute" body]
      = ⟨⟨(Database.ofDataset d).tables ++ [t]⟩, d⟩ := by
  have hnone : (Database.ofDataset d).table? t.name = none := by
    refine List.find?_eq_none.mpr fun old hold => ?_
    have hname : old.name ∈ (Database.ofDataset d).names := List.mem_map_of_mem hold
    rw [(Database.load_empty d).2] at hname
    simp [hfree old.name hname]
  have hstate : (replay Connection.engine sql (start d).database).state
      = ⟨(Database.ofDataset d).tables ++ [t]⟩ := replay_slipsIn h hnone
  show ((start d).handle (.posted "/api/execute" body)).service = _
  rw [handle_posted (start d) hsize hread, replayNow_service, hstate]
  rfl

/-- A comment that names another kind of statement lets a table in that is none of the
    dataset's. -/
theorem session_drifts :
    let s := (start .company).after
      [.posted "/api/execute" "[\"/* DELETE */ CREATE TABLE z (a INTEGER)\"]"]
    s.database.names = ["departments", "employees", "projects", "z"]
      ∧ s.active.tables = ["departments", "employees", "projects"] := by
  have hslip : SlipsIn ⟨"z", [⟨"a", .integer, true, false⟩], [], 0⟩
      "/* DELETE */ CREATE TABLE z (a INTEGER)" :=
    ⟨by decide +kernel, by decide +kernel, by decide +kernel, by decide +kernel, by decide +kernel,
      by decide +kernel⟩
  have hnames : (Database.ofDataset .company).tables.map StoredTable.name
      = ["departments", "employees", "projects"] := (Database.load_empty .company).2
  dsimp only
  rw [after_slipsIn hslip (by decide +kernel) (by decide +kernel) (by decide +kernel)]
  refine ⟨?_, rfl⟩
  show ((Database.ofDataset .company).tables ++ [_]).map StoredTable.name = _
  rw [List.map_append, hnames]
  rfl

end Service

end QueryReplay
