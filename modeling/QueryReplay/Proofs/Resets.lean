import QueryReplay.Proofs.Bodies
import QueryReplay.Proofs.Reloads
import QueryReplay.Proofs.Sessions
import QueryReplay.Proofs.TableNames

/-! # Resets — which requests lose data that they did not name

    A request for a reset brings a body that may name a dataset.  It keeps its promise
    (`KeepsPromise`) when it has just the dataset loaded that the body asks for (`Asks`),
    or is refused and changes nothing.

    * What a body asks for is told by its text alone: it has to be an object, of any
      size, and then it asks for one dataset (`Asks.unique`).
    * A body that would be refused elsewhere, for its type, its size, its form or its
      fields, counts as none here.  So the active dataset is loaded, whatever the body asks
      for (`loads_refused`).
    * What is read from an object that is sent as a document and is not too large is what
      it asks for, as long as its schema is null or a text and stands there at most once
      (`asks_of_document`).
    * Whatever is loaded has to be loaded all or nothing (`keepsPromise_loads`), which is
      another matter (`Connection.load_allOrNothing`). -/

namespace QueryReplay

open Connection (Standard Whole)
open Json (IsMember IsObject IsNull IsText)
open BodyReader (Collects Holds)

/-! ## What a body asks for -/

/-- The body is an object, and asks for a dataset: for the one that its schema names, and
    for the active one when the schema is null or is not there.  Of a schema that is
    written twice the last one counts. -/
inductive Asks (active : Dataset) (body : String) : Dataset → Prop
  | absent {ms : List (String × List Char)} (hbody : IsObject ms body)
      (hschema : ms.reverse.lookup "schema" = none) : Asks active body active
  | null {ms : List (String × List Char)} {value : List Char} (hbody : IsObject ms body)
      (hschema : ms.reverse.lookup "schema" = some value) (hnull : IsNull value) :
      Asks active body active
  | named {ms : List (String × List Char)} {value : List Char} {name : String} {d : Dataset}
      (hbody : IsObject ms body) (hschema : ms.reverse.lookup "schema" = some value)
      (htext : IsText name value) (hname : Dataset.ofName? name = some d) : Asks active body d

/-- A body asks for one dataset. -/
theorem Asks.unique {active d d' : Dataset} {body : String} (h : Asks active body d)
    (h' : Asks active body d') : d = d' := by
  -- a body is one object, and the last member called so decides
  have hone : ∀ {ms ms' : List (String × List Char)} {value? value?' : Option (List Char)},
      IsObject ms body → IsObject ms' body → ms.reverse.lookup "schema" = value? →
      ms'.reverse.lookup "schema" = value?' → value? = value?' := by
    rintro ms ms' value? value?' hms hms' rfl rfl
    rw [hms.unique hms']
  have hnot : ∀ {value value' : List Char} {name : String}, some value = some value' →
      IsNull value → IsText name value' → False := by
    rintro value value' name heq ⟨rest, hnull⟩ ⟨quoted, -, hquote, -⟩
    cases heq
    exact nomatch (hnull.symm.trans hquote)
  cases h with
  | absent hbody hschema =>
      cases h' with
      | absent _ _ => rfl
      | null _ _ _ => rfl
      | named hbody' hschema' _ _ => exact nomatch hone hbody hbody' hschema hschema'
  | null hbody hschema hnull =>
      cases h' with
      | absent _ _ => rfl
      | null _ _ _ => rfl
      | named hbody' hschema' htext _ =>
          exact (hnot (hone hbody hbody' hschema hschema') hnull htext).elim
  | named hbody hschema htext hname =>
      cases h' with
      | absent hbody' hschema' => exact nomatch hone hbody hbody' hschema hschema'
      | null hbody' hschema' hnull =>
          exact (hnot (hone hbody' hbody hschema' hschema) hnull htext).elim
      | named hbody' hschema' htext' hname' =>
          cases hone hbody hbody' hschema hschema'
          obtain ⟨quoted, rest, hquote, hread⟩ := htext
          obtain ⟨quoted', rest', hquote', hread'⟩ := htext'
          obtain rfl := (List.cons.inj (hquote.symm.trans hquote')).2
          obtain rfl := (Prod.mk.inj (Option.some.inj (hread.symm.trans hread'))).1
          exact Option.some.inj (hname.symm.trans hname')

namespace Request

/-- The schema that is read from the body of a request for a reset, if one is. -/
def schema? (r : Request) : Option String :=
  match readBody Service.resetFields r.contentType? r.body with
  | .ok values => values.head?.join
  | .error _ => none

/-- The request names a dataset that there is not. -/
def NamesNone (r : Request) : Prop := ∃ name, r.schema? = some name ∧ Dataset.ofName? name = none

/-- The dataset that a request for a reset has loaded. -/
def loads (r : Request) (active : Dataset) : Dataset :=
  (r.schema?.bind Dataset.ofName?).getD active

end Request

namespace Service

section Reset

variable {σ ε τ : Type} [Connection σ ε]

/-- The tables are those of a fresh database with the dataset, and it is the active one. -/
def Loaded (held : σ → String → Option τ) (s : Service σ) (d : Dataset) : Prop :=
  s.active = d ∧ Whole held d s.database

/-- The same tables and the same active dataset. -/
def Keeps (held : σ → String → Option τ) (s s' : Service σ) : Prop :=
  s'.active = s.active ∧ held s'.database = held s.database

variable [ToString ε]

/-- A request for a reset loads just what it asks for, or is refused and changes nothing. -/
def KeepsPromise (held : σ → String → Option τ) (s : Service σ) (r : Request) : Prop :=
  (∃ d, Asks s.active r.body d ∧ (s.handle r).response.status = statusOk
      ∧ (s.handle r).service.Loaded held d)
    ∨ (s.handle r).response.status ≠ statusOk ∧ s.Keeps held (s.handle r).service

variable {held : σ → String → Option τ}
variable {s : Service σ} {r : Request} (hmethod : r.method = "POST") (hpath : r.path = "/api/reset")
include hmethod hpath

theorem handle_schema : s.handle r = s.reset r.schema? := by
  have hroute : Route.ofPath? r.path = some .reset := by
    rw [hpath]
    rfl
  have hpost : r.method = if Route.reset.isRead then "GET" else "POST" := by
    rw [hmethod]
    rfl
  rw [handle_of_route s hroute hpost]
  show s.handleReset r = _
  unfold handleReset Request.schema?
  cases readBody resetFields r.contentType? r.body <;> rfl

/-- A name that is none is refused, and nothing is loaded. -/
theorem handle_namesNone (h : r.NamesNone) :
    (s.handle r).response.status = statusBadRequest ∧ (s.handle r).service = s := by
  obtain ⟨name, hschema, hname⟩ := h
  have hnamed : dataset? (some name) = .error (Dataset.unknownMessage name) := by
    unfold dataset?
    dsimp only
    rw [hname]
  rw [handle_schema hmethod hpath, hschema]
  unfold reset
  rw [hnamed]
  exact ⟨rfl, rfl⟩

/-- Otherwise a dataset is loaded.  The request is answered with 200 when that succeeds;
    else with 500, and what was dropped by then is gone. -/
theorem handle_loads (h : ¬r.NamesNone) :
    ((Connection.load (r.loads s.active) s.database).1 = .ok () →
        (s.handle r).response.status = statusOk
        ∧ (s.handle r).service
          = ⟨(Connection.load (r.loads s.active) s.database).2, r.loads s.active⟩)
      ∧ ∀ e, (Connection.load (r.loads s.active) s.database).1 = .error e →
        (s.handle r).response.status = statusFailed
        ∧ (s.handle r).service
          = ⟨(Connection.load (r.loads s.active) s.database).2, s.active⟩ := by
  obtain ⟨named?, hnamed, hloads⟩ : ∃ named?, dataset? r.schema? = .ok named?
      ∧ named?.getD s.active = r.loads s.active := by
    unfold Request.loads dataset?
    cases hschema : r.schema? with
    | none => exact ⟨none, rfl, rfl⟩
    | some name =>
        cases hname : Dataset.ofName? name with
        | none => exact absurd ⟨name, hschema, hname⟩ h
        | some d => exact ⟨some d, by simp only [hname], by simp [hname]⟩
  rw [handle_schema hmethod hpath]
  unfold reset
  rw [hnamed]
  dsimp only
  rw [hloads]
  unfold load
  rcases Connection.load (r.loads s.active) s.database with ⟨e | _, db⟩
  · exact ⟨nofun, fun _ _ => ⟨rfl, rfl⟩⟩
  · exact ⟨fun _ => ⟨rfl, rfl⟩, nofun⟩

theorem keepsPromise_namesNone (h : r.NamesNone) : KeepsPromise held s r := by
  obtain ⟨hstatus, hservice⟩ := handle_namesNone (s := s) hmethod hpath h
  refine .inr ⟨?_, ?_⟩
  · rw [hstatus]
    decide
  · rw [hservice]
    exact ⟨rfl, rfl⟩

/-- Where a dataset is loaded, that has to be all or nothing, and what is loaded has to be
    what is asked for. -/
theorem keepsPromise_loads (h : ¬r.NamesNone) :
    KeepsPromise held s r ↔ Connection.AllOrNothing held (r.loads s.active) s.database
      ∧ ((Connection.load (r.loads s.active) s.database).1 = .ok () →
        Asks s.active r.body (r.loads s.active)) := by
  obtain ⟨hloaded, hrefused⟩ := handle_loads (s := s) hmethod hpath h
  rcases hload : Connection.load (r.loads s.active) s.database with ⟨e | _, db⟩
  · obtain ⟨hstatus, hservice⟩ := hrefused e (by rw [hload])
    rw [KeepsPromise, hstatus, hservice, hload, Connection.allOrNothing_refused hload]
    constructor
    · rintro (⟨d, -, hok, -⟩ | ⟨-, -, hheld⟩)
      · exact absurd hok (by decide)
      · exact ⟨hheld, nofun⟩
    · rintro ⟨hheld, -⟩
      exact .inr ⟨by decide, rfl, hheld⟩
  · obtain ⟨hstatus, hservice⟩ := hloaded (by rw [hload])
    rw [KeepsPromise, hstatus, hservice, hload, Connection.allOrNothing_loaded hload]
    constructor
    · rintro (⟨d, hasks, -, rfl, hwhole⟩ | ⟨hother, -⟩)
      · exact ⟨hwhole, fun _ => hasks⟩
      · exact absurd rfl hother
    · rintro ⟨hwhole, hasks⟩
      exact .inl ⟨_, hasks rfl, rfl, rfl, hwhole⟩

omit [Connection σ ε] [ToString ε] hmethod hpath in
/-- A body that is refused counts as none: no name is read, and the active dataset is
    loaded. -/
theorem loads_refused {fault : BodyFault}
    (hbody : readBody resetFields r.contentType? r.body = .error fault) :
    ¬r.NamesNone ∧ ∀ active, r.loads active = active := by
  have hschema : r.schema? = none := by
    unfold Request.schema?
    rw [hbody]
  constructor
  · rintro ⟨name, hname, -⟩
    rw [hschema] at hname
    cases hname
  · intro active
    unfold Request.loads
    rw [hschema]
    rfl

end Reset

/-! ## Bodies that are read -/

/-- The request says that its body is a document. -/
def IsDocument (r : Request) : Prop :=
  (r.contentType?.bind MediaType.ofHeader?).any MediaType.isJson = true

/-- Of members among which a schema stands at most once, and holds null or a text, just
    that schema is taken. -/
theorem collects_schema {ms : List (String × List Char)}
    (honce : (ms.map Prod.fst).count "schema" ≤ 1)
    (hvalues : ∀ m ∈ ms, m.1 = "schema" → IsNull m.2 ∨ ∃ name, IsText name m.2) :
    Collects resetFields ms [] ∧ ms.reverse.lookup "schema" = none
      ∨ ∃ value v, Collects resetFields ms [("schema", v)]
        ∧ ms.reverse.lookup "schema" = some value ∧ Holds ⟨"schema", false⟩ value v := by
  -- From the last member on: one that is called schema stands once, so nothing behind it is
  -- collected for that field.
  induction ms with
  | nil => exact .inl ⟨.nil, rfl⟩
  | cons m ms ih =>
      obtain ⟨name, value⟩ := m
      rw [List.map_cons, List.count_cons] at honce
      have hrest := ih (by omega) fun n hn => hvalues n (List.mem_cons_of_mem _ hn)
      rw [List.reverse_cons, List.lookup_append]
      by_cases hname : name = "schema"
      · subst hname
        have hnone : ms.reverse.lookup "schema" = none := by
          refine List.lookup_eq_none_iff.mpr fun n hn => bne_iff_ne.mpr fun heq => ?_
          have hcount : (ms.map Prod.fst).count "schema" = 0 := by simpa using honce
          exact List.count_eq_zero.mp hcount
            (heq ▸ List.mem_map_of_mem (List.mem_reverse.mp hn))
        rcases hrest with ⟨hms, -⟩ | ⟨value', v, -, hsome, -⟩
        · refine .inr ⟨value, ?_⟩
          rcases hvalues _ List.mem_cons_self rfl with hnull | ⟨n, htext⟩
          · exact ⟨none, .take rfl (.null rfl hnull) hms, by simp [hnone], .null rfl hnull⟩
          · exact ⟨some n, .take rfl (.text htext) hms, by simp [hnone], .text htext⟩
        · rw [hnone] at hsome
          exact nomatch hsome
      · have hother : (resetFields.find? fun f => f.name == name) = none := by
          simp [resetFields, Ne.symm hname]
        have hlast : [(name, value)].lookup "schema" = none := by
          simpa [List.lookup_eq_none_iff] using Ne.symm hname
        rw [hlast, Option.or_none]
        rcases hrest with ⟨hms, hnone⟩ | ⟨value', v, hms, hsome, hholds⟩
        · exact .inl ⟨.pass hother hms, hnone⟩
        · exact .inr ⟨value', v, .pass hother hms, hsome, hholds⟩

/-- What is read from such a body is what it asks for. -/
theorem asks_of_document {r : Request} {ms : List (String × List Char)} (hdocument : IsDocument r)
    (hsize : r.body.utf8ByteSize ≤ bodyLimit) (hbody : IsObject ms r.body) (honce : (ms.map Prod.fst).count "schema" ≤ 1)
    (hvalues : ∀ m ∈ ms, m.1 = "schema" → IsNull m.2 ∨ ∃ name, IsText name m.2)
    (hnames : ¬r.NamesNone) (active : Dataset) : Asks active r.body (r.loads active) := by
  -- a body that is announced as a document and not too long is read as the object it is
  have hread : ∀ vs, Collects resetFields ms vs → (vs.map Prod.fst).Nodup →
      readBody resetFields r.contentType? r.body = BodyReader.valuesOf resetFields vs := by
    intro vs hvs hnodup
    unfold readBody
    rw [if_pos (show Option.any _ _ = true from hdocument), if_neg (Nat.not_lt.mpr hsize)]
    exact BodyReader.record_object hbody hvs hnodup
  rcases collects_schema honce hvalues with ⟨hms, hnone⟩ | ⟨value, v, hms, hsome, hholds⟩
  · have hschema : r.schema? = none := by
      unfold Request.schema?
      rw [hread [] hms List.nodup_nil]
      rfl
    unfold Request.loads
    rw [hschema]
    exact .absent hbody hnone
  · have hschema : r.schema? = v := by
      unfold Request.schema?
      rw [hread _ hms (List.nodup_singleton _)]
      rfl
    unfold Request.loads
    rw [hschema]
    cases hholds with
    | null _ hnull => exact .null hbody hsome hnull
    | @text name htext =>
        cases hd : Dataset.ofName? name with
        | none => exact absurd ⟨name, hschema, hd⟩ hnames
        | some d =>
            rw [Option.bind_some, hd]
            exact .named hbody hsome htext hd

/-- **RESETS**: a request for a reset keeps its promise exactly when it names no dataset
    that there is, or a dataset is loaded all or nothing and, if it is loaded, is the one
    that the body asks for.  For an object that is sent as a document and is not too large,
    with a schema that stands in it at most once and is null or a text, only the load can
    break it; and no load that succeeds over plain names does.  A body that is refused, for
    its type, its size, its form or its fields, is answered with 200 all the same when the
    active dataset can be loaded; so the promise is broken unless just that was asked
    for. -/
theorem reset_keepsPromise {σ ε τ : Type} [Connection σ ε] [ToString ε]
    {held : σ → String → Option τ} (h : Standard held) (s : Service σ) {r : Request}
    (hmethod : r.method = "POST") (hpath : r.path = "/api/reset") :
    (KeepsPromise held s r ↔ r.NamesNone
        ∨ Connection.AllOrNothing held (r.loads s.active) s.database
          ∧ ((Connection.load (r.loads s.active) s.database).1 = .ok () →
            Asks s.active r.body (r.loads s.active)))
      ∧ (IsDocument r → r.body.utf8ByteSize ≤ bodyLimit → ∀ ms, IsObject ms r.body →
        (ms.map Prod.fst).count "schema" ≤ 1 →
        (∀ m ∈ ms, m.1 = "schema" → IsNull m.2 ∨ ∃ name, IsText name m.2) →
        (KeepsPromise held s r ↔ r.NamesNone
          ∨ Connection.AllOrNothing held (r.loads s.active) s.database))
      ∧ ((∀ names, Connection.tableNames s.database = .ok names → ∀ n ∈ names, PlainName n) →
        ∀ d, (Connection.load d s.database).1 = .ok () →
          Connection.AllOrNothing held d s.database)
      ∧ ∀ fault, readBody resetFields r.contentType? r.body = .error fault →
        (Connection.load s.active s.database).1 = .ok () →
        (s.handle r).response.status = statusOk
          ∧ (s.handle r).service = ⟨(Connection.load s.active s.database).2, s.active⟩
          ∧ (KeepsPromise held s r ↔ Connection.AllOrNothing held s.active s.database
            ∧ Asks s.active r.body s.active) := by
  -- a request that names no dataset of the service loads nothing and promises nothing
  have hiff : KeepsPromise held s r ↔ r.NamesNone
      ∨ Connection.AllOrNothing held (r.loads s.active) s.database
        ∧ ((Connection.load (r.loads s.active) s.database).1 = .ok () →
          Asks s.active r.body (r.loads s.active)) := by
    by_cases hnames : r.NamesNone
    · exact iff_of_true (keepsPromise_namesNone hmethod hpath hnames) (.inl hnames)
    · rw [keepsPromise_loads hmethod hpath hnames, or_iff_right hnames]
  refine ⟨hiff, ?_, fun hplain d hok => h.allOrNothing_of_plain hplain hok, ?_⟩
  · intro hdocument hsize ms hbody honce hvalues
    rw [hiff]
    by_cases hnames : r.NamesNone
    · exact iff_of_true (.inl hnames) (.inl hnames)
    · have hasks := asks_of_document hdocument hsize hbody honce hvalues hnames s.active
      rw [or_iff_right hnames, or_iff_right hnames]
      exact and_iff_left fun _ => hasks
  -- a body that is refused counts as none, so the active dataset is loaded
  · intro fault hbody hok
    obtain ⟨hnames, hloads⟩ := loads_refused hbody
    have hhandled := (handle_loads (s := s) hmethod hpath hnames).1
    rw [hloads s.active] at hhandled hiff
    obtain ⟨hstatus, hservice⟩ := hhandled hok
    refine ⟨hstatus, hservice, ?_⟩
    rw [hiff, or_iff_right hnames]
    exact and_congr_right' ⟨fun hasks => hasks hok, fun hasks _ => hasks⟩

/-- The body asks for the store. -/
theorem isObject_store :
    IsObject [("schema", "\"store\"\x7d".toList)] "\x7b\"schema\":\"store\"\x7d" := by
  have hmember : IsMember "schema" "\"store\"\x7d".toList
      "\"schema\":\"store\"\x7d".toList ['\x7d'] :=
    ⟨"schema\":\"store\"\x7d".toList, ":\"store\"\x7d".toList, by decide, by decide, by decide,
      by decide⟩
  exact ⟨"\"schema\":\"store\"\x7d".toList, [], by decide, .inl (.last hmember rfl), rfl⟩

theorem isText_store : IsText "store" "\"store\"\x7d".toList :=
  ⟨"store\"\x7d".toList, ['\x7d'], by decide, by decide⟩

/-- The database after rows were deleted. -/
theorem tidy_deleted :
    ((start .company).after [.posted "/api/execute" "[\"DELETE FROM projects\"]"]).database.Tidy :=
  (agrees_after Database.orderly (agrees_start .company) harmless_deleting).tidy

/-- Over a tidy database a load is all or nothing, and it succeeds. -/
theorem load_tidy_allOrNothing {db : Database} (hdb : db.Tidy) (d : Dataset) :
    (Connection.load d db).1 = .ok () ∧ Connection.AllOrNothing Database.held d db := by
  obtain ⟨db', hload, -, hfresh, -⟩ := Database.orderly.load_tidy hdb d
  rw [Connection.allOrNothing_loaded hload, hload]
  exact ⟨rfl, hfresh.whole⟩

/-- After rows were deleted, the store is asked for and loaded. -/
theorem reset_keepsPromise_store :
    let s := (start .company).after [.posted "/api/execute" "[\"DELETE FROM projects\"]"]
    KeepsPromise Database.held s (.posted "/api/reset" "\x7b\"schema\":\"store\"\x7d") := by
  intro s
  have hpath : (Request.posted "/api/reset" "\x7b\"schema\":\"store\"\x7d").path = "/api/reset" :=
    Request.path_posted _ (by decide)
  have hkept := (reset_keepsPromise Database.standard s rfl hpath).2.1 (by unfold IsDocument; cbv)
    (by decide +kernel) _ isObject_store (by decide) fun m hm _ => by
      rw [List.mem_singleton.mp hm]
      exact .inr ⟨"store", isText_store⟩
  exact hkept.mpr (.inr (load_tidy_allOrNothing tidy_deleted _).2)

/-- A body that asks for the store and does not say that it is a document has what was
    deleted put back, and is answered with 200. -/
theorem reset_breaks_promise :
    let s := (start .company).after [.posted "/api/execute" "[\"DELETE FROM projects\"]"]
    let r : Request := ⟨"POST", "/api/reset", none, "\x7b\"schema\":\"store\"\x7d"⟩
    (s.handle r).response.status = statusOk ∧ (s.handle r).service.Loaded Database.held .company
      ∧ Asks s.active r.body .store ∧ ¬KeepsPromise Database.held s r := by
  intro s r
  have hactive : s.active = .company := by
    have hread : BodyReader.record executeFields "[\"DELETE FROM projects\"]"
        = .ok [some "DELETE FROM projects", none] := rfl
    show ((start .company).handle (.posted "/api/execute" _)).service.active = _
    rw [handle_posted (start .company) (by decide +kernel) hread, replayNow_service]
    rfl
  have hbody : readBody resetFields r.contentType? r.body = .error .mediaType := rfl
  obtain ⟨hnames, hloads⟩ := loads_refused hbody
  obtain ⟨hok, hall⟩ := load_tidy_allOrNothing tidy_deleted (r.loads s.active)
  obtain ⟨hstatus, hservice⟩ := (handle_loads (s := s) rfl (by decide) hnames).1 hok
  rw [hloads s.active, hactive] at hservice hall hok
  have hasks : Asks s.active r.body .store :=
    .named isObject_store rfl isText_store rfl
  refine ⟨hstatus, ?_, hasks, ?_⟩
  · rw [hservice]
    exact ⟨rfl, hall.2 hok⟩
  · rintro (⟨d, hother, -, hloaded, -⟩ | ⟨hrefused, -⟩)
    · rw [hservice] at hloaded
      obtain rfl : Dataset.company = d := hloaded
      exact nomatch hasks.unique hother
    · exact hrefused hstatus

end Service

end QueryReplay
