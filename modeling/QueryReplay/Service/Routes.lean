import QueryReplay.Engine.Connection
import QueryReplay.Replay
import QueryReplay.Replay.Step.Codec
import QueryReplay.Service.Body
import QueryReplay.Service.Request

/-!
# Routes

Four routes: replaying a statement, listing the tables, loading a dataset anew,
and a sign of life.  The service keeps a database, which may be of any system, and
remembers which dataset was loaded last.
-/

namespace QueryReplay

/-- A database and the dataset that was loaded last. -/
structure Service (σ : Type) where
  database : σ
  active : Dataset
deriving DecidableEq, Repr

/-- What a request does: the response, the service after it, and what was noted. -/
structure Handled (σ : Type) where
  response : Response
  service : Service σ
  events : List Event := []

namespace Event

/-- A statement arrives. -/
def requested (query : String) (schema? : Option String) : Event :=
  ⟨.info, some "Execute request",
    [("query", .string query), ("schema", .string (Text.quotedOption schema?))]⟩

/-- The dataset that a request names is unknown. -/
def datasetRejected (error : String) : Event :=
  ⟨.warn, some "Rejected dataset", [("error", .string error)]⟩

/-- A dataset could not be loaded. -/
def loadFailed (error : String) : Event :=
  ⟨.warn, some "Dataset load failed", [("error", .string error)]⟩

/-- A statement was replayed; all fields are texts. -/
def replayed (o : Outcome) : Event :=
  ⟨.info, none,
    [("event", .string "query_replayed"), ("steps", .string (toString o.steps.length)),
      ("rows", .string (toString o.finalResult.size)),
      ("failed", .string (if o.isSuccess then "false" else "true"))]⟩

/-- A dataset was loaded on request. -/
def datasetReset (d : Dataset) : Event :=
  ⟨.info, some "Dataset reset", [("dataset", .string d.name)]⟩

end Event

namespace Service

variable {σ ε : Type} [Connection σ ε]

/-- The service at its start: a dataset is loaded, and without it there is no service. -/
def launch (d : Dataset) (db : σ) : Except ε (Service σ) :=
  match Connection.load d db with
  | (.ok _, db) => .ok ⟨db, d⟩
  | (.error e, _) => .error e

/-- Loads a dataset and makes it the active one. -/
def load (s : Service σ) (d : Dataset) : Except ε Unit × Service σ :=
  match Connection.load d s.database with
  | (.ok _, db) => (.ok (), ⟨db, d⟩)
  | (.error e, db) => (.error e, { s with database := db })

/-- Loads the dataset that is named, unless it is active. -/
def switch (s : Service σ) (named? : Option Dataset) : Except ε Unit × Service σ :=
  match named? with
  | some d => if d = s.active then (.ok (), s) else s.load d
  | none => (.ok (), s)

/-- The dataset of a name, or the complaint about it. -/
def dataset? : Option String → Except String (Option Dataset)
  | none => .ok none
  | some name =>
    match Dataset.ofName? name with
    | some d => .ok (some d)
    | none => .error (Dataset.unknownMessage name)

/-- A response that says what is wrong. -/
def complaint (status : Nat) (message : String) : Response :=
  ⟨status, .document (.object [("error", .string message)])⟩

/-- A response with the outcome of a replay. -/
def outcomeResponse (status : Nat) (o : Outcome) : Response := ⟨status, .document o.toJson⟩

/-- The outcome of a replay that did not begin. -/
def failedOutcome (message : String) : Outcome := .failure [] message (.zero false)

/-! ## Replaying a statement -/

variable [ToString ε]

/-- Replays a statement on the tables as they are. -/
def replayNow (s : Service σ) (sql : String) : Handled σ :=
  let r := replay Connection.engine sql s.database
  ⟨outcomeResponse statusOk r.outcome, { s with database := r.state }, [.replayed r.outcome]⟩

/-- Replays a statement on the tables of a dataset. -/
def execute (s : Service σ) (sql : String) (schema? : Option String) : Handled σ :=
  let arrival := Event.requested sql schema?
  match dataset? schema? with
  | .error message =>
    ⟨outcomeResponse statusBadRequest (failedOutcome message), s,
      [arrival, .datasetRejected message]⟩
  | .ok named? =>
    match s.switch named? with
    | (.error e, s) =>
      ⟨outcomeResponse statusFailed (failedOutcome (toString e)), s,
        [arrival, .loadFailed (toString e)]⟩
    | (.ok _, s) =>
      let h := s.replayNow sql
      { h with events := arrival :: h.events }

/-- The fields of a request to replay a statement. -/
def executeFields : List TextField := [⟨"query", true⟩, ⟨"schema", false⟩]

def handleExecute (s : Service σ) (r : Request) : Handled σ :=
  match readBody executeFields r.contentType? r.body with
  | .error fault => ⟨⟨fault.status, .none⟩, s, []⟩
  | .ok values => s.execute ((values.head?.join).getD "") ((values[1]?).join)

/-! ## Listing the tables -/

def columnDocument (c : ColumnInfo) : Json :=
  .object [("name", .string c.name), ("dataType", .string c.dataType),
    ("isNullable", .bool c.isNullable)]

def tableDocument (t : TableInfo) : Json :=
  .object [("name", .string t.name), ("columns", .array (t.columns.map columnDocument)),
    ("rowCount", .nat t.rowCount)]

def handleTables (s : Service σ) : Handled σ :=
  match Connection.info s.database with
  | (.ok tables, db) =>
    ⟨⟨statusOk, .document (.object [("dataset", .string s.active.name),
      ("tables", .array (tables.map tableDocument))])⟩, { s with database := db }, []⟩
  | (.error e, db) => ⟨complaint statusFailed (toString e), { s with database := db }, []⟩

/-! ## Loading a dataset anew -/

/-- Loads the dataset that is named, or the active one. -/
def reset (s : Service σ) (schema? : Option String) : Handled σ :=
  match dataset? schema? with
  | .error message => ⟨complaint statusBadRequest message, s, []⟩
  | .ok named? =>
    let d := named?.getD s.active
    match s.load d with
    | (.error e, s) => ⟨complaint statusFailed (toString e), s, []⟩
    | (.ok _, s) =>
      ⟨⟨statusOk, .document (.object [("dataset", .string d.name), ("tables", .strings d.tables)])⟩,
        s, [.datasetReset d]⟩

/-- The fields of a request to load a dataset. -/
def resetFields : List TextField := [⟨"schema", false⟩]

/-- A body that would be refused counts as none. -/
def handleReset (s : Service σ) (r : Request) : Handled σ :=
  match readBody resetFields r.contentType? r.body with
  | .ok values => s.reset values.head?.join
  | .error _ => s.reset none

/-! ## Routes -/

inductive Route where
  | execute | tables | reset | health
deriving DecidableEq, Repr

/-- The route of a path. -/
def Route.ofPath? : String → Option Route
  | "/api/execute" => some execute
  | "/api/tables" => some tables
  | "/api/reset" => some reset
  | "/health" => some health
  | _ => none

/-- Whether a route only looks. -/
def Route.isRead : Route → Bool
  | tables => true
  | health => true
  | _ => false

/-- What a route does with a request of its method. -/
def perform (s : Service σ) (r : Request) : Route → Handled σ
  | .execute => s.handleExecute r
  | .tables => s.handleTables
  | .reset => s.handleReset r
  | .health => ⟨⟨statusOk, .text "OK"⟩, s, []⟩

/-- A response whose content is held back. -/
def headOnly (h : Handled σ) : Handled σ :=
  let content := match h.response.content with
    | .text _ => Content.text ""
    | _ => .none
  { h with response := ⟨h.response.status, content⟩ }

/-- Handles a request.  Routes that only look are asked with GET, or with HEAD
for a response without content; the others with POST. -/
def handle (s : Service σ) (r : Request) : Handled σ :=
  match Route.ofPath? r.path with
  | none => ⟨⟨statusNotFound, .none⟩, s, []⟩
  | some route =>
    match route.isRead, r.method with
    | true, "GET" => s.perform r route
    | true, "HEAD" => headOnly (s.perform r route)
    | false, "POST" => s.perform r route
    | _, _ => ⟨⟨statusMethodNotAllowed, .none⟩, s, []⟩

/-- Handles requests one after another. -/
def handleAll (s : Service σ) : List Request → List Response × List Event
  | [] => ([], [])
  | r :: rest =>
    let h := s.handle r
    let (responses, events) := h.service.handleAll rest
    (h.response :: responses, h.events ++ events)

end Service

end QueryReplay
