import QueryReplay.Json.Value

/-!
# Requests and responses
-/

namespace QueryReplay

structure Request where
  method : String
  /-- The path, and behind a question mark what is asked of it. -/
  target : String
  /-- The header that says what the body is. -/
  contentType? : Option String
  body : String
deriving DecidableEq, Repr

/-- The path without what is asked of it. -/
def Request.path (r : Request) : String :=
  String.ofList (r.target.toList.takeWhile fun c => c != '?' && c != '#')

inductive Content where
  | none
  | text (s : String)
  | document (j : Json)
deriving Repr

structure Response where
  status : Nat
  content : Content := .none
deriving Repr

/-- The statuses in use. -/
def statusOk : Nat := 200
def statusBadRequest : Nat := 400
def statusNotFound : Nat := 404
def statusMethodNotAllowed : Nat := 405
def statusFailed : Nat := 500

end QueryReplay
