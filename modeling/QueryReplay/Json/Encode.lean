import QueryReplay.Json.Value

/-!
# Writing domain values as documents
-/

namespace QueryReplay.Json

/-- A variant with its content. -/
def variant (name : String) (content : Json) : Json := .object [(name, content)]

/-- A value, or null when there is none. -/
def orNull {α : Type} (f : α → Json) : Option α → Json
  | some a => f a
  | none => .null

/-- A list of values. -/
def list {α : Type} (f : α → Json) (as : List α) : Json := .array (as.map f)

/-- A member that is left out when there is no value. -/
def optMember (name : String) : Option Json → List (String × Json)
  | some j => [(name, j)]
  | none => []

end QueryReplay.Json
