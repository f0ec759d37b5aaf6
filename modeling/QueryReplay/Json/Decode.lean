import QueryReplay.Json.Value

/-!
# Reading domain values from documents

A record is written as an object of its fields, and may also be written as the
array of its fields in order.  Fields that an object has beyond those asked for
are ignored.
-/

namespace QueryReplay.Json

/-- The integer or double of a number, as a double. -/
def double? : Json → Option Double
  | .number n => some n.toDouble
  | _ => none

def string? : Json → Option String
  | .string s => some s
  | _ => none

def array? : Json → Option (List Json)
  | .array items => some items
  | _ => none

def object? : Json → Option Members
  | .object ms => some ms
  | _ => none

/-- A list whose items are all read by `f`. -/
def listOf? {α : Type} (f : Json → Option α) (j : Json) : Option (List α) :=
  j.array?.bind fun items => items.mapM f

/-- An array of just two items. -/
def pairOf? {α β : Type} (f : Json → Option α) (g : Json → Option β) : Json → Option (α × β)
  | .array [a, b] => do
    let a ← f a
    let b ← g b
    return (a, b)
  | _ => none

/-- The fields of a record, by name or by position. -/
inductive Fields where
  | named (members : Members)
  | positional (items : List Json)

namespace Fields

/-- The fields of a record that has at most `count` of them. -/
def ofJson? (count : Nat) : Json → Option Fields
  | .object ms => some (.named ms)
  | .array items => if items.length ≤ count then some (.positional items) else none
  | _ => none

/-- A field that must be there. -/
def required {α : Type} (fields : Fields) (position : Nat) (name : String)
    (f : Json → Option α) : Option α :=
  match fields with
  | named ms => (Members.get? ms name).bind f
  | positional items => items[position]?.bind f

/-- A field that may be null, and by name also absent. -/
def nullable {α : Type} (fields : Fields) (position : Nat) (name : String)
    (f : Json → Option α) : Option (Option α) :=
  let read (j : Json) : Option (Option α) := if j.isNull then some none else (f j).map some
  match fields with
  | named ms => read (Members.getD ms name)
  | positional items => items[position]?.bind read

/-- A field with a value of its own when it is absent. -/
def defaulted {α : Type} (fields : Fields) (position : Nat) (name : String)
    (f : Json → Option α) (value : α) : Option α :=
  let found := match fields with
    | named ms => Members.get? ms name
    | positional items => items[position]?
  match found with
  | some j => f j
  | none => some value

end Fields

end QueryReplay.Json
