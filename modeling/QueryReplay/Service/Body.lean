import QueryReplay.Json.Skip
import QueryReplay.Service.MediaType

/-!
# Request bodies

A body of the right type and of at most two mebibytes is read from left to right
and only as far as its record goes; the first fault decides how it is refused.  A
record is an object of its fields, or the array of their values in order.
-/

namespace QueryReplay

/-- Why a body is refused. -/
inductive BodyFault where
  /-- The header does not say that it is a document. -/
  | mediaType
  /-- It has more bytes than are read. -/
  | tooLarge
  /-- It is no document. -/
  | malformed
  /-- It is a document of another shape. -/
  | mismatch
deriving DecidableEq, Repr

/-- The status that refuses a body. -/
def BodyFault.status : BodyFault → Nat
  | mediaType => 415
  | tooLarge => 413
  | malformed => 400
  | mismatch => 422

/-- A field of a record that holds a text.  One that is not required may be null
or left out. -/
structure TextField where
  name : String
  required : Bool
deriving DecidableEq, Repr

namespace BodyReader

open Json.Read (skipGap)

/-- What follows, when there is something. -/
def orMalformed {α : Type} : Option α → Except BodyFault α
  | some a => .ok a
  | none => .error .malformed

/-- The fault of a value that should be something else: one that opens a list
or an object is not looked into. -/
def mismatchAt (cs : List Char) : BodyFault :=
  match cs with
  | '[' :: _ => .mismatch
  | '\x7b' :: _ => .mismatch
  | cs => if (Json.Read.value 0 cs).isSome then .mismatch else .malformed

def text (cs : List Char) : Except BodyFault (String × List Char) :=
  match skipGap cs with
  | '"' :: rest => orMalformed (Json.Read.string rest)
  | cs => .error (mismatchAt cs)

/-- The value of a field. -/
def fieldValue (f : TextField) (cs : List Char) : Except BodyFault (Option String × List Char) :=
  match f.required, skipGap cs with
  | false, 'n' :: rest => do
    let rest ← orMalformed (Json.Read.keyword? ['u', 'l', 'l'] rest)
    return (none, rest)
  | _, cs => do
    let (s, rest) ← text cs
    return (some s, rest)

/-- What follows a colon. -/
def afterColon (cs : List Char) : Except BodyFault (List Char) :=
  match skipGap cs with
  | ':' :: rest => .ok rest
  | _ => .error .malformed

/-- Reads what follows the name of a member; `found` are the fields before. -/
def memberValue (fields : List TextField) (found : List (String × Option String)) (name : String)
    (cs : List Char) : Except BodyFault (List (String × Option String) × List Char) :=
  match fields.find? fun f => f.name == name with
  | some f =>
    if (found.lookup name).isSome then .error .mismatch
    else do
      let (v, rest) ← fieldValue f (← afterColon cs)
      return (found ++ [(name, v)], rest)
  | none => do
    let rest ← orMalformed (Json.skip? (← afterColon cs))
    return (found, rest)

/-- Members up to the closing brace, at least one. -/
def members (fields : List TextField) :
    Nat → List (String × Option String) → List Char →
      Except BodyFault (List (String × Option String) × List Char)
  | 0, _, _ => .error .malformed
  | fuel + 1, found, cs =>
    match skipGap cs with
    | '"' :: rest => do
      let (name, rest) ← orMalformed (Json.Read.string rest)
      let (found, rest) ← memberValue fields found name rest
      match skipGap rest with
      | ',' :: rest => members fields fuel found rest
      | '\x7d' :: rest => return (found, rest)
      | _ => .error .malformed
    | _ => .error .malformed

/-- The values of all fields, in order. -/
def valuesOf (fields : List TextField) (found : List (String × Option String)) :
    Except BodyFault (List (Option String)) :=
  fields.mapM fun f =>
    match found.lookup f.name with
    | some v => .ok v
    | none => if f.required then .error .mismatch else .ok none

/-- The values of fields in an array, up to its closing bracket; `first` tells
that no item was read yet. -/
def items : List TextField → Bool → List Char → Except BodyFault (List (Option String))
  | [], _, cs =>
    match skipGap cs with
    | ']' :: _ => .ok []
    | _ => .error .malformed
  | f :: fields, first, cs =>
    match skipGap cs, first with
    | ']' :: _, _ => if (f :: fields).any TextField.required then .error .mismatch
        else .ok ((f :: fields).map fun _ => none)
    | ',' :: rest, false =>
      match skipGap rest with
      | ']' :: _ => .error .malformed
      | rest => do
        let (v, rest) ← fieldValue f rest
        return v :: (← items fields false rest)
    | rest, true => do
      let (v, rest) ← fieldValue f rest
      return v :: (← items fields false rest)
    | _, false => .error .malformed

/-- The values of the fields of a record. -/
def record (fields : List TextField) (body : String) : Except BodyFault (List (Option String)) :=
  match skipGap body.toList with
  | '\x7b' :: rest => do
    let found ←
      match skipGap rest with
      | '\x7d' :: _ => pure []
      | _ => (·.1) <$> members fields (rest.length + 1) [] rest
    valuesOf fields found
  | '[' :: rest => items fields true rest
  | cs => .error (mismatchAt cs)

end BodyReader

/-- The most bytes that a body may have. -/
def bodyLimit : Nat := 2097152

/-- The fields of a record that a body of some media type holds.  Its type is looked at
first, then its size, and only then what it says. -/
def readBody (fields : List TextField) (contentType? : Option String) (body : String) :
    Except BodyFault (List (Option String)) :=
  if (contentType?.bind MediaType.ofHeader?).any MediaType.isJson then
    if bodyLimit < body.utf8ByteSize then .error .tooLarge else BodyReader.record fields body
  else .error .mediaType

end QueryReplay
