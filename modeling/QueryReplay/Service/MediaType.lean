import QueryReplay.Text.Caseless

/-!
# Media types

The header that says what a body is: a type, a subtype that may end in a suffix
behind a plus sign, and parameters behind semicolons.
-/

namespace QueryReplay

/-- A media type without its parameters, in lower case. -/
structure MediaType where
  type : String
  subtype : String
  suffix? : Option String
deriving DecidableEq, Repr

namespace MediaType

/-- A character of a word in a header. -/
def isTokenChar (c : Char) : Bool := c.isAlphanum || "!#$%&'*+-.^_`|~".contains c

/-- A character between the quotes of a parameter. -/
def isQuotedChar (c : Char) : Bool := 31 < c.toNat && c.toNat != 127

/-- What follows a value in quotes up to the next parameter. -/
def afterQuote? (cs : List Char) : Option (List Char) :=
  match cs.dropWhile fun c => c != '"' && isQuotedChar c with
  | '"' :: rest =>
    match rest.dropWhile (· == ' ') with
    | [] => some []
    | ';' :: rest => some rest
    | _ => none
  | _ => none

/-- What follows the value of a parameter up to the next one.  The first
character between quotes is part of the value, whatever it is. -/
def parameterValue? (cs : List Char) : Option (List Char) :=
  match cs with
  | '"' :: c :: rest => if isQuotedChar c then afterQuote? rest else none
  | cs =>
    match cs.span isTokenChar with
    | (_, []) => some []
    | (_ :: _, ';' :: rest) => some rest
    | _ => none

/-- Whether the text behind the first semicolon is parameters, each a name, an
equals sign and a value; `n` bounds their number. -/
def areParameters : Nat → List Char → Bool
  | 0, _ => false
  | n + 1, cs =>
    match cs.dropWhile (· == ' ') with
    | [] => true
    | cs =>
      match cs.span isTokenChar with
      | (_ :: _, '=' :: rest) =>
        match parameterValue? rest with
        | some rest => areParameters n rest
        | none => false
      | _ => false

/-- The last plus sign of a subtype cuts off a suffix, unless it comes first. -/
def splitSuffix (subtype : List Char) : String × Option String :=
  let tail := (subtype.reverse.takeWhile (· != '+')).reverse
  let size := subtype.length - tail.length - 1
  if 0 < size then (String.ofList (subtype.take size), some (String.ofList tail))
  else (String.ofList subtype, none)

/-- Reads a header. -/
def ofHeader? (s : String) : Option MediaType :=
  let (type, rest) := (Text.lower s).toList.span isTokenChar
  match type, rest with
  | _ :: _, '/' :: rest =>
    let (subtype, rest) := rest.span isTokenChar
    let (name, suffix?) := splitSuffix subtype
    let found : MediaType := ⟨String.ofList type, name, suffix?⟩
    match subtype, rest with
    | _, [] => some found
    | _ :: _, ';' :: rest => if areParameters (rest.length + 1) rest then some found else none
    | _, _ => none
  | _, _ => none

/-- Whether bodies of the type are documents. -/
def isJson (m : MediaType) : Bool :=
  m.type == "application" && (m.subtype == "json" || m.suffix? == some "json")

end MediaType

end QueryReplay
