import QueryReplay.Json.Reader

/-!
# Passing over values

A value that nobody asks for is checked for its form only: its numbers may be
too large, its escapes may stand for no character, and it may nest as deep as
it likes.
-/

namespace QueryReplay.Json.Skip

open Read (skipGap hexValue? keyword?)

/-- A character that may follow a backslash by itself. -/
def isPlainEscape (c : Char) : Bool := "\"\\/bfnrt".contains c

/-- The rest of a string literal through its closing quote. -/
def string : List Char → Option (List Char)
  | [] => none
  | '"' :: rest => some rest
  | '\\' :: 'u' :: a :: b :: c :: d :: rest =>
    if [a, b, c, d].all fun h => (hexValue? h).isSome then string rest else none
  | '\\' :: c :: rest => if isPlainEscape c then string rest else none
  | c :: rest => if c.toNat < 0x20 || c == '\\' then none else string rest

/-- One or more digits. -/
def digits (cs : List Char) : Option (List Char) :=
  match cs with
  | c :: rest => if c.isDigit then some (rest.dropWhile Char.isDigit) else none
  | [] => none

/-- The integer digits of a number, without a zero before others. -/
def integer : List Char → Option (List Char)
  | '0' :: c :: rest => if c.isDigit then none else some (c :: rest)
  | cs => digits cs

/-- A fraction, if there is one. -/
def fraction : List Char → Option (List Char)
  | '.' :: rest => digits rest
  | cs => some cs

/-- An exponent, if there is one. -/
def exponent (cs : List Char) : Option (List Char) :=
  let signed (rest : List Char) : Option (List Char) :=
    match rest with
    | '+' :: rest => digits rest
    | '-' :: rest => digits rest
    | rest => digits rest
  match cs with
  | 'e' :: rest => signed rest
  | 'E' :: rest => signed rest
  | cs => some cs

def number (cs : List Char) : Option (List Char) := do
  let unsigned := match cs with
    | '-' :: rest => rest
    | cs => cs
  exponent (← fraction (← integer unsigned))

/-- Items up to the closing bracket, at least one. -/
def items (value : List Char → Option (List Char)) : Nat → List Char → Option (List Char)
  | 0, _ => none
  | fuel + 1, cs => do
    let rest ← value (skipGap cs)
    match skipGap rest with
    | ',' :: rest => items value fuel rest
    | ']' :: rest => some rest
    | _ => none

/-- Members up to the closing brace, at least one. -/
def members (value : List Char → Option (List Char)) : Nat → List Char → Option (List Char)
  | 0, _ => none
  | fuel + 1, cs =>
    match skipGap cs with
    | '"' :: rest => do
      let rest ← string rest
      match skipGap rest with
      | ':' :: rest =>
        let rest ← value (skipGap rest)
        match skipGap rest with
        | ',' :: rest => members value fuel rest
        | '\x7d' :: rest => some rest
        | _ => none
      | _ => none
    | _ => none

/-- A value that nests less deep than `depth`. -/
def value : Nat → List Char → Option (List Char)
  | 0, _ => none
  | depth + 1, cs =>
    match cs with
    | '"' :: rest => string rest
    | '[' :: rest =>
      match skipGap rest with
      | ']' :: rest => some rest
      | _ => items (value depth) (rest.length + 1) rest
    | '\x7b' :: rest =>
      match skipGap rest with
      | '\x7d' :: rest => some rest
      | _ => members (value depth) (rest.length + 1) rest
    | 't' :: rest => keyword? ['r', 'u', 'e'] rest
    | 'f' :: rest => keyword? ['a', 'l', 's', 'e'] rest
    | 'n' :: rest => keyword? ['u', 'l', 'l'] rest
    | _ => number cs

end QueryReplay.Json.Skip

namespace QueryReplay.Json

/-- What follows the value at the front of the characters. -/
def skip? (cs : List Char) : Option (List Char) := Skip.value (cs.length + 1) (Read.skipGap cs)

end QueryReplay.Json
