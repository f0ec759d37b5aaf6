import QueryReplay.Json.Value

/-!
# Reading document text

A reader takes a value off the front of the characters and answers the rest.
Values nest at most 127 deep; the remaining depth is also what the recursion
descends on.

A decimal is read as the digits that fit 64 bits, rounded to a double and then
scaled once by a power of ten, so that long literals are rounded twice.
-/

namespace QueryReplay.Json

-- powers are the core library's, also beside the instances that Mathlib declares
attribute [local instance (high)] instPowNat

/-- Takes a value off the front of the characters. -/
abbrev Reader (α : Type) := List Char → Option (α × List Char)

namespace Read

/-- A blank between the elements of a document. -/
def isGap (c : Char) : Bool := c == ' ' || c == '\t' || c == '\n' || c == '\r'

def skipGap (cs : List Char) : List Char := cs.dropWhile isGap

def hexValue? (c : Char) : Option Nat :=
  if '0' ≤ c && c ≤ '9' then some (c.toNat - 48)
  else if 'a' ≤ c && c ≤ 'f' then some (c.toNat - 87)
  else if 'A' ≤ c && c ≤ 'F' then some (c.toNat - 55)
  else none

/-- Four hexadecimal digits. -/
def codeUnit? : Reader Nat
  | a :: b :: c :: d :: rest => do
    let a ← hexValue? a
    let b ← hexValue? b
    let c ← hexValue? c
    let d ← hexValue? d
    return (((a * 16 + b) * 16 + c) * 16 + d, rest)
  | _ => none

/-- The character after `\u`; two units of a surrogate pair make one character. -/
def unicodeEscape? (cs : List Char) : Option (Char × List Char) := do
  let (high, rest) ← codeUnit? cs
  if 0xD800 ≤ high && high < 0xDC00 then
    match rest with
    | '\\' :: 'u' :: rest =>
      let (low, rest) ← codeUnit? rest
      if 0xDC00 ≤ low && low < 0xE000 then
        return (Char.ofNat (0x10000 + (high - 0xD800) * 0x400 + (low - 0xDC00)), rest)
      else none
    | _ => none
  else if 0xDC00 ≤ high && high < 0xE000 then none
  else return (Char.ofNat high, rest)

/-- The character after a backslash. -/
def escape? : Reader Char
  | '"' :: rest => some ('"', rest)
  | '\\' :: rest => some ('\\', rest)
  | '/' :: rest => some ('/', rest)
  | 'b' :: rest => some ('\x08', rest)
  | 'f' :: rest => some ('\x0c', rest)
  | 'n' :: rest => some ('\n', rest)
  | 'r' :: rest => some ('\r', rest)
  | 't' :: rest => some ('\t', rest)
  | 'u' :: rest => unicodeEscape? rest
  | _ => none

/-- The characters of a string literal after its opening quote. -/
def stringBody : Nat → List Char → List Char → Option (List Char × List Char)
  | 0, _, _ => none
  | fuel + 1, done, cs =>
    match cs with
    | [] => none
    | '"' :: rest => some (done.reverse, rest)
    | '\\' :: rest =>
      match escape? rest with
      | some (c, rest) => stringBody fuel (c :: done) rest
      | none => none
    | c :: rest => if c.toNat < 0x20 then none else stringBody fuel (c :: done) rest

/-- A string literal after its opening quote. -/
def string (cs : List Char) : Option (String × List Char) :=
  (stringBody (cs.length + 1) [] cs).map fun (s, rest) => (String.ofList s, rest)

/-- Appends decimal digits while the number fits 64 bits; answers the number
and how many digits went into it. -/
def takeDigits (limit : Nat) : Nat → List Char → Nat × Nat
  | n, [] => (n, 0)
  | n, c :: rest =>
    let next := n * 10 + (c.toNat - 48)
    if next < limit then
      let (total, used) := takeDigits limit next rest
      (total, used + 1)
    else (n, 0)

/-- `± significand · 10^exponent`, the significand rounded before it is scaled.
There is no answer when the result is too large. -/
def scaled? (negative : Bool) (significand : Nat) (exponent : Int) : Option Double :=
  let start := Double.ofRatio negative significand 1
  let power (k : Nat) := Double.ofDecimal false 1 (k : Int)
  if 0 ≤ exponent then
    if significand = 0 then some start
    else if exponent ≤ 308 then
      let x := start.mul (power exponent.toNat)
      if x.isFinite then some x else none
    else none
  else
    let down := (-exponent).toNat
    if down ≤ 308 then some (start.div (power down))
    else if down ≤ 616 then some ((start.div (power 308)).div (power (down - 308)))
    else some (.zero negative)

/-- An exponent after its mark. -/
def exponent? (cs : List Char) : Option (Int × List Char) :=
  let (negative, cs) := match cs with
    | '-' :: rest => (true, rest)
    | '+' :: rest => (false, rest)
    | _ => (false, cs)
  let (digits, rest) := cs.span Char.isDigit
  if digits.isEmpty then none
  else
    let n : Int := (digits.foldl (fun n c => n * 10 + (c.toNat - 48)) 0 : Nat)
    some (if negative then -n else n, rest)

/-- The part of a number after its integer digits. -/
def fractionAndExponent? (negative : Bool) (significand : Nat) (dropped : Nat)
    (cs : List Char) : Option (Double × List Char) := do
  let (significand, places, rest) ←
    match cs with
    | '.' :: rest =>
      let (digits, rest) := rest.span Char.isDigit
      if digits.isEmpty then none
      else
        let (total, used) := takeDigits (2 ^ (64 : Nat)) significand digits
        some (total, used, rest)
    | _ => some (significand, 0, cs)
  let (power, rest) ←
    match rest with
    | 'e' :: rest => exponent? rest
    | 'E' :: rest => exponent? rest
    | _ => some (0, rest)
  let x ← scaled? negative significand ((dropped : Int) - (places : Int) + power)
  return (x, rest)

/-- A number after its sign.  Without point and exponent it is an integer, when
64 bits hold it and it is not a negative zero. -/
def unsignedNumber? (negative : Bool) (cs : List Char) :
    Option (Json.Number × List Char) :=
  let (digits, rest) := cs.span Char.isDigit
  match digits with
  | [] => none
  | first :: more =>
    if first == '0' && !more.isEmpty then none
    else
      let (significand, used) := takeDigits (2 ^ (64 : Nat)) 0 digits
      let dropped := digits.length - used
      let plain := match rest with
        | '.' :: _ | 'e' :: _ | 'E' :: _ => false
        | _ => dropped == 0
      if plain then
        if !negative then some (.int significand, rest)
        else if 0 < significand && significand ≤ 2 ^ (63 : Nat) then some (.int (-(significand : Int)), rest)
        else some (.float (.ofRatio true significand 1), rest)
      else
        (fractionAndExponent? negative significand dropped rest).map
          fun (x, rest) => (.float x, rest)

/-- A number. -/
def number? : List Char → Option (Json.Number × List Char)
  | '-' :: rest => unsignedNumber? true rest
  | cs => unsignedNumber? false cs

/-- Items up to the closing bracket, at least one. -/
def items (value : Reader Json) : Nat → List Json → List Char → Option (List Json × List Char)
  | 0, _, _ => none
  | fuel + 1, done, cs => do
    let (j, rest) ← value (skipGap cs)
    match skipGap rest with
    | ',' :: rest => items value fuel (j :: done) rest
    | ']' :: rest => some ((j :: done).reverse, rest)
    | _ => none

/-- One member: a name, a colon and a value. -/
def member (value : Reader Json) (cs : List Char) : Option ((String × Json) × List Char) :=
  match cs with
  | '"' :: rest => do
    let (name, rest) ← string rest
    match skipGap rest with
    | ':' :: rest =>
      let (j, rest) ← value (skipGap rest)
      some ((name, j), rest)
    | _ => none
  | _ => none

/-- Members up to the closing brace, at least one. -/
def members (value : Reader Json) :
    Nat → List (String × Json) → List Char → Option (List (String × Json) × List Char)
  | 0, _, _ => none
  | fuel + 1, done, cs => do
    let (m, rest) ← member value (skipGap cs)
    match skipGap rest with
    | ',' :: rest => members value fuel (m :: done) rest
    | '\x7d' :: rest => some ((m :: done).reverse, rest)
    | _ => none

/-- The characters that follow a given word. -/
def keyword? (word : List Char) (cs : List Char) : Option (List Char) :=
  if word.isPrefixOf cs then some (cs.drop word.length) else none

/-- A value that nests less deep than `depth`. -/
def value : Nat → Reader Json
  | depth, cs =>
    match cs with
    | '"' :: rest => (string rest).map fun (s, rest) => (.string s, rest)
    | '[' :: rest =>
      match depth with
      | 0 => none
      | depth + 1 =>
        match skipGap rest with
        | ']' :: rest => some (.array [], rest)
        | _ => (items (value depth) (rest.length + 1) [] rest).map
            fun (js, rest) => (.array js, rest)
    | '\x7b' :: rest =>
      match depth with
      | 0 => none
      | depth + 1 =>
        match skipGap rest with
        | '\x7d' :: rest => some (.object [], rest)
        | _ => (members (value depth) (rest.length + 1) [] rest).map
            fun (ms, rest) => (.object (Members.ofList ms), rest)
    | 't' :: rest => (keyword? ['r', 'u', 'e'] rest).map fun rest => (.bool true, rest)
    | 'f' :: rest => (keyword? ['a', 'l', 's', 'e'] rest).map fun rest => (.bool false, rest)
    | 'n' :: rest => (keyword? ['u', 'l', 'l'] rest).map fun rest => (.null, rest)
    | _ => (number? cs).map fun (n, rest) => (.number n, rest)

end Read

/-- How deep values may nest. -/
def maxDepth : Nat := 127

/-- The value at the start of a text, and what follows it. -/
def readPrefix? (cs : List Char) : Option (Json × List Char) :=
  Read.value maxDepth (Read.skipGap cs)

/-- The value that a text holds, with nothing but blanks around it. -/
def read? (s : String) : Option Json := do
  let (j, rest) ← readPrefix? s.toList
  if (Read.skipGap rest).isEmpty then some j else none

end QueryReplay.Json
