import QueryReplay.Json.Reader
import QueryReplay.Text.Blank
import QueryReplay.Yaml.Value

/-!
# Reading configuration text

Maps are written by indentation, one entry a line, or in braces; lists are
written in brackets.  A scalar stands on one line, bare or in quotes.  A comment
runs from a `#` at the beginning of a line or behind a blank to the end of the
line.
-/

namespace QueryReplay.Yaml

namespace Read

def isBlank (c : Char) : Bool := c == ' ' || c == '\t'

def isBreak (c : Char) : Bool := c == '\n' || c == '\r'

/-- The marks of lists and maps. -/
def isFlowMark (c : Char) : Bool := ",[]\x7b\x7d".contains c

/-- The characters that no bare scalar begins with. -/
def isIndicator (c : Char) : Bool := ",[]\x7b\x7d#&*!|>'\"%@`".contains c

/-! ## Lines -/

/-- The next line, when nothing but a comment is left on this one. -/
def endLine? (cs : List Char) : Option (List Char) :=
  let rest := cs.dropWhile isBlank
  match rest with
  | [] => some []
  | c :: more =>
    if isBreak c then some more
    else if c == '#' && rest.length < cs.length then some (more.dropWhile (!isBreak ·))
    else none

/-- The next line that holds more than a comment: its indentation, and the
characters behind that. -/
def nextLine : Nat → List Char → Option (Nat × List Char)
  | 0, _ => none
  | fuel + 1, cs =>
    let rest := cs.dropWhile (· == ' ')
    match rest.dropWhile isBlank with
    | [] => none
    | c :: more =>
      if isBreak c then nextLine fuel more
      else if c == '#' then nextLine fuel (more.dropWhile (!isBreak ·))
      else some (cs.length - rest.length, rest)

def nextLine? (cs : List Char) : Option (Nat × List Char) := nextLine (cs.length + 1) cs

/-! ## Scalars -/

/-- The character that an escape of one letter stands for. -/
def escaped? : Char → Option Char
  | '0' => some '\x00' | 'a' => some '\x07' | 'b' => some '\x08' | 't' => some '\t'
  | '\t' => some '\t' | 'n' => some '\n' | 'v' => some '\x0b' | 'f' => some '\x0c'
  | 'r' => some '\r' | 'e' => some '\x1b' | ' ' => some ' ' | '"' => some '"'
  | '/' => some '/' | '\\' => some '\\' | 'N' => some '\u0085' | '_' => some '\u00a0'
  | 'L' => some '\u2028' | 'P' => some '\u2029' | _ => none

/-- The number of digits of an escape by code point. -/
def codeWidth? : Char → Option Nat
  | 'x' => some 2
  | 'u' => some 4
  | 'U' => some 8
  | _ => none

/-- The character behind a backslash, and what follows it. -/
def escape? : List Char → Option (Char × List Char)
  | [] => none
  | c :: rest =>
    match codeWidth? c with
    | none => (escaped? c).map fun e => (e, rest)
    | some width => do
      let digits ← (rest.take width).mapM Json.Read.hexValue?
      let code := digits.foldl (fun n d => n * 16 + d) 0
      if digits.length = width ∧ code.isValidChar then some (Char.ofNat code, rest.drop width)
      else none

/-- The characters up to the closing double quote, on one line. -/
def doubleQuoted : Nat → List Char → List Char → Option (List Char × List Char)
  | 0, _, _ => none
  | fuel + 1, done, cs =>
    match cs with
    | [] => none
    | '"' :: rest => some (done.reverse, rest)
    | '\\' :: rest => (escape? rest).bind fun (c, rest) => doubleQuoted fuel (c :: done) rest
    | c :: rest => if isBreak c then none else doubleQuoted fuel (c :: done) rest

/-- The characters up to the closing single quote, on one line; a quote inside
is written twice. -/
def singleQuoted : List Char → Option (List Char × List Char)
  | [] => none
  | '\'' :: '\'' :: rest => (singleQuoted rest).map fun (s, rest) => ('\'' :: s, rest)
  | c :: rest =>
    if c == '\'' then some ([], rest)
    else if isBreak c then none
    else (singleQuoted rest).map fun (s, rest) => (c :: s, rest)

/-- Whether nothing of a bare scalar follows: a blank, the end of the line, or
inside brackets one of their marks. -/
def endsWord (flow : Bool) : List Char → Bool
  | [] => true
  | c :: _ => isBlank c || isBreak c || (flow && isFlowMark c)

/-- Whether a bare scalar begins here. -/
def startsBare (flow : Bool) : List Char → Bool
  | [] => false
  | c :: rest =>
    if "-?:".contains c then !endsWord flow rest else !(isIndicator c || isBlank c || isBreak c)

/-- The characters of a bare scalar, blanks behind it included. -/
def bareChars (flow afterBlank : Bool) : List Char → List Char
  | [] => []
  | c :: rest =>
    if isBreak c || (c == '#' && afterBlank) || (flow && isFlowMark c)
        || (c == ':' && endsWord flow rest) then []
    else c :: bareChars flow (isBlank c) rest

/-- A scalar, and what follows it. -/
def scalar? (flow : Bool) (cs : List Char) : Option (Yaml × List Char) :=
  match cs with
  | '"' :: rest => (doubleQuoted (rest.length + 1) [] rest).map
      fun (s, rest) => (.quoted (String.ofList s), rest)
  | '\'' :: rest => (singleQuoted rest).map fun (s, rest) => (.quoted (String.ofList s), rest)
  | _ =>
    if startsBare flow cs then
      let s := Text.dropTrailing isBlank (bareChars flow false cs)
      some (.bare (String.ofList s), cs.drop s.length)
    else none

/-! ## Lists and maps in brackets -/

/-- What follows blanks, line ends and comments. -/
def skipGap : Nat → Bool → List Char → List Char
  | 0, _, cs => cs
  | _ + 1, _, [] => []
  | fuel + 1, afterBlank, c :: rest =>
    if isBlank c || isBreak c then skipGap fuel true rest
    else if c == '#' && afterBlank then skipGap fuel true (rest.dropWhile (!isBreak ·))
    else c :: rest

def gap (cs : List Char) : List Char := skipGap cs.length false cs

abbrev Reader := List Char → Option (Yaml × List Char)

/-- The value of an entry behind its name; there may be none. -/
def flowValue (value : Reader) (cs : List Char) : Option (Yaml × List Char) :=
  match gap cs with
  | ':' :: rest =>
    match gap rest with
    | c :: more => if isFlowMark c && (c == ',' || c == '\x7d') then some (absent, c :: more)
        else value (c :: more)
    | [] => none
  | rest => some (absent, rest)

/-- Entries up to the closing brace. -/
def flowEntries (value : Reader) : Nat → List (String × Yaml) → Reader
  | 0, _, _ => none
  | fuel + 1, done, cs =>
    match gap cs with
    | '\x7d' :: rest => some (.map done.reverse, rest)
    | cs => do
      let (key, rest) ← scalar? true cs
      let name ← key.text?
      let (v, rest) ← flowValue value rest
      match gap rest with
      | ',' :: rest => flowEntries value fuel ((name, v) :: done) rest
      | '\x7d' :: rest => some (.map ((name, v) :: done).reverse, rest)
      | _ => none

/-- Items up to the closing bracket. -/
def flowItems (value : Reader) : Nat → List Yaml → Reader
  | 0, _, _ => none
  | fuel + 1, done, cs =>
    match gap cs with
    | ']' :: rest => some (.list done.reverse, rest)
    | cs => do
      let (v, rest) ← value cs
      match gap rest with
      | ',' :: rest => flowItems value fuel (v :: done) rest
      | ']' :: rest => some (.list (v :: done).reverse, rest)
      | _ => none

/-- A value inside brackets that nests less deep than `depth`. -/
def flow : Nat → Reader
  | 0, _ => none
  | depth + 1, cs =>
    match cs with
    | '\x7b' :: rest => flowEntries (flow depth) (rest.length + 1) [] rest
    | '[' :: rest => flowItems (flow depth) (rest.length + 1) [] rest
    | _ => scalar? true cs

/-- A value that stands on a line of its own map. -/
def inline (cs : List Char) : Option (Yaml × List Char) :=
  match cs with
  | '\x7b' :: _ => flow (cs.length + 1) cs
  | '[' :: _ => flow (cs.length + 1) cs
  | _ => scalar? false cs

/-! ## Maps by indentation -/

/-- A name and the colon behind it. -/
def key? (cs : List Char) : Option (String × List Char) := do
  let (key, rest) ← scalar? false cs
  let name ← key.text?
  match rest.dropWhile isBlank with
  | ':' :: rest => if endsWord false rest then some (name, rest) else none
  | _ => none

/-- A block: its indentation and the characters behind that.  What is left
begins with a line. -/
abbrev BlockReader := Nat → Reader

/-- The value of an entry: on the same line, or a block that is indented more
than the entry. -/
def entryValue (block : BlockReader) (indent : Nat) (cs : List Char) :
    Option (Yaml × List Char) :=
  match endLine? cs with
  | none => do
    let (v, rest) ← inline (cs.dropWhile isBlank)
    let rest ← endLine? rest
    return (v, rest)
  | some rest =>
    match nextLine? rest with
    | some (deeper, line) => if indent < deeper then block deeper line else some (absent, rest)
    | none => some (absent, rest)

/-- The entries of one indentation. -/
def blockEntries (block : BlockReader) (indent : Nat) :
    Nat → List (String × Yaml) → Reader
  | 0, _, _ => none
  | fuel + 1, done, cs => do
    let (name, rest) ← key? cs
    let (v, rest) ← entryValue block indent rest
    let done := (name, v) :: done
    match nextLine? rest with
    | none => some (.map done.reverse, [])
    | some (next, line) =>
      if next = indent then blockEntries block indent fuel done line
      else if next < indent then some (.map done.reverse, rest)
      else none

/-- A map by indentation, or a single value. -/
def block : Nat → BlockReader
  | 0, _, _ => none
  | depth + 1, indent, cs =>
    if (key? cs).isSome then blockEntries (block depth) indent (cs.length + 1) [] cs
    else do
      let (v, rest) ← inline cs
      let rest ← endLine? rest
      return (v, rest)

/-- The line behind the mark that a document begins with, if there is one. -/
def afterMark (indent : Nat) (cs : List Char) : Option (Nat × List Char) :=
  match indent, cs with
  | 0, '-' :: '-' :: '-' :: rest => if endsWord false rest then nextLine? rest else some (0, cs)
  | _, _ => some (indent, cs)

end Read

/-- The value that a text holds; an empty text holds nothing. -/
def read? (s : String) : Option Yaml :=
  let cs := s.toList
  match (Read.nextLine? cs).bind fun (indent, line) => Read.afterMark indent line with
  | none => some absent
  | some (indent, line) => do
    let (v, rest) ← Read.block (line.length + 1) indent line
    if (Read.nextLine? rest).isNone then some v else none

end QueryReplay.Yaml
