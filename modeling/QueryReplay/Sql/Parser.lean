import QueryReplay.Sql.Token
import QueryReplay.Text.Blank

/-!
# Parsers over tokens

A parser takes something off the front of the tokens.  Besides the tokens that
are left it tells whether the gap before them still belongs to what it took:
a construct that could have gone on reaches through the blanks and comments
behind its last token, one that is closed by its last token does not.  This
decides whether a comment is part of the text of a construct.
-/

namespace QueryReplay.Sql

/-- What a parser took. -/
structure Taken (α : Type) where
  value : α
  rest : List Token
  /-- Whether the gap before `rest` belongs to it. -/
  open? : Bool

abbrev Parser (α : Type) := List Token → Option (Taken α)

namespace Parser

def map {α β : Type} (f : α → β) (p : Parser α) : Parser β := fun ts =>
  (p ts).map fun t => ⟨f t.value, t.rest, t.open?⟩

/-- The first parser that succeeds. -/
def orElse {α : Type} (p q : Parser α) : Parser α := fun ts =>
  match p ts with
  | some t => some t
  | none => q ts

/-- Drops a token that must be the given keyword. -/
def keyword (k : Keyword) : List Token → Option (List Token)
  | t :: rest => if t.isKeyword k then some rest else none
  | [] => none

/-- Drops a token that must be the given symbol. -/
def symbol (s : Symbol) : List Token → Option (List Token)
  | t :: rest => if t.isSymbol s then some rest else none
  | [] => none

/-- Drops a keyword if it comes next, and tells whether it did. -/
def optKeyword (k : Keyword) (ts : List Token) : Bool × List Token :=
  match keyword k ts with
  | some rest => (true, rest)
  | none => (false, ts)

/-- An identifier that is no reserved word, or a quoted one. -/
def identifier : Parser String
  | t :: rest => t.identifier?.map fun name => ⟨name, rest, false⟩
  | [] => none

/-- As many as there are; the last failure takes nothing. -/
def manyUpTo {α : Type} (p : Parser α) : Nat → List α → Bool → List Token → Taken (List α)
  | 0, done, o, ts => ⟨done.reverse, ts, o⟩
  | fuel + 1, done, o, ts =>
    match p ts with
    | some t => manyUpTo p fuel (t.value :: done) t.open? t.rest
    | none => ⟨done.reverse, ts, o⟩

/-- As many as there are behind a first part; with none the whole could have
gone on. -/
def many {α : Type} (p : Parser α) (ts : List Token) : Taken (List α) :=
  manyUpTo p ts.length [] true ts

/-- A comma and what follows it. -/
def afterComma {α : Type} (p : Parser α) : Parser α := fun ts =>
  match symbol .comma ts with
  | some rest => p rest
  | none => none

/-- One or more, separated by commas. -/
def commaList {α : Type} (p : Parser α) : Parser (List α) := fun ts =>
  match p ts with
  | some first =>
    let more := many (afterComma p) first.rest
    some ⟨first.value :: more.value, more.rest, more.open?⟩
  | none => none

end Parser

/-- The tokens before `rest`, a suffix of `ts`. -/
def tokensBefore (ts rest : List Token) : List Token := ts.take (ts.length - rest.length)

/-- The text of tokens with their gaps, the last gap only if it is `open?`. -/
def sourceOf (open? : Bool) : List Token → String
  | [] => ""
  | [t] => if open? then t.source else t.lexeme
  | t :: more => t.source ++ sourceOf open? more

/-- The text that was taken off the front of `ts`, without trailing blanks. -/
def Taken.text {α : Type} (t : Taken α) (ts : List Token) : String :=
  Text.trimEnd (sourceOf t.open? (tokensBefore ts t.rest))

end QueryReplay.Sql
