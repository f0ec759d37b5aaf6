import QueryReplay.Number.Numeral
import QueryReplay.Sql.Keyword

/-!
# Tokens

A statement is cut into tokens, each with the gap of blanks and comments behind
it, so that tokens and gaps put together again are the statement.  Blanks are
four characters, and a comment runs from `--` to the end of the line or from
`/*` to the next `*/`; without that end it is no comment.
-/

namespace QueryReplay.Sql

/-- Operators and marks. -/
inductive Symbol where
  | comma | semicolon | dot | openParen | closeParen
  | star | slash | percent | plus | minus | concat
  | eq | ne | lt | le | gt | ge
deriving DecidableEq, Repr

/-- What a token is. -/
inductive TokenKind where
  | keyword (k : Keyword)
  /-- A word that is not reserved. -/
  | name
  /-- A name in double quotes. -/
  | quoted
  /-- A number without sign. -/
  | number
  /-- A text in single quotes; a quote inside is written twice. -/
  | text
  | symbol (s : Symbol)
deriving DecidableEq, Repr

/-- A token with the blanks and comments behind it. -/
structure Token where
  kind : TokenKind
  lexeme : String
  gap : String
deriving DecidableEq, Repr

namespace Token

/-- The token and its gap as they stand in the statement. -/
def source (t : Token) : String := t.lexeme ++ t.gap

def isKeyword (t : Token) (k : Keyword) : Bool := t.kind == .keyword k

def isSymbol (t : Token) (s : Symbol) : Bool := t.kind == .symbol s

/-- The name that a token stands for, its quotes taken off. -/
def identifier? (t : Token) : Option String :=
  match t.kind with
  | .name => some t.lexeme
  | .quoted => some (String.ofList (t.lexeme.toList.drop 1).dropLast)
  | _ => none

/-- Text with each doubled quote read as one. -/
def undouble : List Char → List Char
  | '\'' :: '\'' :: rest => '\'' :: undouble rest
  | c :: rest => c :: undouble rest
  | [] => []

/-- The text that a token in single quotes writes. -/
def content? (t : Token) : Option String :=
  if t.kind == .text then some (String.ofList (undouble (t.lexeme.toList.drop 1).dropLast))
  else none

/-- The number that a token of digits alone writes. -/
def count? (t : Token) : Option Nat :=
  let digits := t.lexeme.toList
  if t.kind == .number && digits.all Char.isDigit then some (Numeral.valueOf digits) else none

/-- The name of a function: any word, reserved or not. -/
def functionName? (t : Token) : Option String :=
  match t.kind with
  | .name => some t.lexeme
  | .keyword _ => some t.lexeme
  | _ => none

end Token

namespace Lexer

/-- A character that begins a word. -/
def isWordStart (c : Char) : Bool := c.isAlpha || c == '_'

/-- A character of a word. -/
def isWordChar (c : Char) : Bool := c.isAlphanum || c == '_'

/-- A blank between tokens. -/
def isGapBlank (c : Char) : Bool := c == ' ' || c == '\t' || c == '\r' || c == '\n'

/-- The rest of a block comment through its end, and what follows. -/
def blockEnd? : List Char → Option (List Char × List Char)
  | [] => none
  | '*' :: '/' :: rest => some (['*', '/'], rest)
  | c :: rest => (blockEnd? rest).map fun (body, rest) => (c :: body, rest)

/-- The longest run of blanks and comments at the front, and what follows. -/
def gap : Nat → List Char → List Char × List Char
  | 0, cs => ([], cs)
  | fuel + 1, cs =>
    match cs with
    | [] => ([], [])
    | '-' :: '-' :: rest =>
      let body := rest.takeWhile (· != '\n')
      let (more, rest) := gap fuel (rest.dropWhile (· != '\n'))
      ('-' :: '-' :: body ++ more, rest)
    | '/' :: '*' :: rest =>
      match blockEnd? rest with
      | some (body, rest) =>
        let (more, rest) := gap fuel rest
        ('/' :: '*' :: body ++ more, rest)
      | none => ([], cs)
    | c :: rest =>
      if isGapBlank c then
        let (more, rest) := gap fuel rest
        (c :: more, rest)
      else ([], cs)

/-- The rest of a text literal through its closing quote, and what follows. -/
def textEnd? : List Char → Option (List Char × List Char)
  | [] => none
  | '\'' :: '\'' :: rest => (textEnd? rest).map fun (body, rest) => ('\'' :: '\'' :: body, rest)
  | c :: rest =>
    if c == '\'' then some (['\''], rest)
    else (textEnd? rest).map fun (body, rest) => (c :: body, rest)

/-- The digits of a number and, behind a point, of its fraction. -/
def number (cs : List Char) : List Char × List Char :=
  let (whole, rest) := cs.span Char.isDigit
  match rest with
  | '.' :: d :: more =>
    if d.isDigit then
      let (places, rest) := (d :: more).span Char.isDigit
      (whole ++ '.' :: places, rest)
    else (whole, rest)
  | _ => (whole, rest)

/-- The operator or mark at the front, the longest one that fits. -/
def symbol? : List Char → Option (Symbol × List Char × List Char)
  | '|' :: '|' :: rest => some (.concat, ['|', '|'], rest)
  | '<' :: '=' :: rest => some (.le, ['<', '='], rest)
  | '>' :: '=' :: rest => some (.ge, ['>', '='], rest)
  | '<' :: '>' :: rest => some (.ne, ['<', '>'], rest)
  | '!' :: '=' :: rest => some (.ne, ['!', '='], rest)
  | '=' :: rest => some (.eq, ['='], rest)
  | '<' :: rest => some (.lt, ['<'], rest)
  | '>' :: rest => some (.gt, ['>'], rest)
  | ',' :: rest => some (.comma, [','], rest)
  | ';' :: rest => some (.semicolon, [';'], rest)
  | '.' :: rest => some (.dot, ['.'], rest)
  | '(' :: rest => some (.openParen, ['('], rest)
  | ')' :: rest => some (.closeParen, [')'], rest)
  | '*' :: rest => some (.star, ['*'], rest)
  | '/' :: rest => some (.slash, ['/'], rest)
  | '%' :: rest => some (.percent, ['%'], rest)
  | '+' :: rest => some (.plus, ['+'], rest)
  | '-' :: rest => some (.minus, ['-'], rest)
  | _ => none

/-- The kind of a word. -/
def wordKind (w : List Char) : TokenKind :=
  match Keyword.ofWord? (String.ofList w) with
  | some k => .keyword k
  | none => .name

/-- Whether a number begins here: a digit, or a point before a digit. -/
def startsNumber : List Char → Bool
  | '.' :: d :: _ => d.isDigit
  | c :: _ => c.isDigit
  | [] => false

/-- The token at the front: its kind, its characters and what follows. -/
def token? (cs : List Char) : Option (TokenKind × List Char × List Char) :=
  match cs with
  | [] => none
  | '"' :: rest =>
    match rest.dropWhile (· != '"') with
    | [] => none
    | _ :: after => some (.quoted, '"' :: rest.takeWhile (· != '"') ++ ['"'], after)
  | '\'' :: rest => (textEnd? rest).map fun (body, rest) => (.text, '\'' :: body, rest)
  | c :: _ =>
    if isWordStart c then
      let w := cs.takeWhile isWordChar
      some (wordKind w, w, cs.dropWhile isWordChar)
    else if startsNumber cs then
      let (n, rest) := number cs
      some (.number, n, rest)
    else (symbol? cs).map fun (s, lexeme, rest) => (.symbol s, lexeme, rest)

/-- The tokens of a text that begins with one. -/
def tokens? : Nat → List Char → Option (List Token)
  | _, [] => some []
  | 0, _ => none
  | fuel + 1, cs => do
    let (kind, lexeme, rest) ← token? cs
    let (blanks, rest) := gap rest.length rest
    let more ← tokens? fuel rest
    return ⟨kind, String.ofList lexeme, String.ofList blanks⟩ :: more

end Lexer

/-- A statement cut into tokens. -/
structure TokenStream where
  /-- The blanks and comments before the first token. -/
  lead : String
  tokens : List Token
deriving DecidableEq, Repr

namespace TokenStream

/-- Cuts a text into tokens; there is none where a character begins no token or
a quote has no end. -/
def ofString? (s : String) : Option TokenStream :=
  let cs := s.toList
  let (lead, rest) := Lexer.gap cs.length cs
  (Lexer.tokens? rest.length rest).map fun tokens => ⟨String.ofList lead, tokens⟩

/-- The text that the tokens were cut from. -/
def source (ts : TokenStream) : String := ts.lead ++ String.join (ts.tokens.map Token.source)

end TokenStream

end QueryReplay.Sql
