import QueryReplay.Proofs.Literals
import QueryReplay.Proofs.Skeletons

/-! # Rendering — expressions written down

    An expression is written with no more parentheses than the precedence of
    its operators asks for (`Expr.render`).  The tokens of the text are told
    beside it (`Expr.tokens`), by a function of the gap behind the last of them,
    and each way to put texts together is one to put tokens together
    (`Spells`).  So the text of an expression is cut into its tokens wherever it
    stands (`Expr.Renderable.spells`). -/

namespace QueryReplay.Sql

open Lexer (Gap Lexeme TextBody Spelled chars joins startsGap isWordChar isWordStart)

-- powers are the core library's, also beside the instances that Mathlib declares
attribute [local instance (high)] instPowNat

/-! ## Precedence -/

/-- How tightly an operator binds: OR, AND, NOT (2), predicates, sums, products, the
sign (6) and primaries (7), from 0 on. -/
def BinaryOp.precedence : BinaryOp → Nat
  | .or => 0
  | .and => 1
  | .eq | .ne | .lt | .le | .gt | .ge | .like => 3
  | .add | .sub | .concat => 4
  | .mul | .div | .mod => 5

def UnaryOp.precedence : UnaryOp → Nat
  | .not => 2
  | .neg => 6

def Expr.precedence : Expr → Nat
  | .binary op _ _ => op.precedence
  | .unary op _ => op.precedence
  | .isNull _ _ => 3
  | .inList _ _ _ => 3
  | .between _ _ _ _ => 3
  | _ => 7

/-- What a predicate is about is a sum. -/
def subjectPlace : Nat := 4

/-- The place to the left of an operator.  Operators are grouped from the left,
and predicates not at all. -/
def BinaryOp.leftPlace (op : BinaryOp) : Nat :=
  if op.precedence = 3 then subjectPlace else op.precedence

/-- The place to the right of an operator. -/
def BinaryOp.rightPlace (op : BinaryOp) : Nat := op.precedence + 1

/-- The place behind a sign or NOT.  Only NOT may stand there again. -/
def UnaryOp.place : UnaryOp → Nat
  | .not => 2
  | .neg => 7

/-! ## Words and marks -/

def BinaryOp.sign : BinaryOp → String
  | .add => "+" | .sub => "-" | .mul => "*" | .div => "/" | .mod => "%"
  | .concat => "||" | .like => "LIKE"
  | .eq => "=" | .ne => "<>" | .lt => "<" | .le => "<=" | .gt => ">" | .ge => ">="
  | .and => "AND" | .or => "OR"

def BinaryOp.kind : BinaryOp → TokenKind
  | .add => .symbol .plus | .sub => .symbol .minus | .mul => .symbol .star
  | .div => .symbol .slash | .mod => .symbol .percent
  | .concat => .symbol .concat | .like => .keyword .like
  | .eq => .symbol .eq | .ne => .symbol .ne | .lt => .symbol .lt | .le => .symbol .le
  | .gt => .symbol .gt | .ge => .symbol .ge
  | .and => .keyword .and | .or => .keyword .or

def UnaryOp.sign : UnaryOp → String
  | .not => "NOT"
  | .neg => "-"

def UnaryOp.kind : UnaryOp → TokenKind
  | .not => .keyword .not
  | .neg => .symbol .minus

/-- A text with its single quotes doubled. -/
def doubled (s : String) : String :=
  String.ofList (s.toList.flatMap fun c => if c == '\'' then ['\'', '\''] else [c])

/-- A name in double quotes. -/
def inQuotes (name : String) : String := "\"" ++ name ++ "\""

/-- The literal as it is written; numbers with a fraction are left out. -/
def Literal.render : Literal → String
  | .null => "NULL"
  | .bool true => "TRUE"
  | .bool false => "FALSE"
  | .int n => n.repr
  | .float _ => ""
  | .string s => inMarks (doubled s)

def Literal.kind : Literal → TokenKind
  | .null => .keyword .null
  | .bool true => .keyword .true
  | .bool false => .keyword .false
  | .int _ => .number
  | .float _ => .number
  | .string _ => .text

def ColumnRef.render (c : ColumnRef) : String :=
  match c.table with
  | some table => inQuotes table ++ "." ++ inQuotes c.column
  | none => inQuotes c.column

/-! ## Expressions as texts -/

/-- One blank between two texts. -/
def spaced (s t : String) : String := s ++ " " ++ t

/-- A text in parentheses. -/
def parens (s : String) : String := "(" ++ s ++ ")"

/-- In parentheses if the place asks for more than the text has. -/
def enclose (place precedence : Nat) (s : String) : String :=
  if place ≤ precedence then s else parens s

/-- NOT in front of the word of a predicate. -/
def negated (negated : Bool) (s : String) : String := if negated then spaced "NOT" s else s

namespace Expr

mutual

/-- The expression as it is written; CASE is left out. -/
def render : Expr → String
  | .literal v => v.render
  | .column c => c.render
  | .binary op left right =>
    spaced (enclose op.leftPlace left.precedence (render left))
      (spaced op.sign (enclose op.rightPlace right.precedence (render right)))
  | .unary op operand => spaced op.sign (enclose op.place operand.precedence (render operand))
  | .call name args distinct star _ =>
    name ++ parens (if star then "*" else if distinct then spaced "DISTINCT" (renderList args)
      else renderList args)
  | .isNull subject not =>
    spaced (enclose subjectPlace subject.precedence (render subject))
      (spaced "IS" (negated not "NULL"))
  | .inList subject items not =>
    spaced (enclose subjectPlace subject.precedence (render subject))
      (negated not (spaced "IN" (parens (renderList items))))
  | .between subject low high not =>
    spaced (enclose subjectPlace subject.precedence (render subject))
      (negated not (spaced "BETWEEN"
        (spaced (enclose subjectPlace low.precedence (render low))
          (spaced "AND" (enclose subjectPlace high.precedence (render high))))))
  | .case _ _ _ => ""

/-- Expressions with commas between them. -/
def renderList : List Expr → String
  | [] => ""
  | [e] => render e
  | e :: f :: rest => spaced (render e ++ ",") (renderList (f :: rest))

end

end Expr

/-! ## What can be written -/

/-- Literals except for numbers with a fraction or of more than 63 bits. -/
def Literal.Renderable : Literal → Prop
  | .int n => n < 2 ^ (63 : Nat)
  | .float _ => False
  | _ => True

/-- A word that names a function and nothing else. -/
structure IsFunctionName (name : String) : Prop where
  word : ∃ c rest, name.toList = c :: rest ∧ isWordStart c = true ∧ ∀ d ∈ rest, isWordChar d = true
  free : Keyword.ofWord? name = none

/-- The expressions that `render` writes. -/
inductive Expr.Renderable : Expr → Prop
  | literal {v : Literal} (h : v.Renderable) : Renderable (.literal v)
  | column {c : ColumnRef} (htable : ∀ table ∈ c.table, '"' ∉ table.toList)
      (h : '"' ∉ c.column.toList) : Renderable (.column c)
  | binary (op : BinaryOp) {left right : Expr} (hleft : Renderable left)
      (hright : Renderable right) : Renderable (.binary op left right)
  | unary (op : UnaryOp) {operand : Expr} (h : Renderable operand) : Renderable (.unary op operand)
  | call {name : String} {args : List Expr} {distinct star : Bool} (text : String)
      (hname : IsFunctionName name) (hargs : ∀ e ∈ args, Renderable e)
      (hstar : star = true → args = [] ∧ distinct = false)
      (hdistinct : distinct = true → args ≠ []) : Renderable (.call name args distinct star text)
  | isNull {subject : Expr} (not : Bool) (h : Renderable subject) : Renderable (.isNull subject not)
  | inList {subject : Expr} {items : List Expr} (not : Bool) (h : Renderable subject)
      (hitems : ∀ e ∈ items, Renderable e) (hne : items ≠ []) :
      Renderable (.inList subject items not)
  | between {subject low high : Expr} (not : Bool) (h : Renderable subject)
      (hlow : Renderable low) (hhigh : Renderable high) :
      Renderable (.between subject low high not)

/-! ## Expressions as tokens -/

/-- Tokens that hang on the gap behind the last one. -/
abbrev Ink := String → List Token

namespace Ink

def word (kind : TokenKind) (lexeme : String) : Ink := fun gap => [⟨kind, lexeme, gap⟩]

/-- One blank between. -/
def spaced (ts us : Ink) : Ink := fun gap => ts " " ++ us gap

def parens (ts : List Token) : Ink := fun gap =>
  ⟨.symbol .openParen, "(", ""⟩ :: (ts ++ [⟨.symbol .closeParen, ")", gap⟩])

def enclose (place precedence : Nat) (ts : Ink) : Ink :=
  if place ≤ precedence then ts else parens (ts "")

def negated (negated : Bool) (ts : Ink) : Ink :=
  if negated then spaced (word (.keyword .not) "NOT") ts else ts

end Ink

def Literal.tokens (v : Literal) : Ink := .word v.kind v.render

def ColumnRef.tokens (c : ColumnRef) : Ink := fun gap =>
  match c.table with
  | some table => [⟨.quoted, inQuotes table, ""⟩, ⟨.symbol .dot, ".", ""⟩,
      ⟨.quoted, inQuotes c.column, gap⟩]
  | none => [⟨.quoted, inQuotes c.column, gap⟩]

namespace Expr

mutual

/-- The tokens of an expression as it is written. -/
def tokens : Expr → Ink
  | .literal v => v.tokens
  | .column c => c.tokens
  | .binary op left right =>
    .spaced (.enclose op.leftPlace left.precedence (tokens left))
      (.spaced (.word op.kind op.sign)
        (.enclose op.rightPlace right.precedence (tokens right)))
  | .unary op operand =>
    .spaced (.word op.kind op.sign) (.enclose op.place operand.precedence (tokens operand))
  | .call name args distinct star _ => fun gap =>
    ⟨.name, name, ""⟩ :: Ink.parens
      (if star then [⟨.symbol .star, "*", ""⟩]
        else if distinct then ⟨.keyword .distinct, "DISTINCT", " "⟩ :: listTokens args
        else listTokens args) gap
  | .isNull subject not =>
    .spaced (.enclose subjectPlace subject.precedence (tokens subject))
      (.spaced (.word (.keyword .is) "IS") (.negated not (.word (.keyword .null) "NULL")))
  | .inList subject items not =>
    .spaced (.enclose subjectPlace subject.precedence (tokens subject))
      (.negated not (.spaced (.word (.keyword .in) "IN") (.parens (listTokens items))))
  | .between subject low high not =>
    .spaced (.enclose subjectPlace subject.precedence (tokens subject))
      (.negated not (.spaced (.word (.keyword .between) "BETWEEN")
        (.spaced (.enclose subjectPlace low.precedence (tokens low))
          (.spaced (.word (.keyword .and) "AND")
            (.enclose subjectPlace high.precedence (tokens high))))))
  | .case _ _ _ => fun _ => []

/-- The tokens of expressions with commas between them. -/
def listTokens : List Expr → List Token
  | [] => []
  | [e] => tokens e ""
  | e :: f :: rest => tokens e "" ++ ⟨.symbol .comma, ",", " "⟩ :: listTokens (f :: rest)

end

end Expr

/-! ## Texts and their tokens -/

/-- Tokens that may stand behind a gap. -/
structure Ready (ts : List Token) : Prop where
  spelled : Spelled ts
  start : startsGap (chars ts) = false

/-- What may stand behind a text: nothing, a blank, or a mark that closes it. -/
inductive Follows : String → List Token → Prop
  | ended : Follows "" []
  | blank {rest : List Token} (h : Ready rest) : Follows " " rest
  | mark {rest : List Token} {c : Char} {cs : List Char} (h : Ready rest)
      (hchars : chars rest = c :: cs) (hc : c = ',' ∨ c = ')') : Follows "" rest

/-- The text that tokens make, and that it is cut into them. -/
structure Spells (ts : Ink) (s : String) : Prop where
  chars_eq : ∀ gap, chars (ts gap) = s.toList ++ gap.toList
  ready : ∀ {gap : String} {rest : List Token}, Follows gap rest → Ready (ts gap ++ rest)

/-- The same of what stands between parentheses, where it may be nothing. -/
structure Inside (ts : List Token) (s : String) : Prop where
  chars_eq : chars ts = s.toList
  ready : ∀ {rest : List Token}, Follows "" rest → Ready (ts ++ rest)

/-- The end of a text may stand behind any gap. -/
theorem Ready.nil : Ready [] := ⟨trivial, rfl⟩

/-- One more token in front: its lexeme ends where it should, and no comment begins with it. -/
theorem Ready.cons {k : TokenKind} {lexeme gap : String} {rest : List Token}
    (hlexeme : Lexeme k lexeme.toList) (hgap : Gap false gap.toList)
    (hjoins : joins k lexeme.toList (gap.toList ++ chars rest) = false)
    (hstart : startsGap (lexeme.toList ++ (gap.toList ++ chars rest)) = false) (h : Ready rest) :
    Ready (⟨k, lexeme, gap⟩ :: rest) where
  spelled := ⟨hlexeme, ⟨false, hgap, nofun⟩, h.start, hjoins, h.spelled⟩
  start := by rw [Lexer.chars_cons]; exact hstart

section Follows

variable {gap : String} {rest : List Token}

/-- What follows is ready itself. -/
theorem Follows.behind (h : Follows gap rest) : Ready rest := by
  cases h with
  | ended => exact .nil
  | blank h => exact h
  | mark h _ _ => exact h

/-- The gap in between is closed: it leaves no line comment open. -/
theorem Follows.closed (h : Follows gap rest) : Gap false gap.toList := by
  cases h with
  | ended => exact .nil
  | blank _ => exact .blank rfl .nil
  | mark _ _ _ => exact .nil

/-- No lexeme joins what follows it, which begins with a blank, a mark or not at all. -/
theorem Follows.joins (h : Follows gap rest) (k : TokenKind) (lexeme : List Char) :
    Lexer.joins k lexeme (gap.toList ++ chars rest) = false := by
  cases h with
  | ended => exact Lexer.joins_nil k lexeme
  | blank _ => exact joins_blank rfl k lexeme (chars rest)
  | mark _ hchars hc =>
      rw [hchars]
      exact joins_mark hc k lexeme _

/-- A lexeme stands apart from what follows, so they begin no comment. -/
theorem Follows.start (h : Follows gap rest) {k : TokenKind} {lexeme : List Char}
    (hlexeme : Lexeme k lexeme) : startsGap (lexeme ++ (gap.toList ++ chars rest)) = false := by
  have hhead : ∀ c ∈ (gap.toList ++ chars rest).head?, c ≠ '-' ∧ c ≠ '*' := by
    cases h with
    | ended => exact fun c hc => nomatch hc
    | blank _ =>
        rintro c hc
        obtain rfl : ' ' = c := Option.some.inj hc
        decide
    | mark _ hchars hc =>
        rw [hchars]
        rintro d hd
        obtain rfl := Option.some.inj hd
        rcases hc with rfl | rfl <;> decide
  cases hstart : startsGap (lexeme ++ (gap.toList ++ chars rest)) with
  | false => rfl
  | true =>
      rcases Lexer.startsGap_lexeme hlexeme hstart with ⟨-, hdash⟩ | ⟨-, more, hstar, -⟩
      · exact absurd rfl (hhead '-' hdash).1
      · exact absurd rfl (hhead '*' (by rw [hstar]; rfl)).2

end Follows

section Spells

variable {ts us : Ink} {s t : String} {inner : List Token}

/-- A single lexeme spells itself. -/
theorem Spells.word {k : TokenKind} {lexeme : String} (h : Lexeme k lexeme.toList) :
    Spells (.word k lexeme) lexeme where
  chars_eq gap := by rw [Ink.word, Lexer.chars_cons, Lexer.chars_nil, List.append_nil]
  ready hfollows := hfollows.behind.cons h hfollows.closed (hfollows.joins _ _) (hfollows.start h)

/-- Two texts with a blank between them. -/
theorem Spells.spaced (hts : Spells ts s) (hus : Spells us t) :
    Spells (.spaced ts us) (spaced s t) where
  chars_eq gap := by
    rw [Ink.spaced, Lexer.chars_append, hts.chars_eq, hus.chars_eq, Sql.spaced,
      String.toList_append, String.toList_append, List.append_assoc, List.append_assoc,
      List.append_assoc]
  ready {gap rest} hfollows := by
    rw [Ink.spaced, List.append_assoc]
    exact hts.ready (.blank (hus.ready hfollows))

/-- Where nothing but a parenthesis follows, the gap is empty. -/
theorem Spells.inside (h : Spells ts s) : Inside (ts "") s where
  chars_eq := (h.chars_eq "").trans (List.append_nil _)
  ready hfollows := h.ready hfollows

/-- By itself the text is cut into the tokens. -/
theorem Spells.stream (h : Spells ts s) : TokenStream.ofString? s = some ⟨"", ts ""⟩ := by
  have hready := h.ready .ended
  rw [List.append_nil] at hready
  refine Lexer.ofString_iff.mpr ⟨?_, hready.start, ⟨false, .nil, nofun⟩, hready.spelled⟩
  exact ((h.chars_eq "").trans (List.append_nil _)).symm

theorem Inside.nil : Inside [] "" := ⟨rfl, fun hfollows => hfollows.behind⟩

/-- The characters of a text in parentheses. -/
theorem parens_toList (s : String) : (Sql.parens s).toList = '(' :: (s.toList ++ [')']) := by
  rw [Sql.parens, String.toList_append, String.toList_append]
  rfl

theorem lexeme_openParen : Lexeme (.symbol .openParen) "(".toList := .symbol (by decide)

theorem lexeme_closeParen : Lexeme (.symbol .closeParen) ")".toList := .symbol (by decide)

/-- A text in parentheses is closed by a symbol, so that anything may follow. -/
theorem Inside.parens (h : Inside inner s) : Spells (.parens inner) (parens s) where
  chars_eq gap := by
    rw [Ink.parens, Lexer.chars_cons, Lexer.chars_append, Lexer.chars_cons, Lexer.chars_nil,
      h.chars_eq, List.append_nil, parens_toList, List.cons_append, List.append_assoc]
    show "(".toList ++ ("".toList ++ (s.toList ++ (")".toList ++ gap.toList))) = _
    rfl
  ready {gap rest} hfollows := by
    have hclose : Ready (⟨.symbol .closeParen, ")", gap⟩ :: rest) :=
      hfollows.behind.cons lexeme_closeParen hfollows.closed (hfollows.joins _ _)
        (hfollows.start lexeme_closeParen)
    have hchars : chars (⟨.symbol .closeParen, ")", gap⟩ :: rest)
        = ')' :: (gap.toList ++ chars rest) := by
      rw [Lexer.chars_cons]
      show ")".toList ++ _ = _
      rfl
    have hinner := h.ready (.mark hclose hchars (.inr rfl))
    rw [Ink.parens, List.cons_append, List.append_assoc, List.singleton_append]
    exact hinner.cons lexeme_openParen .nil rfl
      (Lexer.startsGap_cons _ (by decide) (by decide) (by decide))

/-- Parentheses that precedence asks for, or none. -/
theorem Spells.enclose (place precedence : Nat) (h : Spells ts s) :
    Spells (.enclose place precedence ts) (enclose place precedence s) := by
  unfold Ink.enclose Sql.enclose
  split
  · exact h
  · exact h.inside.parens

/-- A word in capitals is a keyword. -/
theorem lexeme_keyword {k : Keyword} {w : String}
    (h : (w.toList.head?.any isWordStart && w.toList.all isWordChar
      && Lexer.wordKind w.toList == .keyword k) = true) : Lexeme (.keyword k) w.toList := by
  obtain ⟨hword, hkind⟩ := Bool.and_eq_true_iff.mp h
  obtain ⟨hstart, hall⟩ := Bool.and_eq_true_iff.mp hword
  rw [← beq_iff_eq.mp hkind]
  cases hcs : w.toList with
  | nil => rw [hcs] at hstart; exact nomatch hstart
  | cons c cs =>
      rw [hcs] at hstart hall
      exact .word hstart fun d hd => List.all_eq_true.mp hall d (List.mem_cons_of_mem c hd)

/-- NOT in front, or nothing. -/
theorem Spells.negated (negated : Bool) (h : Spells ts s) :
    Spells (.negated negated ts) (Sql.negated negated s) := by
  cases negated with
  | false => exact h
  | true => exact (Spells.word (lexeme_keyword (by decide))).spaced h

/-! ## Literals and names -/

/-- With each mark written twice, a text ends at the mark behind it and nowhere before. -/
theorem textBody_doubled (cs : List Char) :
    TextBody (cs.flatMap (fun c => if c == '\'' then ['\'', '\''] else [c]) ++ ['\'']) := by
  induction cs with
  | nil => exact .close
  | cons c cs ih =>
      rw [List.flatMap_cons, List.append_assoc]
      by_cases hc : c = '\''
      · rw [if_pos (beq_iff_eq.mpr hc)]
        exact .doubled ih
      · rw [if_neg (fun h => hc (beq_iff_eq.mp h))]
        exact .char hc ih

/-- A text in marks is one lexeme, whatever it holds. -/
theorem lexeme_string (s : String) : Lexeme .text (inMarks (doubled s)).toList := by
  rw [inMarks_toList, doubled, String.toList_ofList]
  exact .text (textBody_doubled s.toList)

/-- The characters of a name in quotes. -/
theorem inQuotes_toList (name : String) : (inQuotes name).toList = '"' :: (name.toList ++ ['"']) := by
  rw [inQuotes, String.toList_append, String.toList_append]
  rfl

/-- A name in quotes is one lexeme, as long as it holds no quote itself. -/
theorem lexeme_inQuotes {name : String} (h : '"' ∉ name.toList) :
    Lexeme .quoted (inQuotes name).toList := by
  rw [inQuotes_toList]
  exact .quoted fun c hc heq => h (heq ▸ hc)

/-- A number is written in digits alone. -/
theorem isDigit_of_repr {n : Nat} {c : Char} (h : c ∈ n.repr.toList) : c.isDigit = true := by
  rw [Nat.toList_repr] at h
  exact Nat.isDigit_of_mem_toDigits (by decide) (Nat.le_refl 10) h

/-- A whole number is one lexeme. -/
theorem lexeme_nat (n : Nat) : Lexeme .number n.repr.toList := by
  cases hcs : n.repr.toList with
  | nil =>
      rw [Nat.toList_repr] at hcs
      exact absurd hcs Nat.toDigits_ne_nil
  | cons d ds =>
      refine .whole (isDigit_of_repr (n := n) (hcs ▸ List.mem_cons_self)) fun c hc => ?_
      exact isDigit_of_repr (n := n) (hcs ▸ List.mem_cons_of_mem d hc)

/-- Every literal that can be written is one lexeme. -/
theorem Literal.Renderable.spells {v : Literal} (h : v.Renderable) : Spells v.tokens v.render := by
  refine .word ?_
  cases v with
  | null => exact lexeme_keyword (by decide)
  | bool b => cases b <;> exact lexeme_keyword (by decide)
  | int n => exact lexeme_nat n
  | float x => exact h.elim
  | string s => exact lexeme_string s

/-- A column is a name in quotes, behind the name of its table and a point if it has one. -/
theorem spells_column {c : ColumnRef} (htable : ∀ table ∈ c.table, '"' ∉ table.toList)
    (h : '"' ∉ c.column.toList) : Spells c.tokens c.render := by
  obtain ⟨table?, column⟩ := c
  cases table? with
  | none => exact .word (lexeme_inQuotes h)
  | some table =>
      have hcolumn : Spells (.word .quoted (inQuotes column)) (inQuotes column) :=
        .word (lexeme_inQuotes h)
      have hdot : Lexeme (.symbol .dot) ".".toList := .symbol (by decide)
      refine ⟨fun gap => ?_, fun {gap rest} hfollows => ?_⟩
      · show chars (⟨.quoted, inQuotes table, ""⟩ :: ⟨.symbol .dot, ".", ""⟩
          :: Ink.word .quoted (inQuotes column) gap) = (inQuotes table ++ "." ++ inQuotes column).toList ++ _
        rw [Lexer.chars_cons, Lexer.chars_cons, hcolumn.chars_eq, String.toList_append,
          String.toList_append, List.append_assoc, List.append_assoc]
        rfl
      · have hready := hcolumn.ready hfollows
        have hquote : ∃ cs, chars (Ink.word .quoted (inQuotes column) gap ++ rest) = '"' :: cs := by
          rw [Lexer.chars_append, hcolumn.chars_eq, inQuotes_toList]
          exact ⟨_, rfl⟩
        obtain ⟨cs, hcs⟩ := hquote
        have hpoint : Ready (⟨.symbol .dot, ".", ""⟩
            :: (Ink.word .quoted (inQuotes column) gap ++ rest)) :=
          hready.cons hdot .nil (by rw [hcs]; rfl)
            (Lexer.startsGap_cons _ (by decide) (by decide) (by decide))
        refine hpoint.cons (lexeme_inQuotes (htable table rfl)) .nil rfl ?_
        rw [inQuotes_toList]
        exact Lexer.startsGap_cons _ (by decide) (by decide) (by decide)

/-! ## Operators -/

/-- Every sign of two operands is a lexeme. -/
theorem BinaryOp.lexeme (op : BinaryOp) : Lexeme op.kind op.sign.toList := by
  cases op
  case and | or | like => exact lexeme_keyword (by decide)
  all_goals exact .symbol (by decide)

/-- So is every sign of one. -/
theorem UnaryOp.lexeme (op : UnaryOp) : Lexeme op.kind op.sign.toList := by
  cases op with
  | not => exact lexeme_keyword (by decide)
  | neg => exact .symbol (by decide)

/-! ## Lists and calls -/

/-- A comma with a blank behind it can stand in front of anything that is ready. -/
theorem Ready.comma (h : Ready inner) : Ready (⟨.symbol .comma, ",", " "⟩ :: inner) :=
  have hlexeme : Lexeme (.symbol .comma) ",".toList := .symbol (by decide)
  h.cons hlexeme (Follows.blank h).closed ((Follows.blank h).joins _ _)
    ((Follows.blank h).start hlexeme)

/-- Texts with commas between them, if there are any: the induction is on the list, and its last
text has no comma behind it. -/
theorem inside_list {es : List Expr} (h : ∀ e ∈ es, Spells e.tokens e.render) :
    Inside (Expr.listTokens es) (Expr.renderList es) := by
  induction es with
  | nil => exact .nil
  | cons e es ih =>
      have he := h e List.mem_cons_self
      cases es with
      | nil => exact he.inside
      | cons f rest =>
          have hrest := ih fun g hg => h g (List.mem_cons_of_mem e hg)
          refine ⟨?_, fun {behind} hfollows => ?_⟩
          · show chars (e.tokens "" ++ ⟨.symbol .comma, ",", " "⟩ :: Expr.listTokens (f :: rest))
              = (spaced (e.render ++ ",") (Expr.renderList (f :: rest))).toList
            rw [Lexer.chars_append, he.inside.chars_eq, Lexer.chars_cons, hrest.chars_eq,
              Sql.spaced, String.toList_append, String.toList_append, String.toList_append,
              List.append_assoc, List.append_assoc]
          · show Ready ((e.tokens "" ++ ⟨.symbol .comma, ",", " "⟩ :: Expr.listTokens (f :: rest))
              ++ behind)
            rw [List.append_assoc]
            exact he.ready (.mark (hrest.ready hfollows).comma (Lexer.chars_cons _ _) (.inl rfl))

/-- The name of a function is a word that is not reserved. -/
theorem IsFunctionName.lexeme {name : String} (h : IsFunctionName name) :
    Lexeme .name name.toList := by
  obtain ⟨c, cs, hcs, hstart, hrest⟩ := h.word
  have hkind : Lexer.wordKind name.toList = .name := by
    rw [Lexer.wordKind, String.ofList_toList, h.free]
  rw [← hkind, hcs]
  exact .word hstart hrest

/-- A name right in front of its parentheses: they do not join. -/
theorem Inside.call {name : String} (hname : IsFunctionName name) (h : Inside inner s) :
    Spells (fun gap => ⟨.name, name, ""⟩ :: Ink.parens inner gap) (name ++ Sql.parens s) where
  chars_eq gap := by
    rw [Lexer.chars_cons, h.parens.chars_eq, String.toList_append, List.append_assoc]
    rfl
  ready {gap rest} hfollows := by
    refine (h.parens.ready hfollows).cons hname.lexeme .nil ?_ ?_
    · show joins .name _ (chars (Ink.parens inner gap ++ rest)) = false
      rw [Lexer.chars_append, h.parens.chars_eq, parens_toList]
      rfl
    · obtain ⟨c, cs, hcs, hstart, -⟩ := hname.word
      rw [hcs]
      exact Lexer.startsGap_wordChar (Lexer.isWordChar_of_isWordStart hstart) _

theorem Inside.star : Inside [⟨.symbol .star, "*", ""⟩] "*" :=
  (Spells.word (k := .symbol .star) (.symbol (by decide))).inside

/-- DISTINCT in front of the arguments. -/
theorem Inside.distinct (h : Inside inner s) :
    Inside (⟨.keyword .distinct, "DISTINCT", " "⟩ :: inner) (spaced "DISTINCT" s) where
  chars_eq := by
    rw [Lexer.chars_cons, h.chars_eq, Sql.spaced, String.toList_append, String.toList_append,
      List.append_assoc]
  ready {rest} hfollows := by
    have hlexeme : Lexeme (.keyword .distinct) "DISTINCT".toList := lexeme_keyword (by decide)
    have hblank := Follows.blank (h.ready hfollows)
    exact (h.ready hfollows).cons hlexeme hblank.closed (hblank.joins _ _) (hblank.start hlexeme)

end Spells

/-! ## Expressions -/

/-- The text of an expression is cut into its tokens. -/
theorem Expr.Renderable.spells {e : Expr} (h : e.Renderable) : Spells e.tokens e.render := by
  induction h with
  | literal h => exact h.spells
  | column htable h => exact spells_column htable h
  | binary op _ _ hleft hright =>
      exact (hleft.enclose _ _).spaced ((Spells.word op.lexeme).spaced (hright.enclose _ _))
  | unary op _ ih => exact (Spells.word op.lexeme).spaced (ih.enclose _ _)
  | @call name args distinct star text hname _ _ _ ih =>
      refine Inside.call hname ?_
      cases star with
      | true => exact .star
      | false =>
          cases distinct with
          | false => exact inside_list ih
          | true => exact (inside_list ih).distinct
  | isNull not _ ih =>
      exact (ih.enclose _ _).spaced ((Spells.word (lexeme_keyword (by decide))).spaced
        ((Spells.word (lexeme_keyword (by decide))).negated not))
  | inList not _ _ _ ih hitems =>
      exact (ih.enclose _ _).spaced (((Spells.word (lexeme_keyword (by decide))).spaced
        (inside_list hitems).parens).negated not)
  | between not _ _ _ ih hlow hhigh =>
      exact (ih.enclose _ _).spaced (((Spells.word (lexeme_keyword (by decide))).spaced
        ((hlow.enclose _ _).spaced ((Spells.word (lexeme_keyword (by decide))).spaced
          (hhigh.enclose _ _)))).negated not)

end QueryReplay.Sql
