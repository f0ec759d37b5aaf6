import QueryReplay.Text.Caseless

/-!
# Keywords

The reserved words of the statement language.  A reserved word never names a
column or a table unless it is quoted, but it may name a function.
-/

namespace QueryReplay.Sql

inductive Keyword where
  | select | distinct | «from» | «where» | group | «by» | having | order | limit | offset
  | as | join | inner | left | right | full | outer | cross | on
  | and | or | not | is | null | «in» | between | like | asc | desc
  | true | false | case | when | «then» | «else» | «end»
deriving DecidableEq, Repr

namespace Keyword

/-- The word in lower case. -/
def word : Keyword → String
  | select => "select" | distinct => "distinct" | «from» => "from" | «where» => "where"
  | group => "group" | «by» => "by" | having => "having" | order => "order"
  | limit => "limit" | offset => "offset" | as => "as" | join => "join"
  | inner => "inner" | left => "left" | right => "right" | full => "full"
  | outer => "outer" | cross => "cross" | on => "on" | and => "and" | or => "or"
  | not => "not" | is => "is" | null => "null" | «in» => "in" | between => "between"
  | like => "like" | asc => "asc" | desc => "desc" | true => "true" | false => "false"
  | case => "case" | when => "when" | «then» => "then" | «else» => "else" | «end» => "end"

/-- All reserved words. -/
def all : List Keyword :=
  [select, distinct, «from», «where», group, «by», having, order, limit, offset, as, join,
    inner, left, right, full, outer, cross, on, and, or, not, is, null, «in», between,
    like, asc, desc, true, false, case, when, «then», «else», «end»]

/-- The reserved word that a word is in some letter case. -/
def ofWord? (w : String) : Option Keyword :=
  let lowered := Text.lower w
  all.find? fun k => k.word == lowered

theorem mem_all (k : Keyword) : k ∈ all := by
  cases k <;> decide

theorem word_injective : ∀ {j k : Keyword}, j.word = k.word → j = k := by
  have h : ∀ j ∈ all, ∀ k ∈ all, j.word = k.word → j = k := by decide
  intro j k
  exact h j (mem_all j) k (mem_all k)

end Keyword

end QueryReplay.Sql
