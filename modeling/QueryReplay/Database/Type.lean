import QueryReplay.Text.Caseless

/-!
# Column types
-/

namespace QueryReplay

/-- The type of a stored column. -/
inductive ColumnType where
  | integer | bigint | double | boolean | varchar | date | timestamp
  /-- Numbers of at most `width` digits, `scale` of them behind the point. -/
  | decimal (width scale : Nat)
deriving DecidableEq, Repr

namespace ColumnType

/-- The digits of a decimal column that does not say how many. -/
def standardDecimal : ColumnType := .decimal 18 3

/-- The most digits a decimal column can have. -/
def maxWidth : Nat := 38

/-- The types whose names are one word. -/
def plain : List ColumnType := [integer, bigint, double, boolean, varchar, date, timestamp]

/-- The type as it is shown. -/
def display : ColumnType → String
  | integer => "INTEGER"
  | bigint => "BIGINT"
  | double => "DOUBLE"
  | boolean => "BOOLEAN"
  | varchar => "VARCHAR"
  | date => "DATE"
  | timestamp => "TIMESTAMP"
  | decimal width scale => "DECIMAL(" ++ toString width ++ "," ++ toString scale ++ ")"

/-- The type of a word, in any letter case. -/
def ofWord? (word : String) : Option ColumnType :=
  plain.find? fun t => Text.sameLetters t.display word

/-- The decimal type of a width and a scale, if there is one. -/
def decimal? (width scale : Nat) : Option ColumnType :=
  if 0 < width ∧ width ≤ maxWidth ∧ scale ≤ width then some (.decimal width scale) else none

end ColumnType

end QueryReplay
