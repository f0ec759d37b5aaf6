/-!
# Values of a configuration text

Scalars, lists and maps.  Whether a scalar was quoted is kept, because only a
bare one can stand for a number or for nothing.
-/

namespace QueryReplay

inductive Yaml where
  /-- A scalar without quotes; the empty one stands where nothing is written. -/
  | bare (s : String)
  | quoted (s : String)
  | list (items : List Yaml)
  /-- Entries in the order in which they are written, repeated names included. -/
  | map (entries : List (String × Yaml))
deriving Repr, Inhabited

namespace Yaml

/-- What stands where nothing is written. -/
def absent : Yaml := .bare ""

/-- The bare words for nothing. -/
def nullWords : List String := ["", "~", "null", "Null", "NULL"]

def isNull : Yaml → Bool
  | .bare s => nullWords.contains s
  | _ => false

/-- The text of a scalar, quoted or not. -/
def text? : Yaml → Option String
  | .bare s => some s
  | .quoted s => some s
  | _ => none

/-- The fields of a record: by name, in order, or none where nothing is
written.  A field named twice is refused; other names do not matter. -/
def fields? (names : List String) : Yaml → Option (List (String × Yaml))
  | .map entries =>
    if names.all fun n => (entries.filter fun e => e.1 == n).length ≤ 1 then some entries else none
  | .list items => if items.length ≤ names.length then some (names.zip items) else none
  | .bare s => if s.isEmpty then some [] else none
  | .quoted _ => none

end Yaml

end QueryReplay
