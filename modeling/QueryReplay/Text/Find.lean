/-!
# Finding a text inside another
-/

namespace QueryReplay.Text

/-- What stands behind the first occurrence of `part`. -/
def after? (part : List Char) : List Char → Option (List Char)
  | [] => if part.isEmpty then some [] else none
  | c :: rest =>
    if part.isPrefixOf (c :: rest) then some ((c :: rest).drop part.length) else after? part rest

/-- What stands before the first occurrence of `part`, or everything. -/
def before (part : List Char) : List Char → List Char
  | [] => []
  | c :: rest => if part.isPrefixOf (c :: rest) then [] else c :: before part rest

/-- Whether `part` occurs. -/
def contains (part s : String) : Bool := (after? part.toList s.toList).isSome

end QueryReplay.Text
