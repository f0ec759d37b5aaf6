/-!
# Lists of named values

A name occurs where it was first written; writing it again replaces its value.
-/

namespace QueryReplay.Assoc

variable {β : Type}

/-- Writes a value: in its place when the name is there, else at the end. -/
def insert (entries : List (String × β)) (name : String) (value : β) : List (String × β) :=
  match entries with
  | [] => [(name, value)]
  | (n, v) :: rest =>
    if n == name then (n, value) :: rest else (n, v) :: insert rest name value

/-- Values written one after another. -/
def insertAll (entries pairs : List (String × β)) : List (String × β) :=
  pairs.foldl (fun es (n, v) => insert es n v) entries

/-- Values written one after another into nothing. -/
def ofList (pairs : List (String × β)) : List (String × β) := insertAll [] pairs

end QueryReplay.Assoc
