/-!
# Distinct column names

A result may repeat a column name.  The first column of a name keeps it; each
later one is numbered until its name is neither given nor taken.
-/

namespace QueryReplay

/-- A name with a number behind an underscore. -/
def numbered (base : String) (n : Nat) : String := base ++ "_" ++ toString n

/-- The first of `candidate n`, `candidate (n + 1)`, … that is not taken.  Trying
as many candidates as there are taken names leaves one more, so the last one
needs no test. -/
def firstFree (candidate : Nat → String) (taken : List String) (n : Nat) : String :=
  go taken.length n
where
  go : Nat → Nat → String
    | 0, n => candidate n
    | fuel + 1, n => if taken.contains (candidate n) then go fuel (n + 1) else candidate n

/-- Continues `uniqueNames`: `seen` are the names before, `done` their results. -/
def uniqueNames.go (given : List String) : List String → List String → List String → List String
  | _, done, [] => done
  | seen, done, name :: rest =>
    let earlier := seen.count name
    let result := if earlier = 0 then name else firstFree (numbered name) (given ++ done) earlier
    uniqueNames.go given (name :: seen) (done ++ [result]) rest

/-- Names made distinct: the `k`-th repetition of a name is numbered from `k`. -/
def uniqueNames (names : List String) : List String :=
  uniqueNames.go names [] [] names

end QueryReplay
