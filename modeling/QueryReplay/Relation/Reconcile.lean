import QueryReplay.Table.Equality
import QueryReplay.Table.Snapshot

/-!
# Which rows a condition kept

The engine says what is left after a condition; here the rows from before are
matched with the rows that are left, by identity or by value.  Each row that is
left accounts for one row from before.
-/

namespace QueryReplay

/-- The rows from before, divided into those that are left and the others. -/
structure Reconciliation where
  /-- Ascending indices into the table before. -/
  kept : List Nat
  /-- The other indices, ascending. -/
  filteredOut : List Nat
  result : Snapshot

/-- Takes the first entry of the given identity off a list. -/
def takeIdentity (id : RowId) : List (RowId × Nat) → Option (Nat × List (RowId × Nat))
  | [] => none
  | (x, i) :: rest =>
    if x = id then some (i, rest)
    else (takeIdentity id rest).map fun (j, rest) => (j, (x, i) :: rest)

/-- The indices that a list of identities takes one after another; an identity
that is not there any more takes none. -/
def takeIdentities (available : List (RowId × Nat)) : List RowId → List Nat
  | [] => []
  | id :: rest =>
    match takeIdentity id available with
    | some (i, available) => i :: takeIdentities available rest
    | none => takeIdentities available rest

/-- Matches rows by identity.  The result lists the kept rows in the order of
`after`; rows without an identity are filtered out. -/
def reconcileByIdentity (before : Snapshot) (after : List RowId) (name : String) :
    Reconciliation :=
  let order := takeIdentities (before.rowIds.take before.size).zipIdx after
  { kept := (List.range before.size).filter order.contains
    filteredOut := (List.range before.size).filter fun i => !order.contains i
    result := before.selectRows name order }

/-- Takes the first row with equal cells off a list. -/
def takeEqual (cells : List Json) : List (List Json) → Option (List (List Json))
  | [] => none
  | row :: rest =>
    if cellsEqual cells row then some rest else (takeEqual cells rest).map (row :: ·)

/-- For each row whether it finds a row with equal cells that is still there. -/
def takeEquals (available : List (List Json)) : List (List Json) → List Bool
  | [] => []
  | cells :: rest =>
    match takeEqual cells available with
    | some available => true :: takeEquals available rest
    | none => false :: takeEquals available rest

/-- The indices at which a list of truth values holds the given one. -/
def indicesOf (b : Bool) (flags : List Bool) : List Nat :=
  flags.zipIdx.filterMap fun (flag, i) => if flag = b then some i else none

/-- Matches rows by the values of their cells, in position.  The result is the
table after. -/
def reconcileByValue (before after : Snapshot) (name : String) : Reconciliation :=
  let flags := takeEquals after.cellRows before.cellRows
  { kept := indicesOf true flags
    filteredOut := indicesOf false flags
    result := after.renamed name }

end QueryReplay
