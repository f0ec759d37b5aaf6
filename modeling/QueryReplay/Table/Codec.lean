import QueryReplay.Json.Decode
import QueryReplay.Json.Encode
import QueryReplay.Table.Snapshot

/-!
# Snapshots as documents

A snapshot is written with its name, columns and rows, and with the sets of
marked rows that are not empty.  Row identities are not written.
-/

namespace QueryReplay

open Json (optMember)

/-- The indices, ascending. -/
def IndexSet.toJson (s : IndexSet) : Json := .nats s.toList

/-- Indices in any order, each counted once. -/
def IndexSet.ofJson? (j : Json) : Option IndexSet :=
  (j.listOf? Json.nat64?).map IndexSet.ofList

namespace Snapshot

/-- The indices of a set that is not empty. -/
def marks? (s : IndexSet) : Option Json := if s.isEmpty then none else some s.toJson

/-- The members of the document, in order. -/
def members (s : Snapshot) : List (String × Json) :=
  [("name", .string s.name), ("columns", .strings s.columns),
    ("rows", .list .object s.rows)]
  ++ optMember "highlightedRows" (marks? s.highlighted)
  ++ optMember "dimmedRows" (marks? s.dimmed)

def toJson (s : Snapshot) : Json := .object s.members

def ofJson? (j : Json) : Option Snapshot := do
  let fields ← Json.Fields.ofJson? 5 j
  let name ← fields.required 0 "name" Json.string?
  let columns ← fields.required 1 "columns" (Json.listOf? Json.string?)
  let rows ← fields.required 2 "rows" (Json.listOf? Json.object?)
  let highlighted ← fields.defaulted 3 "highlightedRows" IndexSet.ofJson? .empty
  let dimmed ← fields.defaulted 4 "dimmedRows" IndexSet.ofJson? .empty
  return { name, columns, rows, highlighted, dimmed }

/-- The snapshot without what is not written. -/
def withoutIds (s : Snapshot) : Snapshot := { s with rowIds := [] }

end Snapshot

end QueryReplay
