/-!
# Sets of row indices

An index set is its strictly increasing list, so two sets with the same members
are the same value.
-/

namespace QueryReplay

/-- A finite set of row indices. -/
structure IndexSet where
  toList : List Nat
  increasing : toList.Pairwise (· < ·)
deriving DecidableEq

namespace IndexSet

/-- Puts an index in its place in an increasing list. -/
def place (i : Nat) : List Nat → List Nat
  | [] => [i]
  | j :: rest => if i < j then i :: j :: rest else if i = j then j :: rest else j :: place i rest

theorem mem_place {i k : Nat} {l : List Nat} : k ∈ place i l ↔ k = i ∨ k ∈ l := by
  induction l with
  | nil => simp [place]
  | cons j rest ih =>
    unfold place
    split
    · simp
    · split
      · next h => subst h; simp
      · simp [ih, or_left_comm]

theorem increasing_place (i : Nat) {l : List Nat} (h : l.Pairwise (· < ·)) :
    (place i l).Pairwise (· < ·) := by
  induction l with
  | nil => simp [place]
  | cons j rest ih =>
    obtain ⟨hj, hrest⟩ := List.pairwise_cons.1 h
    unfold place
    split
    · next hij =>
      refine List.pairwise_cons.2 ⟨fun k hk => ?_, h⟩
      rcases List.mem_cons.1 hk with rfl | hk
      · exact hij
      · exact Nat.lt_trans hij (hj k hk)
    · split
      · exact h
      · refine List.pairwise_cons.2 ⟨fun k hk => ?_, ih hrest⟩
        rcases mem_place.1 hk with rfl | hk
        · omega
        · exact hj k hk

def empty : IndexSet := ⟨[], .nil⟩

instance : Inhabited IndexSet := ⟨empty⟩

instance : Repr IndexSet := ⟨fun s n => reprPrec s.toList n⟩

def isEmpty (s : IndexSet) : Bool := s.toList.isEmpty

/-- The set with one more index. -/
def insert (s : IndexSet) (i : Nat) : IndexSet :=
  ⟨place i s.toList, increasing_place i s.increasing⟩

/-- The set with the given indices added. -/
def insertAll (s : IndexSet) (is : List Nat) : IndexSet := is.foldl insert s

/-- The indices of a list. -/
def ofList (is : List Nat) : IndexSet := empty.insertAll is

instance : Membership Nat IndexSet := ⟨fun s i => i ∈ s.toList⟩

theorem mem_def {i : Nat} {s : IndexSet} : i ∈ s ↔ i ∈ s.toList := Iff.rfl

@[ext] theorem ext_toList {s t : IndexSet} (h : s.toList = t.toList) : s = t := by
  cases s; cases t; cases h; rfl

@[simp] theorem mem_insert {i k : Nat} {s : IndexSet} : k ∈ s.insert i ↔ k = i ∨ k ∈ s := by
  simp [mem_def, insert, mem_place]

@[simp] theorem mem_insertAll {k : Nat} {s : IndexSet} {is : List Nat} :
    k ∈ s.insertAll is ↔ k ∈ is ∨ k ∈ s := by
  induction is generalizing s with
  | nil => simp [insertAll]
  | cons i rest ih =>
    rw [show s.insertAll (i :: rest) = (s.insert i).insertAll rest from rfl, ih]
    simp [or_assoc, or_left_comm]

theorem mem_ofList {k : Nat} {is : List Nat} : k ∈ ofList is ↔ k ∈ is := by
  rw [ofList, mem_insertAll]
  simp [mem_def, empty]

end IndexSet

end QueryReplay
