import Mathlib.Data.List.Induction
import QueryReplay.Proofs.Cells
import QueryReplay.Proofs.Equality
import QueryReplay.Proofs.StepDocuments

/-! # Classes of equal rows

    Equality of cells is transitive, and it goes both ways between values as documents
    hold them: an object names each of its members once, and a number is an integer of
    64 bits or a finite double.  Of such rows it is an equivalence, and a table falls into
    classes of equal rows.

    * a value is equal to itself if it is a *proper* one (`valuesEqual_refl`): a member
      that is named twice is found once only, and what is not a number equals nothing;
    * so equality is an equivalence of rows of proper cells (`cellsEqual_equivalence`);
    * equal rows have the same equals (`cellsEqual_congr_left`), and the rows of a class
      are told by their indices (`Snapshot.rowsLike`). -/

namespace QueryReplay

/-! ## Proper values -/

/-- A double that is a number equals itself. -/
theorem Double.equals_refl {x : Double} (h : x.isFinite = true) : x.equals x = true :=
  equals_iff.mpr ⟨isNaN_of_isFinite h, isNaN_of_isFinite h, Or.inl rfl⟩

namespace Json

/-- All items are in range. -/
theorem itemsInRange_iff {items : List Json} :
    itemsInRange items = true ↔ ∀ j ∈ items, j.numbersInRange = true := by
  induction items with
  | nil => simp [itemsInRange]
  | cons j rest ih => simp [itemsInRange, ih]

/-- All values of members are in range. -/
theorem membersInRange_iff {ms : Members} :
    membersInRange ms = true ↔ ∀ m ∈ ms, m.2.numbersInRange = true := by
  induction ms with
  | nil => simp [membersInRange]
  | cons m rest ih => simp [membersInRange, ih]

/-- A value as documents hold it: every object in it names each of its members once, and
    every number in it is an integer of 64 bits or a finite double. -/
def isProper (j : Json) : Bool := j.namesOnce && j.numbersInRange

/-- A proper value names its members once and has its numbers in range. -/
theorem isProper_iff {j : Json} :
    j.isProper = true ↔ j.namesOnce = true ∧ j.numbersInRange = true := Bool.and_eq_true_iff

/-- A number in range is the same as itself. -/
theorem Number.same_refl {n : Json.Number} (h : n.inRange = true) : n.same n = true := by
  cases n with
  | int n => exact beq_self_eq_true n
  | float x => exact Double.equals_refl h

/-- A proper value is the same as itself. -/
theorem same_refl (a : Json) : a.isProper = true → same a a = true := by
  induction a using ind with
  | null => exact fun _ => rfl
  | bool b => exact fun _ => same_bool_iff.mpr rfl
  | string s => exact fun _ => same_string_iff.mpr rfl
  | number n =>
      intro h
      exact same_number_iff.mpr ⟨n, rfl, Number.same_refl (isProper_iff.mp h).2⟩
  | array items ih =>
      intro h
      obtain ⟨hnames, hrange⟩ := isProper_iff.mp h
      refine same_array_iff.mpr ⟨items, rfl, List.forall₂_same.mpr fun j hj => ih j hj ?_⟩
      exact isProper_iff.mpr ⟨itemsNameOnce_iff.mp hnames j hj, itemsInRange_iff.mp hrange j hj⟩
  | object ms ih =>
      intro h
      obtain ⟨hnames, hrange⟩ := isProper_iff.mp h
      rw [namesOnce, Bool.and_eq_true, decide_eq_true_iff] at hnames
      refine same_object_iff.mpr ⟨ms, rfl, rfl, fun m hm => ?_⟩
      refine ⟨m.2, lookup_of_mem hnames.1 hm, ih m hm (isProper_iff.mpr ⟨?_, ?_⟩)⟩
      · exact membersNameOnce_iff.mp hnames.2 m hm
      · exact membersInRange_iff.mp hrange m hm

end Json

/-- A proper value equals itself, numbers by magnitude and all else by structure. -/
theorem valuesEqual_refl {a : Json} (h : a.isProper = true) : valuesEqual a a = true := by
  by_cases hnumber : ∃ n, a = .number n
  · obtain ⟨n, rfl⟩ := hnumber
    have hfinite := Json.Number.toDouble_isFinite (n := n) (Json.isProper_iff.mp h).2
    exact valuesEqual_number_iff.mpr ⟨n, rfl, Double.equals_refl hfinite⟩
  · have hother : ∀ n, a ≠ .number n := fun n heq => hnumber ⟨n, heq⟩
    exact (valuesEqual_other_iff hother).mpr ⟨Json.same_refl a h, hother⟩

/-! ## Equal rows -/

/-- A row of proper cells. -/
abbrev ProperRow := { cells : List Json // ∀ cell ∈ cells, cell.isProper = true }

namespace ProperRow

theorem namesOnce (row : ProperRow) : ∀ cell ∈ row.1, cell.namesOnce = true :=
  fun cell hcell => (Json.isProper_iff.mp (row.2 cell hcell)).1

/-- A row of proper cells equals itself. -/
theorem refl (row : ProperRow) : cellsEqual row.1 row.1 = true :=
  cellsEqual_iff.mpr (List.forall₂_same.mpr fun cell hcell => valuesEqual_refl (row.2 cell hcell))

end ProperRow

/-- Equality is an equivalence of rows of proper cells. -/
theorem cellsEqual_equivalence :
    Equivalence fun a b : ProperRow => cellsEqual a.1 b.1 = true where
  refl := ProperRow.refl
  symm := fun {a _} h => cellsEqual_symm a.namesOnce h
  trans := cellsEqual_trans

/-- Equal rows, the first one proper, equal the same rows. -/
theorem cellsEqual_congr_left {a b : List Json} (hnames : ∀ cell ∈ a, cell.namesOnce = true)
    (h : cellsEqual a b = true) : cellsEqual a = cellsEqual b := by
  funext row
  rw [Bool.eq_iff_iff]
  exact ⟨cellsEqual_trans (cellsEqual_symm hnames h), cellsEqual_trans h⟩

/-! ## Rows that satisfy a test -/

section Indices

variable {α : Type} (p : α → Bool) (l : List α)

/-- The indices of the entries that satisfy a test, ascending. -/
def indicesWhere : List Nat := (List.range l.length).filter fun i => l[i]?.any p

/-- An index is listed if what stands there has the property. -/
theorem mem_indicesWhere {i : Nat} : i ∈ indicesWhere p l ↔ ∃ x, l[i]? = some x ∧ p x = true := by
  rw [indicesWhere, List.mem_filter, List.mem_range, Option.any_eq_true]
  refine ⟨And.right, fun h => ⟨?_, h⟩⟩
  obtain ⟨x, hx, -⟩ := h
  exact (List.getElem?_eq_some_iff.mp hx).1

/-- The indices are listed from the front to the back. -/
theorem indicesWhere_increasing : (indicesWhere p l).Pairwise (· < ·) :=
  List.pairwise_lt_range.filter _

/-- The entries that satisfy a test are as many as their indices. -/
theorem length_indicesWhere : (indicesWhere p l).length = l.countP p := by
  rw [indicesWhere, ← filterMap_zipIdx, List.length_filterMap_eq_countP]
  conv_rhs => rw [← List.zipIdx_map_fst 0 l, List.countP_map]
  refine List.countP_congr fun entry _ => ?_
  simp

/-- A value in front moves all indices up by one. -/
theorem indicesWhere_cons (x : α) : indicesWhere p (x :: l)
    = (if p x then [0] else []) ++ (indicesWhere p l).map (· + 1) := by
  rw [indicesWhere, List.length_cons, List.range_succ_eq_map, List.filter_cons, List.filter_map]
  show (if p x = true then _ else _) = _
  cases p x <;> rfl

/-- A value at the end may add its own index. -/
theorem indicesWhere_concat (x : α) :
    indicesWhere p (l ++ [x]) = indicesWhere p l ++ if p x then [l.length] else [] := by
  have hfront : ∀ i ∈ List.range l.length, (l ++ [x])[i]?.any p = l[i]?.any p := by
    intro i hi
    rw [List.getElem?_append_left (List.mem_range.mp hi)]
  rw [indicesWhere, List.length_append, List.length_singleton, List.range_succ,
    List.filter_append, List.filter_congr hfront]
  refine congrArg (indicesWhere p l ++ ·) ?_
  rw [List.filter_singleton, List.getElem?_concat_length, Option.any_some]
  cases p x <;> rfl

/-- Of the entries that satisfy a test, the first `n` are those before which fewer than `n` do,
    and the others are those before which more do. -/
theorem filter_indicesWhere (n : Nat) :
    ((indicesWhere p l).filter fun i => (l.take i).countP p < n) = (indicesWhere p l).take n
      ∧ ((indicesWhere p l).filter fun i => ¬(l.take i).countP p < n)
        = (indicesWhere p l).drop n := by
  induction l using List.reverseRecOn with
  | nil => exact ⟨List.take_nil.symm, List.drop_nil.symm⟩
  | append_singleton l x ih =>
      have hfront : ∀ i ∈ indicesWhere p l,
          ((l ++ [x]).take i).countP p = (l.take i).countP p := by
        intro i hi
        have hlt := List.mem_range.mp (List.mem_of_mem_filter hi)
        rw [List.take_append_of_le_length (Nat.le_of_lt hlt)]
      have hfirst : ((indicesWhere p l).filter fun i => ((l ++ [x]).take i).countP p < n)
          = (indicesWhere p l).take n :=
        (List.filter_congr fun i hi => by rw [hfront i hi]).trans ih.1
      have hothers : ((indicesWhere p l).filter fun i => ¬((l ++ [x]).take i).countP p < n)
          = (indicesWhere p l).drop n :=
        (List.filter_congr fun i hi => by rw [hfront i hi]).trans ih.2
      rw [indicesWhere_concat, List.filter_append, List.filter_append, hfirst, hothers,
        List.take_append, List.drop_append, length_indicesWhere]
      -- the last entry comes behind all others that satisfy the test
      cases p x with
      | false => simp
      | true =>
          rw [if_pos rfl, List.filter_singleton, List.filter_singleton, List.take_left]
          by_cases hlt : l.countP p < n
          · have hroom : ([l.length]).length ≤ n - l.countP p := Nat.sub_pos_of_lt hlt
            rw [List.take_of_length_le hroom, List.drop_of_length_le hroom, decide_eq_true hlt,
              decide_eq_false (not_not_intro hlt)]
            exact ⟨rfl, rfl⟩
          · rw [Nat.sub_eq_zero_of_le (Nat.le_of_not_lt hlt), decide_eq_false hlt,
              decide_eq_true hlt]
            exact ⟨rfl, rfl⟩

end Indices

theorem indicesOf_eq_indicesWhere (b : Bool) (flags : List Bool) :
    indicesOf b flags = indicesWhere (· == b) flags := indicesOf_eq b flags

namespace Snapshot

variable (s : Snapshot)

/-- Every cell of the table is proper. -/
def IsProper : Prop := ∀ row ∈ s.cellRows, ∀ cell ∈ row, cell.isProper = true

instance : Decidable s.IsProper :=
  inferInstanceAs (Decidable (∀ row ∈ s.cellRows, ∀ cell ∈ row, cell.isProper = true))

/-- The rows that equal the given one, ascending. -/
def rowsLike (cells : List Json) : List Nat := indicesWhere (cellsEqual cells) s.cellRows

/-- The number of rows that equal the given one. -/
def countLike (cells : List Json) : Nat := s.cellRows.countP (cellsEqual cells)

/-- As many rows are listed as are counted. -/
theorem length_rowsLike (cells : List Json) : (s.rowsLike cells).length = s.countLike cells :=
  length_indicesWhere _ _

end Snapshot

end QueryReplay
