import QueryReplay.Proofs.RowClasses
import QueryReplay.Proofs.Reconciliation
import QueryReplay.Relation.Distinct

/-! # DISTINCT — one row of each class

    A row is compared with the rows kept before it only.  Because equality is transitive,
    a row that equals one that was dropped equals the one that was kept in its place, so
    nothing is missed.  The route:

    * the rows kept are those that equal no earlier row (`firstOccurrences_eq`), for which
      it is an invariant that the rows kept equal whatever the rows before them equal;
    * the first row that equals a given one is kept (`exists_firstRow`), and no two rows
      that are kept are equal (`distinct_apart`);
    * so all rows that are kept are first ones (`firstRows_of_apart`), and a second pass keeps
      them (`distinct_distinct`). -/

namespace QueryReplay

/-! ## Rows without an equal before them -/

/-- Whether the row at an index equals no earlier one. -/
def isFirst (rows : List (List Json)) (i : Nat) : Bool :=
  rows[i]?.any fun row => !(rows.take i).any (cellsEqual · row)

/-- As long as the rows kept equal what the rows before equal, the rows that equal none of
    them are those that equal no earlier one. -/
theorem firstOccurrences_from (kept front rest : List (List Json))
    (hkept : ∀ row, kept.any (cellsEqual · row) = front.any (cellsEqual · row)) :
    firstOccurrences kept front.length rest
      = (List.range' front.length rest.length).filter (isFirst (front ++ rest)) := by
  induction rest generalizing kept front with
  | nil => rfl
  | cons row rest ih =>
      have hnext : front ++ row :: rest = front ++ [row] ++ rest := by
        rw [List.append_assoc, List.singleton_append]
      have hfirst : isFirst (front ++ row :: rest) front.length
          = !kept.any (cellsEqual · row) := by
        rw [isFirst, List.getElem?_append_right (Nat.le_refl _), Nat.sub_self, List.take_left,
          hkept row]
        rfl
      have hlength : front.length + 1 = (front ++ [row]).length := by
        rw [List.length_append, List.length_singleton]
      have hrest := fun kept' h => ih kept' (front ++ [row]) h
      rw [← hlength, ← hnext] at hrest
      rw [List.length_cons, List.range'_succ, List.filter_cons, hfirst, firstOccurrences]
      cases hany : kept.any (cellsEqual · row) with
      | true =>
          -- what the row equals is equal to the row kept in its place
          refine hrest kept fun other => ?_
          rw [hkept other, List.any_append, Bool.eq_iff_iff, Bool.or_eq_true, iff_self_or,
            ← hkept other]
          intro hother
          obtain ⟨k, hk, hkrow⟩ := List.any_eq_true.mp hany
          have heq : cellsEqual row other = true := by simpa using hother
          exact List.any_eq_true.mpr ⟨k, hk, cellsEqual_trans hkrow heq⟩
      | false =>
          refine congrArg (front.length :: ·) (hrest (kept ++ [row]) fun other => ?_)
          rw [List.any_append, List.any_append, hkept other]

/-- The pass keeps the rows that equal none before them. -/
theorem firstOccurrences_eq (rows : List (List Json)) :
    firstOccurrences [] 0 rows = (List.range rows.length).filter (isFirst rows) := by
  have h := firstOccurrences_from [] [] rows fun _ => rfl
  rwa [List.nil_append, List.length_nil, ← List.range_eq_range'] at h

theorem filterMap_range_getElem? {α : Type} (l : List α) :
    ((List.range l.length).filterMap fun i => l[i]?) = l := by
  refine List.map_injective_iff.mpr (Option.some_injective α) ?_
  refine (map_some_filterMap_getElem? fun i hi => List.mem_range.mp hi).trans ?_
  exact List.ext_getElem (by simp) fun i _ _ => by simp

namespace Snapshot

variable (s : Snapshot)

/-- The rows that equal no earlier one, ascending. -/
def firstRows : List Nat := (List.range s.size).filter (isFirst s.cellRows)

/-- A row is kept if no earlier row equals it. -/
theorem mem_firstRows_iff {i : Nat} : i ∈ s.firstRows ↔ ∃ row, s.cells? i = some row
    ∧ ∀ j < i, ∀ other, s.cells? j = some other → cellsEqual other row = false := by
  have hbefore : ∀ row, (!(s.cellRows.take i).any (cellsEqual · row)) = true
      ↔ ∀ j < i, ∀ other, s.cells? j = some other → cellsEqual other row = false := by
    intro row
    rw [Bool.not_eq_true', List.any_eq_false]
    constructor
    · intro h j hj other hother
      rw [cells?_eq, ← List.getElem?_take_of_lt hj] at hother
      exact Bool.eq_false_iff.mpr (h other (List.mem_of_getElem? hother))
    · intro h other hmem
      obtain ⟨j, hj⟩ := List.getElem?_of_mem hmem
      have hlt : j < i := by
        have hshort := (List.getElem?_eq_some_iff.mp hj).1
        exact Nat.lt_of_lt_of_le hshort (List.length_take_le ..)
      rw [List.getElem?_take_of_lt hlt, ← cells?_eq] at hj
      exact Bool.eq_false_iff.mp (h j hlt other hj)
  rw [firstRows, List.mem_filter, List.mem_range, ← length_cellRows, isFirst, cells?_eq,
    Option.any_eq_true]
  simp only [hbefore]
  refine ⟨And.right, fun h => ⟨?_, h⟩⟩
  obtain ⟨row, hrow, -⟩ := h
  exact (List.getElem?_eq_some_iff.mp hrow).1

theorem firstRows_increasing : s.firstRows.Pairwise (· < ·) := List.pairwise_lt_range.filter _

/-- DISTINCT chooses those rows. -/
theorem distinct_eq : s.distinct = s.selectRows s.name s.firstRows := by
  rw [distinct, firstOccurrences_eq, length_cellRows, firstRows]

theorem firstRows_lt : ∀ i ∈ s.firstRows, i < s.size :=
  fun _ hi => List.mem_range.mp (List.mem_of_mem_filter hi)

/-! ## One row of each class -/

/-- A table that holds, in order, the first row of each class of a given one. -/
structure IsDistinctOf (d : Snapshot) : Prop where
  name : d.name = s.name
  columns : d.columns = s.columns
  /-- The rows are those that equal no earlier one. -/
  rows : d.rows.map some = s.firstRows.map (s.rows[·]?)
  /-- They keep their identities when every row has one. -/
  rowIds : d.rowIds.map some = if s.isIdentified then s.firstRows.map s.rowId? else []
  /-- No two of them are equal. -/
  apart : ∀ i j, i ≠ j → ∀ a b, d.cells? i = some a → d.cells? j = some b → cellsEqual a b = false
  /-- Each row equals exactly one of them. -/
  one : ∀ row ∈ s.cellRows, ∃! k, ∃ cells, d.cells? k = some cells ∧ cellsEqual row cells = true

variable {s}

theorem IsProper.of_cells? (h : s.IsProper) {i : Nat} {row : List Json}
    (hi : s.cells? i = some row) : ∀ cell ∈ row, cell.isProper = true :=
  h row (List.mem_of_getElem? (s.cells?_eq i ▸ hi))

/-- The first row that equals a given one is kept. -/
theorem exists_firstRow (h : s.IsProper) {row : List Json} (hrow : row ∈ s.cellRows) :
    ∃ i ∈ s.firstRows, ∃ cells, s.cells? i = some cells ∧ cellsEqual row cells = true := by
  have hself : ∃ i cells, s.cells? i = some cells ∧ cellsEqual cells row = true := by
    obtain ⟨i, hi⟩ := List.getElem?_of_mem hrow
    exact ⟨i, row, (s.cells?_eq i).trans hi, ProperRow.refl ⟨row, h row hrow⟩⟩
  classical
  obtain ⟨cells, hcells, heq⟩ := Nat.find_spec hself
  refine ⟨Nat.find hself, s.mem_firstRows_iff.mpr ⟨cells, hcells, ?_⟩, cells, hcells, ?_⟩
  · intro j hj other hother
    -- what equals the first one equals the given row, and would come before it
    refine Bool.eq_false_iff.mpr fun hlike => Nat.find_min hself hj ?_
    exact ⟨other, hother, cellsEqual_trans hlike heq⟩
  · exact cellsEqual_symm (ProperRow.namesOnce ⟨cells, h.of_cells? hcells⟩) heq

/-- A row that is kept equals none that is kept after it. -/
theorem distinct_ordered {i j : Nat} (hlt : i < j) {a b : List Json}
    (ha : s.distinct.cells? i = some a) (hb : s.distinct.cells? j = some b) :
    cellsEqual a b = false := by
  rw [distinct_eq, cells?_selectRows _ _ s.firstRows_lt, Option.bind_eq_some_iff] at ha hb
  obtain ⟨i', hi', ha⟩ := ha
  obtain ⟨j', hj', hb⟩ := hb
  obtain ⟨row, hrow, hfirst⟩ := s.mem_firstRows_iff.mp (List.mem_of_getElem? hj')
  obtain ⟨hi, rfl⟩ := List.getElem?_eq_some_iff.mp hi'
  obtain ⟨hj, rfl⟩ := List.getElem?_eq_some_iff.mp hj'
  have hbefore := List.pairwise_iff_getElem.mp s.firstRows_increasing i j hi hj hlt
  rw [hb] at hrow
  exact Option.some.inj hrow ▸ hfirst _ hbefore a ha

/-- Two rows that are left are never equal. -/
theorem distinct_apart (h : s.IsProper) {i j : Nat} (hne : i ≠ j) {a b : List Json}
    (ha : s.distinct.cells? i = some a) (hb : s.distinct.cells? j = some b) :
    cellsEqual a b = false := by
  rcases Nat.lt_or_gt_of_ne hne with hlt | hlt
  · exact distinct_ordered hlt ha hb
  · refine Bool.eq_false_iff.mpr fun heq => Bool.eq_false_iff.mp (distinct_ordered hlt hb ha) ?_
    rw [distinct_eq, cells?_selectRows _ _ s.firstRows_lt, Option.bind_eq_some_iff] at ha
    obtain ⟨i', -, ha⟩ := ha
    exact cellsEqual_symm (ProperRow.namesOnce ⟨a, h.of_cells? ha⟩) heq

theorem distinct_isDistinctOf (h : s.IsProper) : s.IsDistinctOf s.distinct where
  name := rfl
  columns := rfl
  rows := s.distinct_eq ▸ s.rows_selectRows s.name s.firstRows_lt
  rowIds := s.distinct_eq ▸ s.rowIds_selectRows s.name s.firstRows_lt
  apart := fun _ _ hne _ _ => distinct_apart h hne
  one := by
    intro row hrow
    obtain ⟨i, hi, cells, hcells, heq⟩ := exists_firstRow h hrow
    obtain ⟨k, hk⟩ := List.getElem?_of_mem hi
    have hkept : s.distinct.cells? k = some cells := by
      rw [distinct_eq, cells?_selectRows _ _ s.firstRows_lt, hk, Option.bind_some, hcells]
    refine ⟨k, ⟨cells, hkept, heq⟩, fun k' ⟨cells', hkept', heq'⟩ => ?_⟩
    by_contra hne
    refine Bool.eq_false_iff.mp (distinct_apart h (Ne.symm hne) hkept hkept') ?_
    exact cellsEqual_trans (cellsEqual_symm (ProperRow.namesOnce ⟨row, h row hrow⟩) heq) heq'

/-- A table in which no row equals a later one has only first rows. -/
theorem firstRows_of_apart (h : ∀ i j, i < j → ∀ a b, s.cells? i = some a → s.cells? j = some b →
    cellsEqual a b = false) : s.firstRows = List.range s.size := by
  refine List.filter_eq_self.mpr fun j hj => ?_
  have hrow : ∃ row, s.cells? j = some row :=
    ⟨_, (s.cells?_eq j).trans (List.getElem?_eq_getElem
      (s.length_cellRows.symm ▸ List.mem_range.mp hj))⟩
  obtain ⟨row, hrow⟩ := hrow
  have hfirst := s.mem_firstRows_iff.mpr ⟨row, hrow, fun i hi other hother =>
    h i j hi other row hother hrow⟩
  exact (List.mem_filter.mp hfirst).2

/-- All rows of a table, with no mark on them. -/
theorem selectRows_range (name : String) (hids : s.isIdentified = false → s.rowIds = []) :
    s.selectRows name (List.range s.size)
      = { name, columns := s.columns, rows := s.rows, rowIds := s.rowIds } := by
  rw [selectRows, size, filterMap_range_getElem?]
  cases hknown : s.isIdentified with
  | false => rw [if_neg Bool.false_ne_true, hids hknown]
  | true => rw [if_pos rfl, ← beq_iff_eq.mp hknown, filterMap_range_getElem?]

/-- Where not every row that is kept has its identity, none has. -/
theorem rowIds_distinct (h : s.distinct.isIdentified = false) : s.distinct.rowIds = [] := by
  cases hids : s.isIdentified with
  | false =>
      rw [distinct, selectRows, hids]
      rfl
  | true =>
      -- there are as many identities as rows, one for each that is kept
      refine absurd h (Bool.not_eq_false _ ▸ beq_iff_eq.mpr ?_)
      have hrows := congrArg List.length (s.rows_selectRows s.name s.firstRows_lt)
      have hrowIds := congrArg List.length (s.rowIds_selectRows s.name s.firstRows_lt)
      rw [if_pos hids, List.length_map, List.length_map] at hrowIds
      rw [List.length_map, List.length_map] at hrows
      rw [distinct_eq, hrowIds, hrows]

/-- A table of representatives stays as it is. -/
theorem distinct_distinct : s.distinct.distinct = s.distinct := by
  have hfirst : s.distinct.firstRows = List.range s.distinct.size :=
    firstRows_of_apart fun _ _ hlt _ _ => distinct_ordered hlt
  rw [s.distinct.distinct_eq, hfirst, selectRows_range _ rowIds_distinct]
  rfl

/-- DISTINCT keeps one representative of each class, for a table of cells as documents hold
    them: in order and with their identities, the rows that equal no earlier one.  No two of
    them are equal, each row of the table equals exactly one of them, and a second pass
    changes nothing. -/
theorem distinct_exact (h : s.IsProper) :
    s.IsDistinctOf s.distinct ∧ s.distinct.distinct = s.distinct :=
  ⟨distinct_isDistinctOf h, distinct_distinct⟩

/-- An integer and a double of its size are one class; a row without its second cell is equal
    to one that has a null there. -/
theorem distinct_exact_mixed :
    let s : Snapshot :=
      { name := "pets", columns := ["x", "y"]
        rows := [[("x", .int 1), ("y", .null)], [("x", .int 2), ("y", .int 1)],
          [("x", .float (.ofInt 1))], [("x", .int 2), ("y", .string "1")],
          [("x", .int 2), ("y", .float (.ofInt 1))]]
        rowIds := [[some 4], [some 8], [some 15], [some 16], [some 23]] }
    s.IsProper ∧ s.distinct.rowIds = [[some 4], [some 8], [some 16]]
      ∧ s.IsDistinctOf s.distinct ∧ s.distinct.distinct = s.distinct := by
  intro s
  have hproper : s.IsProper := by decide +kernel
  exact ⟨hproper, by decide +kernel, distinct_exact hproper⟩

end Snapshot

end QueryReplay
