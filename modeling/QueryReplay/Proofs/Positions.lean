import QueryReplay.Proofs.JoinCells

/-! # Positions — the cells of a table through its transformations

    The stages of a replay pass cells on by position, but a table keeps them by column
    name.  A table made of cells, another one's rows and cells under other names or
    behind a prefix: each holds at every position what it was made from.  The route:

    * rows are written under names made distinct, so a row holds what was written at
      each position (`cells?_ofCells`);
    * a prefix gives different columns different names and equal ones the same name, so
      it need not be known that a table's names differ (`keepsCells_qualify`);
    * rows that are chosen are taken over with their identities (`rowId?_selectRows`). -/

namespace QueryReplay.Snapshot

/-- Two tables have the same cells at every position, in as many rows with the same
    identities. -/
structure KeepsCells (s t : Snapshot) : Prop where
  cells : ∀ i, t.cells? i = s.cells? i
  size : t.size = s.size
  rowIds : t.rowIds = s.rowIds

theorem keepsCells_of_cellRows {s t : Snapshot} (hcells : t.cellRows = s.cellRows)
    (hids : t.rowIds = s.rowIds) : s.KeepsCells t where
  cells i := by rw [cells?_eq, cells?_eq, hcells]
  size := by rw [← length_cellRows, ← length_cellRows, hcells]
  rowIds := hids

/-! ## Cells by position -/

/-- Cells under distinct names are written one by one as they stand. -/
theorem ofList_zip_uniqueNames (names : List String) (cells : List Json) :
    Json.Members.ofList ((uniqueNames names).zip cells) = (uniqueNames names).zip cells := by
  refine Assoc.ofList_of_nodup ?_
  rw [List.zip_eq_zip_take_min, List.map_fst_zip (by simp)]
  exact (uniqueNames_nodup names).sublist (List.take_sublist _ _)

/-- A row has a cell for each column: the one at its position, or null behind its end. -/
theorem cells?_ofCells (name : String) (columns : List String) {rows : List (List Json)} {i : Nat}
    {row : List Json} (h : rows[i]? = some row) :
    ∃ cells, (ofCells name columns rows).cells? i = some cells
      ∧ cells.length = columns.length
      ∧ ∀ k < columns.length, cells[k]? = some (row.getD k .null) := by
  refine ⟨fitted columns.length row, ?_, length_fitted _ _, fun k hk => ?_⟩
  · rw [cells?_eq, cellRows_ofCells, List.getElem?_map, h, Option.map_some]
  · rw [fitted, List.getElem?_map, List.getElem?_range hk, Option.map_some]

section Transformations

variable (s : Snapshot)

/-! ## Other names -/

/-- Labels are taken exactly when there is one for each column. -/
theorem relabel?_isSome_iff (labels : List String) :
    (s.relabel? labels).isSome = true ↔ labels.length = s.columns.length := by
  unfold relabel?
  split
  · next h => exact iff_of_true rfl h
  · next h => exact iff_of_false Bool.false_ne_true h

/-- Relabelled columns bear the labels, told apart, and keep their cells. -/
theorem keepsCells_relabel? {labels : List String} {t : Snapshot} (h : s.relabel? labels = some t) :
    t.columns = uniqueNames labels ∧ s.KeepsCells t := by
  have hwidth := (s.relabel?_isSome_iff labels).mp (h ▸ rfl)
  have hlabelled : s.labelled labels = t := by
    rw [labelled, h]
    rfl
  have hids : t.rowIds = s.rowIds := by
    rw [relabel?, if_pos hwidth] at h
    obtain rfl := Option.some.inj h
    rfl
  rw [← hlabelled] at hids ⊢
  exact ⟨s.columns_labelled hwidth, keepsCells_of_cellRows (s.cellRows_labelled labels) hids⟩

/-- A prefix in front of the column names moves no cell. -/
theorem keepsCells_qualify (pre : String) : s.KeepsCells (s.qualify pre) :=
  keepsCells_of_cellRows (cellRows_qualify s pre) rfl

/-! ## Chosen rows -/

/-- With one identity for each row, a chosen row has the identity it had. -/
theorem rowId?_selectRows {indices : List Nat} (h : ∀ i ∈ indices, i < s.size) (name : String)
    (hids : s.isIdentified = true) : (s.selectRows name indices).isIdentified = true
      ∧ ∀ n, (s.selectRows name indices).rowId? n = indices[n]?.bind s.rowId? := by
  have hchosen : (s.selectRows name indices).rowIds = indices.filterMap fun i => s.rowIds[i]? :=
    if_pos hids
  have hcount : s.rowIds.length = s.size := beq_iff_eq.mp hids
  have hrange : ∀ i ∈ indices, i < s.rowIds.length := fun i hi => hcount ▸ h i hi
  refine ⟨beq_iff_eq.mpr ?_, fun n => ?_⟩
  · rw [hchosen, length_filterMap_getElem? hrange]
    exact (s.size_selectRows name h).symm
  · rw [rowId?, hchosen, getElem?_filterMap_getElem? hrange]
    rfl

end Transformations

/-- Cells keep their positions.  A table made of cells has, in maps by column name, at each
    position of a row the cell that was given there, and null behind the row's end; other
    labels can be put on a table exactly when there is one for each column, and a prefix
    always, and both leave all cells, the number of rows and the identities; chosen rows have
    the cells of the rows that were chosen, in that order, and their identities when each row
    has one. -/
theorem positions_kept :
    (∀ (name : String) (columns : List String) (rows : List (List Json)),
        (ofCells name columns rows).rows
            = rows.map (fun row => Json.Members.ofList ((uniqueNames columns).zip row))
          ∧ ∀ i row, rows[i]? = some row → ∃ cells,
            (ofCells name columns rows).cells? i = some cells ∧ cells.length = columns.length
              ∧ ∀ k < columns.length, cells[k]? = some (row.getD k .null))
      ∧ (∀ (s : Snapshot) (labels : List String),
        (s.relabel? labels).isSome = true ↔ labels.length = s.columns.length)
      ∧ (∀ (s t : Snapshot) (labels : List String), s.relabel? labels = some t →
        t.columns = uniqueNames labels ∧ s.KeepsCells t)
      ∧ (∀ (s : Snapshot) (pre : String), (s.qualify pre).columns = s.columns.map (qualifiedName pre)
        ∧ s.KeepsCells (s.qualify pre))
      ∧ ∀ (s : Snapshot) (name : String) (indices : List Nat), (∀ i ∈ indices, i < s.size) →
        (s.selectRows name indices).size = indices.length
          ∧ (∀ n, (s.selectRows name indices).cells? n = indices[n]?.bind s.cells?)
          ∧ (s.isIdentified = true → (s.selectRows name indices).isIdentified = true
            ∧ ∀ n, (s.selectRows name indices).rowId? n = indices[n]?.bind s.rowId?) := by
  refine ⟨fun name columns rows => ⟨?_, fun i row => cells?_ofCells name columns⟩,
    relabel?_isSome_iff, fun s t labels => s.keepsCells_relabel?,
    fun s pre => ⟨rfl, s.keepsCells_qualify pre⟩, fun s name indices h =>
      ⟨s.size_selectRows name h, s.cells?_selectRows name h, s.rowId?_selectRows h name⟩⟩
  exact List.map_congr_left fun row _ => (ofList_zip_uniqueNames columns row).symm

/-- Two columns of one name, under which one row has too few cells and the other too many. -/
theorem positions_kept_ragged : ∃ s t cells,
    s = (ofCells "t" ["x", "x"] [[.string "a"], [.string "b", .string "c", .string "d"]]).withRowIds
        [[some 1], [some 2]]
      ∧ s.cells? 0 = some cells ∧ cells.length = 2 ∧ cells[0]? = some (.string "a")
      ∧ cells[1]? = some .null
      ∧ s.relabel? ["y", "y"] = some t ∧ s.KeepsCells t
      ∧ s.KeepsCells (s.qualify "x")
      ∧ (s.selectRows "u" [1, 0, 1]).cells? 1 = some cells
      ∧ (s.selectRows "u" [1, 0, 1]).rowId? 1 = some [some 1] := by
  obtain ⟨hofCells, hfits, hrelabel, hqualify, hselect⟩ := positions_kept
  obtain ⟨s, hs⟩ : ∃ s, s = (ofCells "t" ["x", "x"] [[.string "a"],
    [.string "b", .string "c", .string "d"]]).withRowIds [[some 1], [some 2]] := ⟨_, rfl⟩
  obtain ⟨cells, hcells, hlength, hat⟩ := (hofCells "t" ["x", "x"] [[.string "a"],
    [.string "b", .string "c", .string "d"]]).2 0 [.string "a"] rfl
  have hread : s.cells? 0 = some cells := by
    rw [hs]
    exact hcells
  obtain ⟨t, ht⟩ := Option.isSome_iff_exists.mp ((hfits s ["y", "y"]).mpr (by rw [hs]; decide +kernel))
  obtain ⟨-, hchosen, hids⟩ := hselect s "u" [1, 0, 1] (by rw [hs]; decide)
  refine ⟨s, t, cells, hs, hread, hlength, hat 0 (by decide), hat 1 (by decide), ht,
    (hrelabel s t _ ht).2, (hqualify s "x").2, (hchosen 1).trans hread, ?_⟩
  rw [(hids (by rw [hs]; decide)).2 1, hs]
  rfl

end QueryReplay.Snapshot
