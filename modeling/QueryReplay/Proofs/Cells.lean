import QueryReplay.Engine.Reply
import QueryReplay.Proofs.Names
import QueryReplay.Proofs.RowIndices
import QueryReplay.Replay.Stages

/-! # Cells by position — what a table keeps of an answer

    An answer holds cells by position, a table holds them by column name.
    Nothing is lost on the way because the names of a table's columns differ:

    * reading a row that was zipped with distinct names gives its cells back,
      fitted to the number of columns (`map_getD_zip`);
    * so `ofCells` keeps every cell that has a column, and putting other labels
      on a table keeps them all (`cellRows_labelled`);
    * chosen rows are taken over as they are (`cells?_selectRows`). -/

namespace QueryReplay

/-! ## Rows of a given width -/

/-- A row at a given width: nulls for the cells it lacks, its surplus dropped. -/
def fitted (width : Nat) (row : List Json) : List Json :=
  (List.range width).map fun i => row.getD i .null

@[simp] theorem length_fitted (width : Nat) (row : List Json) :
    (fitted width row).length = width := by
  simp [fitted]

/-- A row is fitted from the front, with a null for each cell that it lacks. -/
theorem fitted_succ (width : Nat) (row : List Json) :
    fitted (width + 1) row = row.headD .null :: fitted width row.tail := by
  unfold fitted
  rw [List.range_succ_eq_map, List.map_cons, List.map_map]
  cases row with
  | nil => rfl
  | cons cell rest => rfl

/-- A row of the right width stays as it is. -/
theorem fitted_self (row : List Json) : fitted row.length row = row := by
  induction row with
  | nil => rfl
  | cons cell rest ih =>
      rw [List.length_cons, fitted_succ]
      exact congrArg (cell :: ·) ih

/-! ## Reading rows by column name -/

/-- A column that differs from the first one is read behind it. -/
theorem getD_cons_of_ne {column name : String} (h : name ≠ column) (cell : Json)
    (row : Row) : Json.Members.getD ((column, cell) :: row) name = Json.Members.getD row name := by
  have hbeq : (name == column) = false := beq_false_of_ne h
  simp only [Json.Members.getD, Json.Members.get?, List.lookup_cons, hbeq]

/-- Cells that were zipped with distinct names are read back in order. -/
theorem map_getD_zip {columns : List String} (h : columns.Nodup) (row : List Json) :
    columns.map (Json.Members.getD (columns.zip row)) = fitted columns.length row := by
  induction columns generalizing row with
  | nil => rfl
  | cons column rest ih =>
      obtain ⟨hcolumn, hrest⟩ := List.nodup_cons.mp h
      rw [List.length_cons, fitted_succ, List.map_cons]
      cases row with
      | nil =>
          have htail := ih hrest []
          rw [List.zip_nil_right] at htail
          rw [List.zip_nil_right]
          exact congrArg (Json.null :: ·) htail
      | cons cell cells =>
          have hfirst : Json.Members.getD ((column, cell) :: rest.zip cells) column = cell := by
            simp [Json.Members.getD, Json.Members.get?]
          have htail : rest.map (Json.Members.getD ((column, cell) :: rest.zip cells))
              = rest.map (Json.Members.getD (rest.zip cells)) := by
            refine List.map_congr_left (fun name hname => ?_)
            have hne : name ≠ column := by
              rintro rfl
              exact hcolumn hname
            exact getD_cons_of_ne hne cell _
          rw [List.zip_cons_cons, hfirst, htail, ih hrest cells]
          rfl

namespace Snapshot

variable (s : Snapshot) (name : String)

theorem length_cellRows : s.cellRows.length = s.size := List.length_map ..

/-- The cells at a place are those of the row that stands there. -/
theorem cells?_eq (i : Nat) : s.cells? i = s.cellRows[i]? := List.getElem?_map.symm

@[simp] theorem cellRows_renamed : (s.renamed name).cellRows = s.cellRows := rfl

@[simp] theorem columns_renamed : (s.renamed name).columns = s.columns := rfl

/-- Columns that are named alike are renamed apart. -/
@[simp] theorem columns_ofCells (columns : List String) (cells : List (List Json)) :
    (ofCells name columns cells).columns = uniqueNames columns := rfl

/-- A table keeps of each row the cells that have a column. -/
theorem cellRows_ofCells (columns : List String) (cells : List (List Json)) :
    (ofCells name columns cells).cellRows = cells.map (fitted columns.length) := by
  show (cells.map (uniqueNames columns).zip).map (ofCells name columns cells).cellsOf
    = cells.map (fitted columns.length)
  rw [List.map_map]
  refine List.map_congr_left (fun row _ => ?_)
  have hread := map_getD_zip (uniqueNames_nodup columns) row
  rw [uniqueNames_length] at hread
  exact hread

/-- Other labels keep every cell, whether they fit the table or not. -/
theorem cellRows_labelled (labels : List String) : (s.labelled labels).cellRows = s.cellRows := by
  by_cases h : labels.length = s.columns.length
  · rw [labelled, relabel?, if_pos h]
    show (s.cellRows.map (uniqueNames labels).zip).map
      (fun row => (uniqueNames labels).map (Json.Members.getD row)) = s.cellRows
    rw [List.map_map]
    refine (List.map_congr_left (fun row hrow => ?_)).trans (List.map_id _)
    obtain ⟨source, -, rfl⟩ := List.mem_map.mp hrow
    have hread := map_getD_zip (uniqueNames_nodup labels) (s.cellsOf source)
    have hwidth : (uniqueNames labels).length = (s.cellsOf source).length := by
      rw [uniqueNames_length, h, cellsOf, List.length_map]
    rw [hwidth, fitted_self] at hread
    exact hread
  · rw [labelled, relabel?, if_neg h]
    rfl

/-- Labels that fit become the columns. -/
theorem columns_labelled {labels : List String} (h : labels.length = s.columns.length) :
    (s.labelled labels).columns = uniqueNames labels := by
  rw [labelled, relabel?, if_pos h]
  rfl

/-! ## Chosen rows -/

section Selections

variable {indices : List Nat} (h : ∀ i ∈ indices, i < s.size)
include h

theorem size_selectRows : (s.selectRows name indices).size = indices.length :=
  length_filterMap_getElem? h

/-- A chosen row has the cells of the row that it was chosen from. -/
theorem cells?_selectRows (k : Nat) :
    (s.selectRows name indices).cells? k = indices[k]?.bind s.cells? := by
  show (indices.filterMap fun i => s.rows[i]?)[k]?.map s.cellsOf = _
  rw [getElem?_filterMap_getElem? h, Option.map_bind]
  rfl

/-- The rows are taken over as they are, in the order of the choice. -/
theorem rows_selectRows : (s.selectRows name indices).rows.map some = indices.map (s.rows[·]?) :=
  map_some_filterMap_getElem? h

/-- So are their identities, if there are any. -/
theorem rowIds_selectRows : (s.selectRows name indices).rowIds.map some
    = if s.isIdentified then indices.map s.rowId? else [] := by
  by_cases hids : s.isIdentified = true
  · rw [selectRows, if_pos hids, if_pos hids]
    exact map_some_filterMap_getElem? fun i hi => (beq_iff_eq.mp hids).symm ▸ h i hi
  · rw [selectRows, if_neg hids, if_neg hids]
    rfl

end Selections

end Snapshot

end QueryReplay
