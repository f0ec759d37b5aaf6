import QueryReplay.Proofs.Reconciliation
import QueryReplay.Proofs.RowClasses

/-! # Matching by value — as many rows as can be

    Each row before takes the first equal row after that is still there.  Because equality
    is an equivalence, what a row finds depends on its class alone, so being greedy costs
    nothing.  The route:

    * a row finds one if more rows of its class are left than stand before it
      (`takeEquals_getElem?`), so of each class the first rows are kept
      (`mem_kept_rowsLike`);
    * the rows that are taken are a matching (`takeEquals_matching`), and no matching has
      more pairs, since in none of them a class has more rows than on either side
      (`length_le_of_countP_le`);
    * only the sizes of the classes count, so rows after may be put in another order and
      replaced by equal ones (`countLike_congr`). -/

namespace QueryReplay

/-! ## Matchings -/

/-- Rows before with equal rows after, each row used as often as it is there at most. -/
structure Matching (before after : List (List Json)) (pairs : List (List Json × List Json)) :
    Prop where
  left : (pairs.map Prod.fst).Subperm before
  right : (pairs.map Prod.snd).Subperm after
  equal : ∀ p ∈ pairs, cellsEqual p.1 p.2 = true

namespace Matching

variable {before after : List (List Json)} {pairs : List (List Json × List Json)}

/-- A row more on the left that finds none. -/
theorem skip (h : Matching before after pairs) (row : List Json) :
    Matching (row :: before) after pairs where
  left := h.left.trans (List.sublist_cons_self row before).subperm
  right := h.right
  equal := h.equal

/-- A row more on either side. -/
theorem cons (h : Matching before after pairs) {row row' : List Json}
    (heq : cellsEqual row row' = true) :
    Matching (row :: before) (row' :: after) ((row, row') :: pairs) where
  left := (List.subperm_cons row).mpr h.left
  right := (List.subperm_cons row').mpr h.right
  equal := List.forall_mem_cons.mpr ⟨heq, h.equal⟩

theorem perm_right (h : Matching before after pairs) {after' : List (List Json)}
    (hperm : after.Perm after') : Matching before after' pairs where
  left := h.left
  right := h.right.trans hperm.subperm
  equal := h.equal

/-- A class has no more rows in a matching than on either side. -/
theorem countP_le (h : Matching before after pairs)
    (cells : List Json) :
    (pairs.map Prod.fst).countP (cellsEqual cells)
      ≤ min (before.countP (cellsEqual cells)) (after.countP (cellsEqual cells)) := by
  have hsides : (pairs.map Prod.fst).countP (cellsEqual cells)
      ≤ (pairs.map Prod.snd).countP (cellsEqual cells) := by
    rw [List.countP_map, List.countP_map]
    exact List.countP_mono_left fun p hp hcells => cellsEqual_trans hcells (h.equal p hp)
  exact le_min (h.left.countP_le _) (hsides.trans (h.right.countP_le _))

end Matching

/-- A list in which no class has more entries than in another one is not longer. -/
theorem length_le_of_countP_le {α : Type} {r : α → α → Bool} {l k : List α}
    (hrefl : ∀ a ∈ l, r a a = true) (hsymm : ∀ a ∈ l, ∀ b, r a b = true → r b a = true)
    (htrans : ∀ a b c, r a b = true → r b c = true → r a c = true)
    (hcount : ∀ a ∈ l, l.countP (r a) ≤ k.countP (r a)) : l.length ≤ k.length := by
  -- one class after another is taken off both lists
  induction hlength : l.length using Nat.strong_induction_on generalizing l k with
  | _ n ih =>
      cases l with
      | nil => exact hlength ▸ Nat.zero_le _
      | cons a rest =>
          have hmem : ∀ b ∈ (a :: rest).filter (fun b => !r a b),
              b ∈ a :: rest ∧ r a b = false := by
            intro b hb
            obtain ⟨hb, hab⟩ := List.mem_filter.mp hb
            exact ⟨hb, (Bool.not_eq_true' _).mp hab⟩
          have hsplit : ∀ m : List α,
              m.length = m.countP (r a) + (m.filter fun b => !r a b).length := by
            intro m
            rw [List.length_eq_countP_add_countP (r a), ← List.countP_eq_length_filter]
            simp
          -- an entry of another class has all its equals in the other classes
          have hother : ∀ b ∈ (a :: rest).filter (fun b => !r a b), ∀ m : List α,
              (m.filter fun c => !r a c).countP (r b) = m.countP (r b) := by
            intro b hb m
            obtain ⟨hmemb, hab⟩ := hmem b hb
            rw [List.countP_filter]
            refine List.countP_congr fun c _ => ?_
            rw [Bool.and_eq_true, and_iff_left_iff_imp]
            intro hbc
            rw [Bool.not_eq_true', ← Bool.not_eq_true]
            intro hac
            rw [htrans a c b hac (hsymm b hmemb c hbc)] at hab
            exact nomatch hab
          have hpos : 0 < (a :: rest).countP (r a) :=
            List.countP_pos_iff.mpr ⟨a, List.mem_cons_self, hrefl a List.mem_cons_self⟩
          have hrest : ((a :: rest).filter fun b => !r a b).length
              ≤ (k.filter fun b => !r a b).length := by
            refine ih _ ?_ (fun b hb => hrefl b (hmem b hb).1) (fun b hb => hsymm b (hmem b hb).1)
              (fun b hb => ?_) rfl
            · rw [← hlength, hsplit (a :: rest)]
              omega
            · rw [hother b hb, hother b hb]
              exact hcount b (hmem b hb).1
          rw [← hlength, hsplit (a :: rest), hsplit k]
          exact Nat.add_le_add (hcount a List.mem_cons_self) hrest

/-! ## The rows that are taken -/

/-- The rows at which a list of truth values holds. -/
def flagged (flags : List Bool) (rows : List (List Json)) : List (List Json) :=
  (indicesOf true flags).filterMap fun i => rows[i]?

theorem flagged_cons (flag : Bool) (flags : List Bool) (row : List Json)
    (rows : List (List Json)) :
    flagged (flag :: flags) (row :: rows)
      = (if flag = true then [row] else []) ++ flagged flags rows := by
  rw [flagged, indicesOf_eq_indicesWhere, indicesWhere_cons, List.filterMap_append,
    List.filterMap_map, flagged, indicesOf_eq_indicesWhere]
  cases flag <;> rfl

/-- The rows that find one, with those that they take, are a matching. -/
theorem takeEquals_matching (available rows : List (List Json)) :
    ∃ pairs, Matching rows available pairs
      ∧ pairs.map Prod.fst = flagged (takeEquals available rows) rows := by
  induction rows generalizing available with
  | nil => exact ⟨[], ⟨List.nil_subperm, List.nil_subperm, nofun⟩, rfl⟩
  | cons row rest ih =>
      unfold takeEquals
      rcases takeEqual_cases row available with ⟨hnone, -⟩ | ⟨row', more, hsome, heq, hperm⟩
      · rw [hnone]
        obtain ⟨pairs, hmatching, hpairs⟩ := ih available
        refine ⟨pairs, hmatching.skip row, ?_⟩
        rw [hpairs, flagged_cons]
        rfl
      · rw [hsome]
        obtain ⟨pairs, hmatching, hpairs⟩ := ih more
        refine ⟨(row, row') :: pairs, (hmatching.cons heq).perm_right hperm.symm, ?_⟩
        rw [List.map_cons, hpairs, flagged_cons]
        rfl

/-! ## The rows of a table that are kept -/

/-- Rows are divided as a greatest matching by value matches them. -/
structure Reconciliation.ByValue (r : Reconciliation) (before after : Snapshot) : Prop where
  /-- Of each class the first rows are kept, as many as it has on both sides. -/
  kept : ∀ cells : ProperRow, (r.kept.filter (· ∈ before.rowsLike cells.1))
    = (before.rowsLike cells.1).take (min (before.countLike cells.1) (after.countLike cells.1))
  /-- The other rows of the class are filtered out. -/
  filteredOut : ∀ cells : ProperRow, (r.filteredOut.filter (· ∈ before.rowsLike cells.1))
    = (before.rowsLike cells.1).drop (min (before.countLike cells.1) (after.countLike cells.1))
  divides : Divides before.size r.kept r.filteredOut
  /-- The kept rows can be matched with rows after. -/
  matched : ∃ pairs, Matching before.cellRows after.cellRows pairs
    ∧ (pairs.map Prod.fst).map some = r.kept.map before.cells?
  /-- No matching has more pairs. -/
  maximum : ∀ pairs, Matching before.cellRows after.cellRows pairs → pairs.length ≤ r.kept.length

section ByValue

variable {before after : Snapshot} (name : String)

/-- Equal rows of proper cells stand behind as many equal rows. -/
theorem countP_congr_class {rows : List (List Json)} {row : List Json} (cells : ProperRow)
    (hrows : ∀ row ∈ rows, ∀ cell ∈ row, cell.isProper = true)
    (h : cellsEqual cells.1 row = true) :
    rows.countP (cellsEqual · row) = rows.countP (cellsEqual cells.1) := by
  refine List.countP_congr fun other hother => ?_
  have hsymm : ∀ {row : List Json}, cellsEqual other row = true → cellsEqual row other = true :=
    fun heq => cellsEqual_symm (ProperRow.namesOnce ⟨other, hrows other hother⟩) heq
  constructor
  · exact fun heq => cellsEqual_trans h (hsymm heq)
  · exact fun heq => cellsEqual_trans (cellsEqual_symm cells.namesOnce heq) h

/-- A row of a class is kept if fewer of its rows stand before it than are left. -/
theorem flag_of_class (hbefore : before.IsProper) (cells : ProperRow) {i : Nat}
    (hi : i ∈ before.rowsLike cells.1) :
    (takeEquals after.cellRows before.cellRows)[i]?
      = some (decide ((before.cellRows.take i).countP (cellsEqual cells.1)
        < after.countLike cells.1)) := by
  obtain ⟨row, hrow, hlike⟩ := (mem_indicesWhere ..).mp hi
  have hnames := fun row hrow => ProperRow.namesOnce ⟨row, hbefore row hrow⟩
  rw [takeEquals_getElem? hnames hrow, countP_congr_class cells
    (fun row hrow => hbefore row (List.mem_of_mem_take hrow)) hlike,
    ← cellsEqual_congr_left cells.namesOnce hlike]
  rfl

theorem mem_kept_rowsLike (hbefore : before.IsProper) (cells : ProperRow) (b : Bool) {i : Nat} :
    i ∈ indicesOf b (takeEquals after.cellRows before.cellRows) ∧ i ∈ before.rowsLike cells.1
      ↔ i ∈ before.rowsLike cells.1 ∧ decide ((before.cellRows.take i).countP (cellsEqual cells.1)
        < after.countLike cells.1) = b := by
  rw [and_comm]
  refine and_congr_right fun hi => ?_
  rw [mem_indicesOf, flag_of_class hbefore cells hi, Option.some.injEq]

/-- The rows of a class among the kept ones are its first ones. -/
theorem filter_kept_rowsLike (hbefore : before.IsProper) (cells : ProperRow) :
    ((reconcileByValue before after name).kept.filter (· ∈ before.rowsLike cells.1))
      = (before.rowsLike cells.1).take
        (min (before.countLike cells.1) (after.countLike cells.1)) := by
  rw [← before.length_rowsLike, Nat.min_comm, ← List.take_eq_take_min, Snapshot.rowsLike,
    ← (filter_indicesWhere ..).1]
  refine List.Pairwise.eq_of_mem_iff (r := (· < ·))
    ((reconcileByValue_divides before after name).kept_increasing.filter _)
    ((indicesWhere_increasing ..).filter _) (fun i => ?_)
  rw [List.mem_filter, List.mem_filter, decide_eq_true_iff]
  exact mem_kept_rowsLike hbefore cells true

theorem filter_filteredOut_rowsLike (hbefore : before.IsProper) (cells : ProperRow) :
    ((reconcileByValue before after name).filteredOut.filter (· ∈ before.rowsLike cells.1))
      = (before.rowsLike cells.1).drop
        (min (before.countLike cells.1) (after.countLike cells.1)) := by
  rw [← before.length_rowsLike, Nat.min_comm, ← List.drop_eq_drop_min, Snapshot.rowsLike,
    ← (filter_indicesWhere ..).2]
  refine List.Pairwise.eq_of_mem_iff (r := (· < ·))
    ((reconcileByValue_divides before after name).dropped_increasing.filter _)
    ((indicesWhere_increasing ..).filter _) (fun i => ?_)
  rw [List.mem_filter, List.mem_filter, decide_eq_true_iff]
  refine (mem_kept_rowsLike hbefore cells false).trans ?_
  rw [decide_eq_false_iff_not, decide_eq_true_iff]
  rfl

/-- A class has as many kept rows as it has on both sides. -/
theorem countP_flagged (hbefore : before.IsProper) (cells : ProperRow) :
    (flagged (takeEquals after.cellRows before.cellRows) before.cellRows).countP
        (cellsEqual cells.1) = min (before.countLike cells.1) (after.countLike cells.1) := by
  have hfirst := congrArg List.length
    (@filter_kept_rowsLike before after "" hbefore cells)
  rw [List.length_take, before.length_rowsLike, ← List.countP_eq_length_filter] at hfirst
  rw [flagged, List.countP_filterMap]
  refine Eq.trans (List.countP_congr fun i _ => ?_)
    (hfirst.trans (min_eq_left (Nat.min_le_left ..)))
  rw [decide_eq_true_iff, Snapshot.rowsLike, mem_indicesWhere]
  cases before.cellRows[i]? <;> simp

theorem reconcileByValue_byValue (hbefore : before.IsProper) :
    (reconcileByValue before after name).ByValue before after := by
  have hdivides := reconcileByValue_divides before after name
  have hrange : ∀ i ∈ (reconcileByValue before after name).kept, i < before.cellRows.length :=
    fun i hi => before.length_cellRows ▸ (hdivides.cover i).mpr (Or.inl hi)
  constructor
  case kept => exact filter_kept_rowsLike name hbefore
  case filteredOut => exact filter_filteredOut_rowsLike name hbefore
  case divides => exact hdivides
  case matched =>
    obtain ⟨pairs, hmatching, hpairs⟩ := takeEquals_matching after.cellRows before.cellRows
    refine ⟨pairs, hmatching, ?_⟩
    rw [hpairs]
    refine (map_some_filterMap_getElem? hrange).trans (List.map_congr_left fun i _ => ?_)
    exact (before.cells?_eq i).symm
  case maximum =>
    intro pairs hmatching
    have hproper : ∀ row ∈ pairs.map Prod.fst, ∀ cell ∈ row, cell.isProper = true :=
      fun row hrow => hbefore row (hmatching.left.subset hrow)
    have hlength : (flagged (takeEquals after.cellRows before.cellRows) before.cellRows).length
        = (reconcileByValue before after name).kept.length := length_filterMap_getElem? hrange
    rw [← hlength, ← List.length_map Prod.fst]
    refine length_le_of_countP_le (r := cellsEqual) (fun row hrow => ?_) (fun row hrow other => ?_)
      (fun _ _ _ => cellsEqual_trans) (fun row hrow => ?_)
    · exact ProperRow.refl ⟨row, hproper row hrow⟩
    · exact cellsEqual_symm (ProperRow.namesOnce ⟨row, hproper row hrow⟩)
    · rw [countP_flagged hbefore ⟨row, hproper row hrow⟩]
      exact hmatching.countP_le row

/-- Tables have classes of the same size if one has the rows of the other in some order,
    each as it is or replaced by an equal one. -/
theorem countLike_congr {after' : Snapshot} (hafter : after.IsProper) {rows : List (List Json)}
    (hperm : rows.Perm after.cellRows)
    (hequal : List.Forall₂ (fun row row' => cellsEqual row row' = true) rows after'.cellRows)
    (cells : List Json) : after'.countLike cells = after.countLike cells := by
  have hproper : ∀ row ∈ rows, ∀ cell ∈ row, cell.isProper = true :=
    fun row hrow => hafter row (hperm.mem_iff.mp hrow)
  rw [Snapshot.countLike, Snapshot.countLike, ← hperm.countP_eq]
  clear hperm
  generalize after'.cellRows = rows' at hequal
  induction hequal with
  | nil => rfl
  | @cons row row' rest rest' heq _ ih =>
      have hfirst := ProperRow.namesOnce ⟨row, hproper row List.mem_cons_self⟩
      have hsame : cellsEqual cells row' = cellsEqual cells row := Bool.eq_iff_iff.mpr
        ⟨fun h => cellsEqual_trans h (cellsEqual_symm hfirst heq), fun h => cellsEqual_trans h heq⟩
      rw [List.countP_cons, List.countP_cons, hsame,
        ih fun row hrow => hproper row (List.mem_cons_of_mem _ hrow)]

/-- Which rows find one depends on the sizes of the classes after alone. -/
theorem takeEquals_congr (hbefore : before.IsProper) {after' : Snapshot}
    (hcount : ∀ cells, after'.countLike cells = after.countLike cells) :
    takeEquals after'.cellRows before.cellRows = takeEquals after.cellRows before.cellRows := by
  have hnames := fun row hrow => ProperRow.namesOnce ⟨row, hbefore row hrow⟩
  refine List.ext_getElem? fun i => ?_
  cases hrow : before.cellRows[i]? with
  | none =>
      have hshort := List.getElem?_eq_none_iff.mp hrow
      rw [List.getElem?_eq_none (by rw [takeEquals_length]; exact hshort),
        List.getElem?_eq_none (by rw [takeEquals_length]; exact hshort)]
  | some row =>
      rw [takeEquals_getElem? hnames hrow, takeEquals_getElem? hnames hrow]
      exact congrArg (fun n => some (decide (_ < n))) (hcount row)

end ByValue

/-- Matching by value is exact, for tables of cells as documents hold them.  Equality of
    rows is an equivalence; of each class the first rows are kept, as many as the class has
    on both sides, and all others are filtered out; the two lists ascend and divide the rows
    before; the kept rows can be matched with rows after, and no matching has more pairs.
    Which rows are kept does not change when the rows after are put in another order and
    replaced by equal ones. -/
theorem reconcileByValue_exact {before after : Snapshot} (hbefore : before.IsProper)
    (hafter : after.IsProper) (name : String) :
    (Equivalence fun a b : ProperRow => cellsEqual a.1 b.1 = true)
      ∧ (reconcileByValue before after name).ByValue before after
      ∧ ∀ (after' : Snapshot) (rows : List (List Json)), rows.Perm after.cellRows →
        List.Forall₂ (fun row row' => cellsEqual row row' = true) rows after'.cellRows →
        ∀ name' : String,
          (reconcileByValue before after' name').kept = (reconcileByValue before after name).kept
            ∧ (reconcileByValue before after' name').filteredOut
              = (reconcileByValue before after name).filteredOut := by
  refine ⟨cellsEqual_equivalence, reconcileByValue_byValue name hbefore, ?_⟩
  intro after' rows hperm hequal name'
  have hflags := takeEquals_congr hbefore (countLike_congr hafter hperm hequal)
  exact ⟨congrArg (indicesOf true) hflags, congrArg (indicesOf false) hflags⟩

/-- Of three equal rows, two integers and a double, the first two find the double and the
    integer after; objects are equal by name and nulls equal nulls. -/
theorem reconcileByValue_exact_mixed :
    let before : Snapshot := .ofCells "before" ["x", "y"]
      [[.int 1, .null], [.object [("a", .int 1), ("b", .null)], .null], [.int 1, .null],
        [.float (.ofInt 1), .null], [.int 2, .null]]
    let after : Snapshot := .ofCells "after" ["x", "y"]
      [[.float (.ofInt 1), .null], [.int 1, .null],
        [.object [("b", .null), ("a", .int 1)], .null]]
    before.IsProper ∧ after.IsProper
      ∧ (reconcileByValue before after "having").kept = [0, 1, 2]
      ∧ (reconcileByValue before after "having").filteredOut = [3, 4]
      ∧ (reconcileByValue before after "having").ByValue before after := by
  intro before after
  have hbefore : before.IsProper := by decide +kernel
  have hafter : after.IsProper := by decide +kernel
  exact ⟨hbefore, hafter, by decide +kernel, by decide +kernel,
    (reconcileByValue_exact hbefore hafter "having").2.1⟩

end QueryReplay
