import QueryReplay.Proofs.Equality
import QueryReplay.Proofs.RowIndices

/-! # Reconciliation — which rows are kept by what is left of them

    The engine answers the rows that a condition keeps, by identity or by value, in its own
    order and perhaps more than once.  Each of them takes one row off those that are still
    there.  The route to which rows are kept:

    * taking a row leaves the rows of all other identities as they were, and takes the first
      of its own (`takeIdentity_cases`);
    * so an identity that is named for the `n`-th time takes the `n`-th row that has it
      (`takeIdentities_eq`), and as many of its rows are taken, from the first on, as the list
      names it (`mem_takeIdentities_iff`);
    * `reconcileByIdentity_exact` says so of the rows of a table, which leaves nothing to the
      order of the list but the order of the result;
    * by value a row takes any row that equals it (`takeEqual_cases`), and it finds one when
      more of these are there than equal rows before it have taken (`takeEquals_getElem?`). -/

namespace QueryReplay

/-! ## Taking rows off a list -/

/-- The indices that a list holds for an identity, in order. -/
def indicesFor (id : RowId) (available : List (RowId × Nat)) : List Nat :=
  available.filterMap fun (x, i) => if x = id then some i else none

theorem indicesFor_cons_self (id : RowId) (i : Nat) (rest : List (RowId × Nat)) :
    indicesFor id ((id, i) :: rest) = i :: indicesFor id rest :=
  List.filterMap_cons_some (if_pos rfl)

theorem indicesFor_cons_of_ne {x id : RowId} (h : x ≠ id) (i : Nat) (rest : List (RowId × Nat)) :
    indicesFor id ((x, i) :: rest) = indicesFor id rest :=
  List.filterMap_cons_none (if_neg h)

/-- An identity takes the first index that is there for it, if there is one, and leaves those
    of all other identities. -/
theorem takeIdentity_cases (id : RowId) (available : List (RowId × Nat)) :
    (takeIdentity id available = none ∧ indicesFor id available = [])
      ∨ ∃ i rest, takeIdentity id available = some (i, rest)
        ∧ indicesFor id available = i :: indicesFor id rest
        ∧ ∀ x ≠ id, indicesFor x available = indicesFor x rest := by
  induction available with
  | nil => exact .inl ⟨rfl, rfl⟩
  | cons entry more ih =>
      obtain ⟨y, j⟩ := entry
      unfold takeIdentity
      by_cases hy : y = id
      · subst hy
        rw [if_pos rfl]
        exact .inr ⟨j, more, rfl, indicesFor_cons_self y j more,
          fun x hx => indicesFor_cons_of_ne hx.symm j more⟩
      · rw [if_neg hy, indicesFor_cons_of_ne hy]
        rcases ih with ⟨hnone, hempty⟩ | ⟨i, rest, hsome, hown, hother⟩
        · exact .inl ⟨by rw [hnone]; rfl, hempty⟩
        · refine .inr ⟨i, (y, j) :: rest, by rw [hsome]; rfl, ?_, fun x hx => ?_⟩
          · rw [indicesFor_cons_of_ne hy]
            exact hown
          · by_cases hxy : y = x
            · subst hxy
              rw [indicesFor_cons_self, indicesFor_cons_self, hother y hx]
            · rw [indicesFor_cons_of_ne hxy, indicesFor_cons_of_ne hxy, hother x hx]

/-- As many indices of an identity are taken, from the first on, as the list names it. -/
theorem mem_takeIdentities_iff {available : List (RowId × Nat)} {after : List RowId} {i : Nat} :
    i ∈ takeIdentities available after
      ↔ ∃ id, i ∈ (indicesFor id available).take (after.count id) := by
  induction after generalizing available with
  | nil => simp [takeIdentities]
  | cons id rest ih =>
      unfold takeIdentities
      rcases takeIdentity_cases id available with ⟨hnone, hempty⟩ | ⟨j, more, hsome, hown, hother⟩
      · rw [hnone]
        refine ih.trans (exists_congr fun x => ?_)
        by_cases hx : x = id
        · rw [hx, hempty, List.take_nil, List.take_nil]
        · rw [List.count_cons_of_ne (Ne.symm hx)]
      · rw [hsome]
        refine List.mem_cons.trans ((or_congr_right ih).trans ?_)
        constructor
        · rintro (rfl | ⟨x, hx⟩)
          · refine ⟨id, ?_⟩
            rw [hown, List.count_cons_self, List.take_succ_cons]
            exact List.mem_cons_self
          · refine ⟨x, ?_⟩
            by_cases hne : x = id
            · subst hne
              rw [hown, List.count_cons_self, List.take_succ_cons]
              exact List.mem_cons_of_mem _ hx
            · rw [hother x hne, List.count_cons_of_ne (Ne.symm hne)]
              exact hx
        · rintro ⟨x, hx⟩
          by_cases hne : x = id
          · subst hne
            rw [hown, List.count_cons_self, List.take_succ_cons] at hx
            exact (List.mem_cons.mp hx).imp_right fun hx => ⟨x, hx⟩
          · rw [hother x hne, List.count_cons_of_ne (Ne.symm hne)] at hx
            exact .inr ⟨x, hx⟩

/-- Where an identity is named for the `n`-th time, it takes its `n`-th index if there is one. -/
theorem takeIdentities_eq (available : List (RowId × Nat)) (after : List RowId) :
    takeIdentities available after = (List.range after.length).filterMap fun k =>
      after[k]?.bind fun id => (indicesFor id available)[(after.take k).count id]? := by
  induction after generalizing available with
  | nil => rfl
  | cons id rest ih =>
      rw [List.length_cons, List.range_succ_eq_map, List.filterMap_cons, List.filterMap_map]
      unfold takeIdentities
      rcases takeIdentity_cases id available with ⟨hnone, hempty⟩ | ⟨j, more, hsome, hown, hother⟩
      · rw [hnone]
        simp only [List.getElem?_cons_zero, Option.bind_some, List.take_zero, List.count_nil, hempty,
          List.getElem?_nil]
        rw [ih]
        refine List.filterMap_congr fun k _ => Option.bind_congr fun x _ => ?_
        rw [List.take_succ_cons]
        by_cases hx : x = id
        · rw [hx, hempty, List.getElem?_nil, List.getElem?_nil]
        · rw [List.count_cons_of_ne (Ne.symm hx)]
      · rw [hsome]
        simp only [List.getElem?_cons_zero, Option.bind_some, List.take_zero, List.count_nil, hown]
        rw [ih]
        refine congrArg (j :: ·) (List.filterMap_congr fun k _ => Option.bind_congr fun x _ => ?_)
        rw [List.take_succ_cons]
        by_cases hx : x = id
        · subst hx
          rw [hown, List.count_cons_self, List.getElem?_cons_succ]
        · rw [hother x hx, List.count_cons_of_ne (Ne.symm hx)]

/-! ## The rows of a table -/

namespace Snapshot

variable (s : Snapshot)

/-- The rows that have an identity, ascending. -/
def rowsOf (id : RowId) : List Nat := (List.range s.size).filter fun i => s.rowId? i = some id

/-- The rows that a list of identities takes, one after another: where it names an identity
    for the `n`-th time, the `n`-th row that has it. -/
def rowsTaken (after : List RowId) : List Nat :=
  (List.range after.length).filterMap fun k =>
    after[k]?.bind fun id => (s.rowsOf id)[(after.take k).count id]?

theorem mem_rowsOf {id : RowId} {i : Nat} :
    i ∈ s.rowsOf id ↔ i < s.size ∧ s.rowId? i = some id := by
  simp [rowsOf]

theorem rowsOf_increasing (id : RowId) : (s.rowsOf id).Pairwise (· < ·) :=
  List.pairwise_lt_range.filter _

/-- The rows of an identity are what a list of all rows with their identities holds for it. -/
theorem indicesFor_rowIds (id : RowId) :
    indicesFor id (s.rowIds.take s.size).zipIdx = s.rowsOf id := by
  have hindices : indicesFor id (s.rowIds.take s.size).zipIdx
      = (List.range (s.rowIds.take s.size).length).filter fun i =>
        (s.rowIds.take s.size)[i]?.any fun x => decide (x = id) := by
    rw [← filterMap_zipIdx]
    simp only [indicesFor, decide_eq_true_eq]
  refine List.Pairwise.eq_of_mem_iff (r := (· < ·)) ?_ (s.rowsOf_increasing id) (fun i => ?_)
  · rw [hindices]
    exact List.pairwise_lt_range.filter _
  · rw [hindices, mem_rowsOf]
    simp only [List.mem_filter, List.mem_range, List.length_take, List.getElem?_take, rowId?]
    constructor
    · rintro ⟨hi, hany⟩
      have hsize := (Nat.lt_min.mp hi).1
      rw [if_pos hsize] at hany
      obtain ⟨x, hx, heq⟩ := (Option.any_eq_true _ _).mp hany
      exact ⟨hsize, of_decide_eq_true heq ▸ hx⟩
    · rintro ⟨hi, hid⟩
      rw [if_pos hi, hid]
      exact ⟨Nat.lt_min.mpr ⟨hi, (List.getElem?_eq_some_iff.mp hid).1⟩, by simp⟩

theorem length_rowsOf (id : RowId) : (s.rowsOf id).length = (s.rowIds.take s.size).count id := by
  rw [← indicesFor_rowIds, indicesFor, List.length_filterMap_eq_countP]
  conv_rhs => rw [← List.zipIdx_map_fst 0 (s.rowIds.take s.size), List.count, List.countP_map]
  refine List.countP_congr fun entry _ => ?_
  simp

/-- The rows that identities take are those that the list of all rows gives them. -/
theorem rowsTaken_eq (after : List RowId) :
    s.rowsTaken after = takeIdentities (s.rowIds.take s.size).zipIdx after := by
  rw [takeIdentities_eq]
  simp only [rowsTaken, indicesFor_rowIds]

/-- Of each identity as many rows are taken, from the first on, as the list names it. -/
theorem mem_rowsTaken_iff {after : List RowId} {i : Nat} :
    i ∈ s.rowsTaken after ↔ ∃ id, i ∈ (s.rowsOf id).take (after.count id) := by
  rw [rowsTaken_eq, mem_takeIdentities_iff]
  simp only [indicesFor_rowIds]

end Snapshot

/-! ## The two lists of rows, and the result -/

/-- Rows are divided as identities match them. -/
structure Reconciliation.ByIdentity (r : Reconciliation) (before : Snapshot)
    (after : List RowId) : Prop where
  /-- Of each identity the first rows are kept: as many as there are, and no more than
      the identities that are left. -/
  kept : ∀ id, (r.kept.filter fun i => before.rowId? i = some id)
    = (before.rowsOf id).take (min ((before.rowIds.take before.size).count id) (after.count id))
  /-- A row without an identity is not kept. -/
  unidentified : ∀ i < before.size, before.rowId? i = none → i ∈ r.filteredOut
  divides : Divides before.size r.kept r.filteredOut
  /-- The result has the kept rows in the order in which they are taken. -/
  order : (before.rowsTaken after).Perm r.kept
  columns : r.result.columns = before.columns
  rows : r.result.rows.map some = (before.rowsTaken after).map fun i => before.rows[i]?
  rowIds : r.result.rowIds.map some
    = if before.rowIds.length = before.size then (before.rowsTaken after).map before.rowId? else []

/-- What is kept tells what is not. -/
theorem Divides.dropped_eq {n : Nat} {kept dropped dropped' : List Nat} (h : Divides n kept dropped)
    (h' : Divides n kept dropped') : dropped = dropped' := by
  have hmem : ∀ {d : List Nat}, Divides n kept d → ∀ i, i ∈ d ↔ i < n ∧ i ∉ kept := by
    intro d hd i
    rw [hd.cover i]
    exact ⟨fun hi => ⟨.inr hi, fun hkept => hd.disjoint hkept hi⟩, fun hi => hi.1.resolve_left hi.2⟩
  exact h.dropped_increasing.eq_of_mem_iff h'.dropped_increasing fun i =>
    (hmem h i).trans (hmem h' i).symm

section ByIdentity

variable (before : Snapshot) (after : List RowId) (name : String)

theorem mem_kept_iff {i : Nat} : i ∈ (reconcileByIdentity before after name).kept
    ↔ ∃ id, i ∈ (before.rowsOf id).take (after.count id) := by
  have hkept : (reconcileByIdentity before after name).kept
      = (List.range before.size).filter (before.rowsTaken after).contains := by
    rw [before.rowsTaken_eq]
    rfl
  rw [hkept, List.mem_filter, List.mem_range, List.contains_iff_mem, before.mem_rowsTaken_iff]
  refine ⟨fun h => h.2, fun ⟨id, h⟩ => ⟨?_, id, h⟩⟩
  exact (before.mem_rowsOf.mp (List.mem_of_mem_take h)).1

/-- The kept rows of an identity are its first ones. -/
theorem mem_kept_of_rowId {id : RowId} {i : Nat} (hid : before.rowId? i = some id) :
    i ∈ (reconcileByIdentity before after name).kept
      ↔ i ∈ (before.rowsOf id).take (after.count id) := by
  rw [mem_kept_iff]
  refine ⟨fun ⟨x, hx⟩ => ?_, fun h => ⟨id, h⟩⟩
  have hown := (before.mem_rowsOf.mp (List.mem_of_mem_take hx)).2
  rw [hid] at hown
  exact Option.some.inj hown ▸ hx

theorem reconcileByIdentity_byIdentity :
    (reconcileByIdentity before after name).ByIdentity before after := by
  obtain ⟨hnodup, hrange⟩ := identities_order before after
  have hdivides := reconcileByIdentity_divides before after name
  have htaken := before.rowsTaken_eq after
  rw [← htaken] at hnodup hrange
  constructor
  -- the rows kept of one identity are the first of its rows, as both lists ascend and have the
  -- same members
  case kept =>
    intro id
    rw [← before.length_rowsOf, Nat.min_comm, ← List.take_eq_take_min]
    refine List.Pairwise.eq_of_mem_iff (r := (· < ·)) (hdivides.kept_increasing.filter _)
      ((before.rowsOf_increasing id).take) (fun i => ?_)
    rw [List.mem_filter, decide_eq_true_iff]
    constructor
    · exact fun ⟨hi, hid⟩ => (mem_kept_of_rowId before after name hid).mp hi
    · intro hi
      have hid := (before.mem_rowsOf.mp (List.mem_of_mem_take hi)).2
      exact ⟨(mem_kept_of_rowId before after name hid).mpr hi, hid⟩
  case unidentified =>
    intro i hi hnone
    refine ((hdivides.cover i).mp hi).resolve_left fun hkept => ?_
    obtain ⟨id, hid⟩ := (mem_kept_iff before after name).mp hkept
    have hsome := (before.mem_rowsOf.mp (List.mem_of_mem_take hid)).2
    rw [hnone] at hsome
    exact nomatch hsome
  case divides => exact hdivides
  -- the order of consumption and that of the table have the same rows, each once
  case order =>
    refine (List.perm_ext_iff_of_nodup hnodup (hdivides.kept_increasing.imp Nat.ne_of_lt)).mpr ?_
    exact fun i => before.mem_rowsTaken_iff.trans (mem_kept_iff before after name).symm
  case columns => rfl
  case rows =>
    show ((takeIdentities _ after).filterMap fun i => before.rows[i]?).map some = _
    rw [← htaken]
    exact map_some_filterMap_getElem? hrange
  case rowIds =>
    show (if before.rowIds.length == before.size then
      (takeIdentities _ after).filterMap fun i => before.rowIds[i]? else []).map some = _
    rw [← htaken]
    by_cases hids : before.rowIds.length = before.size
    · rw [if_pos (beq_iff_eq.mpr hids), if_pos hids]
      exact map_some_filterMap_getElem? (hids ▸ hrange)
    · rw [if_neg (mt beq_iff_eq.mp hids), if_neg hids]
      rfl

end ByIdentity

/-- Matching by identity is exact: of the rows with an identity as many are kept, from the
    first on, as are left with it; rows without an identity are not kept; the kept rows and
    the others divide the table; and the result has the kept rows in the order in which the
    identities take them, with their identities where every row has one.  So which rows are
    kept does not depend on the order of the identities. -/
theorem reconcileByIdentity_exact (before : Snapshot) (after : List RowId) (name : String) :
    (reconcileByIdentity before after name).ByIdentity before after
      ∧ (reconcileByIdentity before after name).result.name = name
      ∧ ∀ after' : List RowId, after'.Perm after → ∀ name' : String,
        (reconcileByIdentity before after' name').kept = (reconcileByIdentity before after name).kept
          ∧ (reconcileByIdentity before after' name').filteredOut
            = (reconcileByIdentity before after name).filteredOut := by
  refine ⟨reconcileByIdentity_byIdentity before after name, rfl, fun after' hperm name' => ?_⟩
  have hdivides := reconcileByIdentity_divides before after name
  have hdivides' := reconcileByIdentity_divides before after' name'
  have hkept : (reconcileByIdentity before after' name').kept
      = (reconcileByIdentity before after name).kept := by
    refine hdivides'.kept_increasing.eq_of_mem_iff hdivides.kept_increasing fun i => ?_
    rw [mem_kept_iff, mem_kept_iff]
    exact exists_congr fun id => hperm.count_eq id ▸ Iff.rfl
  rw [hkept] at hdivides'
  exact ⟨hkept, hdivides'.dropped_eq hdivides⟩

/-! ## Matching by value -/

/-- Cells take a row that equals them, if there is one, and leave all others. -/
theorem takeEqual_cases (cells : List Json) (available : List (List Json)) :
    (takeEqual cells available = none ∧ ∀ row ∈ available, cellsEqual cells row = false)
      ∨ ∃ row rest, takeEqual cells available = some rest ∧ cellsEqual cells row = true
        ∧ available.Perm (row :: rest) := by
  induction available with
  | nil => exact .inl ⟨rfl, by simp⟩
  | cons first more ih =>
      unfold takeEqual
      by_cases hfirst : cellsEqual cells first = true
      · rw [if_pos hfirst]
        exact .inr ⟨first, more, rfl, hfirst, .refl _⟩
      · rw [if_neg hfirst]
        rcases ih with ⟨hnone, hall⟩ | ⟨row, rest, hsome, hrow, hperm⟩
        · refine .inl ⟨by rw [hnone]; rfl, List.forall_mem_cons.mpr ⟨?_, hall⟩⟩
          exact Bool.eq_false_of_not_eq_true hfirst
        · exact .inr ⟨row, first :: rest, by rw [hsome]; rfl, hrow,
            (hperm.cons first).trans (.swap ..)⟩

/-- A row finds one that equals it when more of these are there than rows before it take. -/
theorem takeEquals_getElem? {rows : List (List Json)}
    (hnames : ∀ row ∈ rows, ∀ cell ∈ row, cell.namesOnce = true) {i : Nat} {cells : List Json}
    (hi : rows[i]? = some cells) (available : List (List Json)) :
    (takeEquals available rows)[i]? = some (decide
      ((rows.take i).countP (cellsEqual · cells) < available.countP (cellsEqual cells ·))) := by
  induction rows generalizing available i with
  | nil => cases hi
  | cons first rest ih =>
      have hfirst := hnames first List.mem_cons_self
      have hrest := fun row hrow => hnames row (List.mem_cons_of_mem _ hrow)
      unfold takeEquals
      -- a row is taken out of the same class that it is counted in, since equality is an
      -- equivalence on cells whose names stand once
      rcases takeEqual_cases first available with ⟨hnone, hall⟩ | ⟨row, more, hsome, hrow, hperm⟩
      · rw [hnone]
        cases i with
        | zero =>
            obtain rfl := Option.some.inj hi
            have hcount : available.countP (cellsEqual first ·) = 0 := by
              rw [List.countP_eq_zero]
              exact fun row hrow => by simp [hall row hrow]
            rw [hcount]
            rfl
        | succ i =>
            have hcells := hrest cells (List.mem_of_getElem? hi)
            rw [List.getElem?_cons_succ, ih hrest hi, List.take_succ_cons, List.countP_cons]
            by_cases heq : cellsEqual first cells = true
            · -- rows that equal this one would have been there for the first as well
              have hcount : available.countP (cellsEqual cells ·) = 0 := by
                rw [List.countP_eq_zero]
                intro row hrow hcr
                have hfound := cellsEqual_trans heq hcr
                rw [hall row hrow] at hfound
                exact Bool.false_ne_true hfound
              rw [hcount]
              simp
            · rw [if_neg heq, Nat.add_zero]
      · rw [hsome]
        cases i with
        | zero =>
            obtain rfl := Option.some.inj hi
            have hcount : 0 < available.countP (cellsEqual first ·) :=
              List.countP_pos_iff.mpr ⟨row, hperm.mem_iff.mpr List.mem_cons_self, hrow⟩
            rw [List.take_zero, List.countP_nil, decide_eq_true hcount]
            rfl
        | succ i =>
            have hcells := hrest cells (List.mem_of_getElem? hi)
            have hiff : cellsEqual first cells = cellsEqual cells row := by
              rw [Bool.eq_iff_iff]
              refine ⟨fun h => cellsEqual_trans (cellsEqual_symm hfirst h) hrow, fun h => ?_⟩
              exact cellsEqual_symm hcells (cellsEqual_trans h (cellsEqual_symm hfirst hrow))
            rw [List.getElem?_cons_succ, ih hrest hi, List.take_succ_cons, List.countP_cons,
              hperm.countP_eq, List.countP_cons, hiff]
            simp

end QueryReplay
