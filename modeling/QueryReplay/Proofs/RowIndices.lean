import Mathlib.Data.List.Perm.Subperm
import Mathlib.Data.List.Sort
import QueryReplay.Relation.Groups
import QueryReplay.Relation.Join
import QueryReplay.Relation.Reconcile

/-! # Row indices — joins, conditions and groups

    Joins, conditions and groups are told by the indices of the rows.  The
    indices of the rows that satisfy a test are a part of `List.range`
    (`filterMap_zipIdx`), and with that

    * the pairs of a join are in order, and the rows that met none are the
      complements of its two sides (`mem_matched`, `unmatchedLeft_eq`,
      `unmatchedRight_eq`), which tells what the rows of the result come from
      (`mem_sources_iff`), in which order (`sources_increasing`) and how many they
      are (`sources_length`);
    * the rows that a condition keeps and those it drops divide the rows
      before it (`Divides`);
    * the groups of rows are a partition (`groupRows_perm`). -/

namespace QueryReplay

variable {α β : Type}

/-! ## Rows that satisfy a test -/

theorem zipIdx_increasing (l : List α) : l.zipIdx.Pairwise fun a b => a.2 < b.2 := by
  rw [← List.pairwise_map (f := Prod.snd) (R := (· < ·)), List.zipIdx_map_snd]
  exact List.pairwise_lt_range'

/-- The indices of the rows that satisfy a test are those of `range` that do. -/
theorem filterMap_zipIdx (p : α → Bool) (l : List α) :
    (l.zipIdx.filterMap fun (x, i) => if p x then some i else none)
      = (List.range l.length).filter fun i => l[i]?.any p := by
  refine List.Pairwise.eq_of_mem_iff (r := (· < ·)) ?_ ?_ (fun i => ?_)
  · refine List.pairwise_filterMap.mpr ?_
    refine (zipIdx_increasing l).imp ?_
    rintro ⟨x, i⟩ ⟨y, j⟩ hlt i' hi' j' hj'
    simp only [Option.ite_none_right_eq_some, Option.some.injEq] at hi' hj'
    rw [← hi'.2, ← hj'.2]
    exact hlt
  · exact List.pairwise_lt_range.filter _
  · simp only [List.mem_filterMap, List.mem_zipIdx_iff_getElem?, Prod.exists, List.mem_filter,
      List.mem_range, Option.ite_none_right_eq_some, Option.some.injEq]
    constructor
    · rintro ⟨x, j, hx, hp, rfl⟩
      exact ⟨List.getElem?_eq_some_iff.mp hx |>.1, by rw [hx]; exact hp⟩
    · rintro ⟨hlt, hp⟩
      rw [List.getElem?_eq_getElem hlt] at hp
      exact ⟨l[i], i, List.getElem?_eq_getElem hlt, hp, rfl⟩

/-- Entries at given positions, all of which are there. -/
theorem map_some_filterMap_getElem? {l : List α} {is : List Nat}
    (h : ∀ i ∈ is, i < l.length) :
    (is.filterMap fun i => l[i]?).map some = is.map fun i => l[i]? := by
  induction is with
  | nil => rfl
  | cons i rest ih =>
      have hi := List.getElem?_eq_getElem (h i List.mem_cons_self)
      rw [List.filterMap_cons, hi, List.map_cons, List.map_cons, hi,
        ih fun j hj => h j (List.mem_cons_of_mem i hj)]

theorem length_filterMap_getElem? {l : List α} {is : List Nat} (h : ∀ i ∈ is, i < l.length) :
    (is.filterMap fun i => l[i]?).length = is.length := by
  rw [← List.length_map some, map_some_filterMap_getElem? h, List.length_map]

theorem getElem?_filterMap_getElem? {l : List α} {is : List Nat} (h : ∀ i ∈ is, i < l.length)
    (n : Nat) : (is.filterMap fun i => l[i]?)[n]? = is[n]?.bind fun i => l[i]? := by
  have hn := congrArg (·[n]?) (map_some_filterMap_getElem? h)
  simp only [List.getElem?_map] at hn
  cases hi : is[n]? with
  | none =>
      rw [hi] at hn
      exact Option.map_eq_none_iff.mp hn
  | some i =>
      rw [hi, Option.map_some, Option.map_eq_some_iff] at hn
      obtain ⟨x, hx, hsome⟩ := hn
      exact hx.trans hsome

/-! ## Sets of indices -/

namespace IndexSet

/-- Increasing indices are the list of the set that they make. -/
theorem toList_insertAll {is : List Nat} (h : is.Pairwise (· < ·)) :
    (empty.insertAll is).toList = is := by
  refine List.Pairwise.eq_of_mem_iff (r := (· < ·)) (empty.insertAll is).increasing h (fun i => ?_)
  rw [← mem_def, mem_insertAll]
  exact ⟨fun hi => hi.resolve_right nofun, Or.inl⟩

end IndexSet

/-- The indices below `n` that are not in a list, ascending. -/
def complement (n : Nat) (is : List Nat) : List Nat := (List.range n).filter fun i => i ∉ is

/-! ## Joins -/

section Joins

variable (kind : Sql.JoinKind) (rule : JoinRule) (left right : List Row)

theorem mem_partners {l : Row} {j : Nat} :
    j ∈ partners rule right l ↔ ∃ r, right[j]? = some r ∧ rule.meets l r = true := by
  unfold partners
  rw [filterMap_zipIdx (rule.meets l), List.mem_filter, List.mem_range, Option.any_eq_true]
  constructor
  · rintro ⟨-, r, hr, hmeets⟩
    exact ⟨r, hr, hmeets⟩
  · rintro ⟨r, hr, hmeets⟩
    exact ⟨(List.getElem?_eq_some_iff.mp hr).1, r, hr, hmeets⟩

theorem partners_increasing (l : Row) : (partners rule right l).Pairwise (· < ·) := by
  unfold partners
  rw [filterMap_zipIdx (rule.meets l)]
  exact List.pairwise_lt_range.filter _

theorem matched_eq : (joinPairs kind rule left right).matched
    = left.zipIdx.flatMap fun (l, i) => (partners rule right l).map fun j => (i, j) := by
  unfold joinPairs
  exact List.flatMap_map ..

/-- A pair met when its rows do. -/
theorem mem_matched {i j : Nat} : (i, j) ∈ (joinPairs kind rule left right).matched
    ↔ ∃ l r, left[i]? = some l ∧ right[j]? = some r ∧ rule.meets l r = true := by
  rw [matched_eq, List.mem_flatMap]
  constructor
  · rintro ⟨⟨l, i'⟩, hl, hpair⟩
    obtain ⟨j', hj, heq⟩ := List.mem_map.mp hpair
    obtain ⟨rfl, rfl⟩ := Prod.mk.inj heq
    obtain ⟨r, hr, hmeets⟩ := (mem_partners rule right).mp hj
    exact ⟨l, r, List.mem_zipIdx_iff_getElem?.mp hl, hr, hmeets⟩
  · rintro ⟨l, r, hl, hr, hmeets⟩
    exact ⟨(l, i), List.mem_zipIdx_iff_getElem?.mpr hl,
      List.mem_map.mpr ⟨j, (mem_partners rule right).mpr ⟨r, hr, hmeets⟩, rfl⟩⟩

/-- The pairs that met are in order, the left index first. -/
theorem matched_increasing : (joinPairs kind rule left right).matched.Pairwise
    fun p q => p.1 < q.1 ∨ p.1 = q.1 ∧ p.2 < q.2 := by
  rw [matched_eq, List.pairwise_flatMap]
  constructor
  · -- the partners of one row are in order
    rintro ⟨l, i⟩ -
    refine List.pairwise_map.mpr ?_
    exact (partners_increasing rule right l).imp fun hlt => Or.inr ⟨rfl, hlt⟩
  · refine (zipIdx_increasing left).imp ?_
    rintro ⟨l, i⟩ ⟨l', i'⟩ hlt p hp q hq
    obtain ⟨j, -, rfl⟩ := List.mem_map.mp hp
    obtain ⟨j', -, rfl⟩ := List.mem_map.mp hq
    exact Or.inl hlt

/-- The left rows that met none are those in no pair. -/
theorem unmatchedLeft_eq : (joinPairs kind rule left right).unmatchedLeft
    = complement left.length ((joinPairs kind rule left right).matched.map Prod.fst) := by
  have hmet : (joinPairs kind rule left right).unmatchedLeft
      = left.zipIdx.filterMap fun (l, i) =>
          if (partners rule right l).isEmpty then some i else none := by
    unfold joinPairs
    exact List.filterMap_map ..
  rw [hmet, filterMap_zipIdx fun l => (partners rule right l).isEmpty]
  refine List.filter_congr (fun i hi => ?_)
  have hl := List.getElem?_eq_getElem (List.mem_range.mp hi)
  rw [hl, Option.any_some, Bool.eq_iff_iff, decide_eq_true_iff, List.isEmpty_iff,
    List.eq_nil_iff_forall_not_mem]
  constructor
  · rintro hnone hin
    obtain ⟨⟨i', j⟩, hpair, rfl⟩ := List.mem_map.mp hin
    obtain ⟨l, r, hl', hr, hmeets⟩ := (mem_matched ..).mp hpair
    obtain rfl := Option.some.inj (hl.symm.trans hl')
    exact hnone j ((mem_partners ..).mpr ⟨r, hr, hmeets⟩)
  · intro hout j hj
    obtain ⟨r, hr, hmeets⟩ := (mem_partners ..).mp hj
    exact hout (List.mem_map.mpr ⟨(i, j), (mem_matched ..).mpr ⟨_, r, hl, hr, hmeets⟩, rfl⟩)

/-- The right rows that met none are those in no pair. -/
theorem unmatchedRight_eq : (joinPairs kind rule left right).unmatchedRight
    = complement right.length ((joinPairs kind rule left right).matched.map Prod.snd) := by
  have hmet : (joinPairs kind rule left right).unmatchedRight
      = right.zipIdx.filterMap fun (r, j) =>
          if !left.any (rule.meets · r) then some j else none := by
    unfold joinPairs
    refine List.filterMap_congr (fun (r, j) _ => ?_)
    show (if left.any (rule.meets · r) then none else some j) = _
    cases hany : left.any (rule.meets · r) with
    | false => simp [hany]
    | true => simp [hany]
  rw [hmet, filterMap_zipIdx fun r => !left.any (rule.meets · r)]
  refine List.filter_congr (fun j hj => ?_)
  have hr := List.getElem?_eq_getElem (List.mem_range.mp hj)
  rw [hr, Option.any_some, Bool.eq_iff_iff, decide_eq_true_iff, Bool.not_eq_true', List.any_eq_false]
  constructor
  · rintro hnone hin
    obtain ⟨⟨i, j'⟩, hpair, rfl⟩ := List.mem_map.mp hin
    obtain ⟨l, r, hl, hr', hmeets⟩ := (mem_matched ..).mp hpair
    obtain rfl := Option.some.inj (hr.symm.trans hr')
    exact hnone l (List.mem_of_getElem? hl) hmeets
  · intro hout l hl hmeets
    obtain ⟨i, hi⟩ := List.mem_iff_getElem?.mp hl
    exact hout (List.mem_map.mpr ⟨(i, j), (mem_matched ..).mpr ⟨l, _, hi, hr, hmeets⟩, rfl⟩)

theorem sources_eq : (joinPairs kind rule left right).sources
    = (left.zipIdx.flatMap fun (l, i) =>
        if (partners rule right l).isEmpty then if kind.keepsLeft then [(some i, none)] else []
        else (partners rule right l).map fun j => (some i, some j))
      ++ if kind.keepsRight then
          (joinPairs kind rule left right).unmatchedRight.map fun j => (none, some j) else [] := by
  unfold joinPairs
  exact congrArg (· ++ _) (List.flatMap_map ..)

/-- Each pair that met has a row in the result, and so has each row that the kind of join
    keeps alone. -/
theorem sources_perm : (joinPairs kind rule left right).sources.Perm
    ((joinPairs kind rule left right).matched.map (Prod.map some some)
      ++ (if kind.keepsLeft then
          (joinPairs kind rule left right).unmatchedLeft.map fun i => (some i, none) else [])
      ++ if kind.keepsRight then
          (joinPairs kind rule left right).unmatchedRight.map fun j => (none, some j) else []) := by
  unfold joinPairs
  dsimp only
  refine List.Perm.append_right _ ?_
  generalize (left.zipIdx.map fun (l, i) => (i, partners rule right l)) = met
  induction met with
  | nil => cases kind.keepsLeft <;> exact .refl _
  | cons row met ih =>
      obtain ⟨i, js⟩ := row
      rw [List.flatMap_cons, List.flatMap_cons, List.map_append, List.append_assoc]
      cases js with
      | nil =>
          cases hkeeps : kind.keepsLeft with
          | false =>
              rw [hkeeps] at ih
              exact ih
          | true =>
              -- the row stands alone, behind those that met one
              rw [hkeeps] at ih
              exact (ih.cons (some i, none)).trans List.perm_middle.symm
      | cons j js =>
          have hpairs : ((j :: js).map fun j => (i, j)).map (Prod.map some some)
              = (j :: js).map fun j => (some i, some j) := List.map_map
          rw [hpairs]
          exact ih.append_left _

/-- The result has a row for each pair, and one for each row that met none on a side
    that the kind keeps. -/
theorem sources_length : (joinPairs kind rule left right).sources.length
    = (joinPairs kind rule left right).matched.length
      + (if kind.keepsLeft then (joinPairs kind rule left right).unmatchedLeft.length else 0)
      + (if kind.keepsRight then (joinPairs kind rule left right).unmatchedRight.length else 0) := by
  rw [(sources_perm kind rule left right).length_eq, List.length_append, List.length_append,
    List.length_map]
  cases kind.keepsLeft <;> cases kind.keepsRight <;> simp

/-- What the rows of a join come from, when `meet` tells which of `m` and `n` rows meet: any
    two that meet, and alone the rows that meet none, left ones in a left or full join and
    right ones in a right or full join. -/
def Contributes (kind : Sql.JoinKind) (meet : Nat → Nat → Prop) (m n : Nat) :
    Option Nat × Option Nat → Prop
  | (some i, some j) => meet i j
  | (some i, none) => (kind = .left ∨ kind = .full) ∧ i < m ∧ ∀ j, ¬meet i j
  | (none, some j) => (kind = .right ∨ kind = .full) ∧ j < n ∧ ∀ i, ¬meet i j
  | (none, none) => False

/-- The result has a row for everything that contributes one. -/
theorem mem_sources_iff {p : Option Nat × Option Nat} :
    p ∈ (joinPairs kind rule left right).sources ↔ Contributes kind (fun i j =>
      ∃ l r, left[i]? = some l ∧ right[j]? = some r ∧ rule.meets l r = true)
        left.length right.length p := by
  have hmatched := fun i j => mem_matched kind rule left right (i := i) (j := j)
  have halone : ∀ {n k : Nat} {is : List Nat}, k ∈ complement n is ↔ k < n ∧ k ∉ is := by
    intro n k is
    rw [complement, List.mem_filter, List.mem_range, decide_eq_true_iff]
  rw [(sources_perm kind rule left right).mem_iff, unmatchedLeft_eq, unmatchedRight_eq,
    List.mem_append, List.mem_append]
  obtain ⟨_ | i, _ | j⟩ := p
  · simp [Contributes]
  · simp only [Contributes, ← hmatched]
    cases kind <;> simp [Sql.JoinKind.keepsRight, halone]
  · simp only [Contributes, ← hmatched]
    cases kind <;> simp [Sql.JoinKind.keepsLeft, halone]
  · simp only [Contributes, ← hmatched]
    simp

/-- A row of the result comes from rows of the two tables, at least from one. -/
theorem mem_sources {a b : Option Nat} (h : (a, b) ∈ (joinPairs kind rule left right).sources) :
    (∀ i ∈ a, i < left.length) ∧ (∀ j ∈ b, j < right.length) ∧ (a ≠ none ∨ b ≠ none) := by
  have hcontributes := (mem_sources_iff kind rule left right).mp h
  cases a with
  | none =>
      cases b with
      | none => exact hcontributes.elim
      | some j => exact ⟨nofun, fun _ hk => Option.some.inj hk ▸ hcontributes.2.1, .inr nofun⟩
  | some i =>
      cases b with
      | none => exact ⟨fun _ hk => Option.some.inj hk ▸ hcontributes.2.1, nofun, .inl nofun⟩
      | some j =>
          obtain ⟨l, r, hl, hr, -⟩ := hcontributes
          exact ⟨fun _ hk => Option.some.inj hk ▸ (List.getElem?_eq_some_iff.mp hl).1,
            fun _ hk => Option.some.inj hk ▸ (List.getElem?_eq_some_iff.mp hr).1, .inl nofun⟩

/-- In the order of indices; an absent row stands last. -/
def Earlier : Option Nat → Option Nat → Prop
  | some i, some j => i < j
  | some _, none => True
  | none, _ => False

/-- By the left row first, then by the right one. -/
def Precedes (p q : Option Nat × Option Nat) : Prop :=
  Earlier p.1 q.1 ∨ p.1 = q.1 ∧ Earlier p.2 q.2

theorem Precedes.ne {p q : Option Nat × Option Nat} (h : Precedes p q) : p ≠ q := by
  have hirrefl : ∀ a, ¬Earlier a a := fun
    | none => id
    | some i => Nat.lt_irrefl i
  rintro rfl
  rcases h with h | ⟨-, h⟩
  · exact hirrefl _ h
  · exact hirrefl _ h

/-- The rows of the result stand in the order of the rows they come from. -/
theorem sources_increasing : (joinPairs kind rule left right).sources.Pairwise Precedes := by
  have hfirst : ∀ (l : Row) (i : Nat), ∀ p ∈ (if (partners rule right l).isEmpty then
      if kind.keepsLeft then [(some i, none)] else []
      else (partners rule right l).map fun j => (some i, some j)), p.1 = some i := by
    intro l i p hp
    split at hp
    · split at hp
      · rw [List.mem_singleton.mp hp]
      · exact nomatch hp
    · obtain ⟨j, -, rfl⟩ := List.mem_map.mp hp
      rfl
  rw [sources_eq]
  refine List.pairwise_append.mpr ⟨?_, ?_, ?_⟩
  · -- rows of one left row are in the order of its partners
    refine List.pairwise_flatMap.mpr ⟨?_, (zipIdx_increasing left).imp ?_⟩
    · rintro ⟨l, i⟩ -
      dsimp only
      split
      · split
        · exact List.pairwise_singleton _ _
        · exact .nil
      · refine List.pairwise_map.mpr ((partners_increasing rule right l).imp ?_)
        exact fun hlt => .inr ⟨rfl, hlt⟩
    · rintro ⟨l, i⟩ ⟨l', i'⟩ hlt p hp q hq
      refine .inl ?_
      rw [hfirst l i p hp, hfirst l' i' q hq]
      exact hlt
  · split
    · rw [unmatchedRight_eq]
      refine List.pairwise_map.mpr ((List.pairwise_lt_range.filter _).imp ?_)
      exact fun hlt => .inr ⟨rfl, hlt⟩
    · exact .nil
  · -- a row of the first part has a left side, one of the second has none
    intro p hp q hq
    split at hq
    · obtain ⟨j, -, rfl⟩ := List.mem_map.mp hq
      obtain ⟨⟨l, i⟩, -, hrow⟩ := List.mem_flatMap.mp hp
      refine .inl ?_
      rw [hfirst l i p hrow]
      exact trivial
    · exact nomatch hq

/-- No two rows of the result come from the same rows. -/
theorem sources_nodup : (joinPairs kind rule left right).sources.Nodup :=
  (sources_increasing kind rule left right).imp Precedes.ne

end Joins

/-! ## Conditions -/

/-- Two lists of indices divide those below `n`: both ascend, none is in both, and
    together they are all. -/
structure Divides (n : Nat) (kept dropped : List Nat) : Prop where
  kept_increasing : kept.Pairwise (· < ·)
  dropped_increasing : dropped.Pairwise (· < ·)
  disjoint : kept.Disjoint dropped
  cover : ∀ i, i < n ↔ i ∈ kept ∨ i ∈ dropped

/-- A test divides the indices. -/
theorem divides_filter (n : Nat) (p : Nat → Bool) :
    Divides n ((List.range n).filter p) ((List.range n).filter fun i => !p i) where
  kept_increasing := List.pairwise_lt_range.filter _
  dropped_increasing := List.pairwise_lt_range.filter _
  disjoint := by
    intro i hi hi'
    have hp := (List.mem_filter.mp hi).2
    have hnp := (List.mem_filter.mp hi').2
    rw [hp] at hnp
    exact nomatch hnp
  cover := by
    intro i
    rw [List.mem_filter, List.mem_filter, List.mem_range]
    cases p i <;> simp

theorem indicesOf_eq (b : Bool) (flags : List Bool) :
    indicesOf b flags = (List.range flags.length).filter fun i => flags[i]?.any (· == b) := by
  unfold indicesOf
  rw [← filterMap_zipIdx]
  refine List.filterMap_congr (fun (flag, i) _ => ?_)
  simp

theorem mem_indicesOf {b : Bool} {flags : List Bool} {i : Nat} :
    i ∈ indicesOf b flags ↔ flags[i]? = some b := by
  rw [indicesOf_eq, List.mem_filter, List.mem_range]
  constructor
  · rintro ⟨hi, hflag⟩
    rw [List.getElem?_eq_getElem hi, Option.any_some, beq_iff_eq] at hflag
    rw [List.getElem?_eq_getElem hi, hflag]
  · intro hflag
    exact ⟨(List.getElem?_eq_some_iff.mp hflag).1, by rw [hflag]; exact beq_self_eq_true b⟩

/-- What a list of truth values holds and what it does not divide its indices. -/
theorem divides_indicesOf (flags : List Bool) :
    Divides flags.length (indicesOf true flags) (indicesOf false flags) := by
  have hother : (List.range flags.length).filter (fun i => flags[i]?.any (· == false))
      = (List.range flags.length).filter fun i => !flags[i]?.any (· == true) := by
    refine List.filter_congr (fun i hi => ?_)
    rw [List.getElem?_eq_getElem (List.mem_range.mp hi), Option.any_some, Option.any_some]
    simp
  rw [indicesOf_eq, indicesOf_eq, hother]
  exact divides_filter _ _

theorem takeEquals_length (available rows : List (List Json)) :
    (takeEquals available rows).length = rows.length := by
  induction rows generalizing available with
  | nil => rfl
  | cons cells rest ih =>
      unfold takeEquals
      split
      · exact congrArg (· + 1) (ih _)
      · exact congrArg (· + 1) (ih _)

theorem takeIdentity_perm {id : RowId} {available rest : List (RowId × Nat)} {i : Nat}
    (h : takeIdentity id available = some (i, rest)) : available.Perm ((id, i) :: rest) := by
  induction available generalizing rest with
  | nil => exact nomatch h
  | cons entry more ih =>
      obtain ⟨x, j⟩ := entry
      unfold takeIdentity at h
      split at h
      · next heq =>
          obtain ⟨rfl, rfl⟩ := Prod.mk.inj (Option.some.inj h)
          rw [heq]
      · obtain ⟨⟨i', rest'⟩, hmore, heq⟩ := Option.map_eq_some_iff.mp h
        obtain ⟨rfl, rfl⟩ := Prod.mk.inj heq
        exact ((ih hmore).cons _).trans (.swap ..)

/-- Each identity takes an index of its own. -/
theorem takeIdentities_subperm (available : List (RowId × Nat)) (ids : List RowId) :
    (takeIdentities available ids).Subperm (available.map Prod.snd) := by
  induction ids generalizing available with
  | nil => exact List.nil_subperm
  | cons id rest ih =>
      unfold takeIdentities
      split
      · next i available' htake =>
          have hperm := (takeIdentity_perm htake).map Prod.snd
          exact ((List.subperm_cons i).mpr (ih available')).trans hperm.symm.subperm
      · exact ih available

/-- The rows that identities keep, in the order in which they are found: each once,
    and all of them rows of the table. -/
theorem identities_order (before : Snapshot) (after : List RowId) :
    (takeIdentities (before.rowIds.take before.size).zipIdx after).Nodup
      ∧ ∀ i ∈ takeIdentities (before.rowIds.take before.size).zipIdx after, i < before.size := by
  have hsub := takeIdentities_subperm (before.rowIds.take before.size).zipIdx after
  rw [List.zipIdx_map_snd] at hsub
  obtain ⟨order, hperm, hfront⟩ := hsub
  refine ⟨hperm.nodup_iff.mp (hfront.nodup List.nodup_range'), fun i hi => ?_⟩
  have hin := (List.mem_range'_1.mp (hfront.subset (hperm.mem_iff.mpr hi))).2
  rw [List.length_take] at hin
  omega

theorem reconcileByIdentity_divides (before : Snapshot) (after : List RowId) (name : String) :
    Divides before.size (reconcileByIdentity before after name).kept
      (reconcileByIdentity before after name).filteredOut :=
  divides_filter _ _

/-- The result has a row for each that is kept. -/
theorem reconcileByIdentity_size (before : Snapshot) (after : List RowId) (name : String) :
    (reconcileByIdentity before after name).result.size
      = (reconcileByIdentity before after name).kept.length := by
  obtain ⟨hnodup, hrange⟩ := identities_order before after
  unfold reconcileByIdentity
  generalize takeIdentities (before.rowIds.take before.size).zipIdx after = order at hnodup hrange
  have hkept : ((List.range before.size).filter order.contains).Perm order := by
    refine (List.perm_ext_iff_of_nodup (List.nodup_range.filter _) hnodup).mpr (fun i => ?_)
    rw [List.mem_filter, List.mem_range, List.contains_iff_mem]
    exact ⟨fun h => h.2, fun h => ⟨hrange i h, h⟩⟩
  exact (length_filterMap_getElem? hrange).trans hkept.length_eq.symm

theorem reconcileByValue_divides (before after : Snapshot) (name : String) :
    Divides before.size (reconcileByValue before after name).kept
      (reconcileByValue before after name).filteredOut := by
  have h := divides_indicesOf (takeEquals after.cellRows before.cellRows)
  rw [takeEquals_length, Snapshot.cellRows, List.length_map] at h
  exact h

/-! ## Groups -/

/-- A row is put into one group, and no group is left empty. -/
theorem addToGroup_rows (values : List Json) (row : Nat) (groups : List Group) :
    ((addToGroup values row groups).flatMap Group.rows).Perm (row :: groups.flatMap Group.rows)
      ∧ ((∀ g ∈ groups, g.rows ≠ []) → ∀ g ∈ addToGroup values row groups, g.rows ≠ []) := by
  induction groups with
  | nil => exact ⟨.refl _, by simp [addToGroup]⟩
  | cons g rest ih =>
      unfold addToGroup
      split
      · constructor
        · simp only [List.flatMap_cons]
          rw [List.append_assoc]
          exact List.perm_middle
        · simp
      · constructor
        · simp only [List.flatMap_cons]
          exact (ih.1.append_left _).trans List.perm_middle
        · simp
          exact fun hg hrest => ⟨hg, ih.2 hrest⟩

/-- The rows of the groups are the rows of the table, each in one group. -/
theorem groupRows_perm (tuples : List (List Json)) :
    ((groupRows tuples).flatMap Group.rows).Perm (List.range tuples.length)
      ∧ ∀ g ∈ groupRows tuples, g.rows ≠ [] := by
  have hfold : ∀ (rows : List (List Json × Nat)) (groups : List Group),
      (∀ g ∈ groups, g.rows ≠ []) →
      ((rows.foldl (fun groups entry => addToGroup entry.1 entry.2 groups) groups).flatMap
          Group.rows).Perm (groups.flatMap Group.rows ++ rows.map Prod.snd)
        ∧ ∀ g ∈ rows.foldl (fun groups entry => addToGroup entry.1 entry.2 groups) groups,
          g.rows ≠ [] := by
    intro rows
    induction rows with
    | nil =>
        intro groups hne
        exact ⟨by simp, hne⟩
    | cons entry rest ih =>
        intro groups hne
        obtain ⟨values, row⟩ := entry
        obtain ⟨hperm, hkeep⟩ := addToGroup_rows values row groups
        obtain ⟨hrest, hall⟩ := ih (addToGroup values row groups) (hkeep hne)
        refine ⟨hrest.trans ?_, hall⟩
        exact (hperm.append_right _).trans List.perm_middle.symm
  obtain ⟨hperm, hne⟩ := hfold tuples.zipIdx [] (List.forall_mem_nil _)
  rw [List.zipIdx_map_snd, List.flatMap_nil, List.nil_append, ← List.range_eq_range'] at hperm
  exact ⟨hperm, hne⟩

end QueryReplay
