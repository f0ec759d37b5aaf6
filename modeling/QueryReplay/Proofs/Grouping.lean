import QueryReplay.Proofs.GroupKeys
import QueryReplay.Proofs.Invariants
import QueryReplay.Proofs.RowIndices
import QueryReplay.Proofs.StageOrder

/-! # Groups — rows are divided by their key tuples

    The groups are built in one pass over the rows.  The route to what the pass leaves:

    * a row joins the group of its key or opens one behind the others
      (`addToGroup_cases`);
    * where keys tell tuples apart, each group has the rows of one tuple, tuples
      have one group each, and groups stand in the order of their first rows: one
      more row keeps that, whether it joins a group (`Grouped.join`) or opens one
      (`Grouped.openGroup`), so it holds of all rows (`groupRows_grouped`);
    * the groups that a step shows are those of the key tuples that its stage
      has computed (`Stage.group_run`). -/

namespace QueryReplay

open Sql (Descriptor GroupKey)

/-! ## One more row -/

/-- One row more at the end joins its group or opens one. -/
theorem groupRows_concat (tuples : List (List Json)) (values : List Json) :
    groupRows (tuples ++ [values]) = addToGroup values tuples.length (groupRows tuples) := by
  unfold groupRows
  rw [List.zipIdx_append, List.foldl_append, Nat.zero_add]
  rfl

/-- A row joins the first group of its key, else it opens one behind the others. -/
theorem addToGroup_cases (values : List Json) (row : Nat) (groups : List Group) :
    (∃ front g back, groups = front ++ g :: back ∧ g.key = groupKey values
      ∧ addToGroup values row groups = front ++ { g with rows := g.rows ++ [row] } :: back)
    ∨ (∀ g ∈ groups, g.key ≠ groupKey values)
      ∧ addToGroup values row groups = groups ++ [⟨groupKey values, values, [row]⟩] := by
  induction groups with
  | nil => exact .inr ⟨nofun, rfl⟩
  | cons g rest ih =>
      by_cases hkey : g.key = groupKey values
      · exact .inl ⟨[], g, rest, rfl, hkey, if_pos hkey⟩
      · have hadd : addToGroup values row (g :: rest) = g :: addToGroup values row rest :=
          if_neg hkey
        rcases ih with ⟨front, h, back, rfl, hkey', heq⟩ | ⟨hnone, heq⟩
        · exact .inl ⟨g :: front, h, back, rfl, hkey', hadd.trans (congrArg (g :: ·) heq)⟩
        · exact .inr ⟨List.forall_mem_cons.mpr ⟨hkey, hnone⟩, hadd.trans (congrArg (g :: ·) heq)⟩

/-! ## All rows -/

/-- Groups of the rows of each tuple, a group for each tuple. -/
structure Grouped (tuples : List (List Json)) (groups : List Group) : Prop where
  key : ∀ g ∈ groups, g.key = groupKey g.keyValues
  tuple : ∀ values, values ∈ groups.map Group.keyValues ↔ values ∈ tuples
  distinct : (groups.map Group.keyValues).Nodup
  rows : ∀ g ∈ groups, ∀ i, i ∈ g.rows ↔ tuples[i]? = some g.keyValues
  ascending : ∀ g ∈ groups, g.rows.Pairwise (· < ·)
  ordered : (groups.map fun g => g.rows.head?).Pairwise fun a b => ∀ i ∈ a, ∀ j ∈ b, i < j

namespace Grouped

variable {tuples : List (List Json)} {groups : List Group} {g : Group}

/-- The key of a group is that of a row. -/
theorem mem_tuples (h : Grouped tuples groups) (hg : g ∈ groups) : g.keyValues ∈ tuples :=
  (h.tuple _).mp (List.mem_map_of_mem hg)

theorem lt_length (h : Grouped tuples groups) (hg : g ∈ groups) {i : Nat} (hi : i ∈ g.rows) :
    i < tuples.length :=
  (List.getElem?_eq_some_iff.mp ((h.rows g hg i).mp hi)).1

/-- No group is empty. -/
theorem rows_ne_nil (h : Grouped tuples groups) (hg : g ∈ groups) : g.rows ≠ [] := by
  obtain ⟨i, hi, hvalues⟩ := List.mem_iff_getElem.mp (h.mem_tuples hg)
  exact List.ne_nil_of_mem ((h.rows g hg i).mpr (List.getElem?_eq_some_iff.mpr ⟨hi, hvalues⟩))

theorem nil : Grouped [] [] where
  key := nofun
  tuple := fun _ => Iff.rfl
  distinct := List.nodup_nil
  rows := nofun
  ascending := nofun
  ordered := List.Pairwise.nil

theorem getElem?_concat_iff {values values' : List Json} {i : Nat} :
    (tuples ++ [values])[i]? = some values'
      ↔ tuples[i]? = some values' ∨ i = tuples.length ∧ values = values' := by
  rw [List.getElem?_append]
  split
  · next hi => exact ⟨.inl, fun h => h.resolve_right fun h => absurd h.1 (Nat.ne_of_lt hi)⟩
  · next hi =>
      have hnone := List.getElem?_eq_none (Nat.le_of_not_lt hi)
      rw [hnone, List.getElem?_singleton]
      split
      · next hzero => simp; omega
      · next hzero => simp; omega

/-- A row of a tuple that has a group joins it. -/
theorem join {front back : List Group} (h : Grouped tuples (front ++ g :: back)) :
    Grouped (tuples ++ [g.keyValues])
      (front ++ { g with rows := g.rows ++ [tuples.length] } :: back) := by
  have hg : g ∈ front ++ g :: back := List.mem_append_right _ List.mem_cons_self
  have hsame : (front ++ { g with rows := g.rows ++ [tuples.length] } :: back).map Group.keyValues
      = (front ++ g :: back).map Group.keyValues := by
    rw [List.map_append, List.map_append]
    rfl
  -- the other groups are those before, and of other tuples
  have hcases : ∀ x ∈ front ++ { g with rows := g.rows ++ [tuples.length] } :: back,
      x = { g with rows := g.rows ++ [tuples.length] }
        ∨ x ∈ front ++ g :: back ∧ x.keyValues ≠ g.keyValues := by
    have hdistinct := h.distinct
    rw [List.map_append, List.map_cons, List.nodup_middle, List.nodup_cons,
      ← List.map_append] at hdistinct
    intro x hx
    rcases List.mem_append.mp hx with hx | hx
    · exact .inr ⟨List.mem_append_left _ hx, fun heq =>
        hdistinct.1 (heq ▸ List.mem_map_of_mem (List.mem_append_left _ hx))⟩
    · rcases List.mem_cons.mp hx with hx | hx
      · exact .inl hx
      · exact .inr ⟨List.mem_append_right _ (List.mem_cons_of_mem _ hx), fun heq =>
          hdistinct.1 (heq ▸ List.mem_map_of_mem (List.mem_append_right _ hx))⟩
  constructor
  case key =>
    intro x hx
    rcases hcases x hx with rfl | ⟨hx, -⟩
    · exact h.key g hg
    · exact h.key x hx
  case tuple =>
    intro values
    rw [hsame, h.tuple, List.mem_append, List.mem_singleton]
    exact ⟨.inl, fun hmem => hmem.elim id fun heq => heq ▸ h.mem_tuples hg⟩
  case distinct =>
    rw [hsame]
    exact h.distinct
  case rows =>
    intro x hx i
    rw [getElem?_concat_iff]
    rcases hcases x hx with rfl | ⟨hx, hother⟩
    · rw [List.mem_append, List.mem_singleton, h.rows g hg]
      exact or_congr_right ⟨fun hi => ⟨hi, rfl⟩, And.left⟩
    · rw [h.rows x hx]
      exact ⟨.inl, fun hi => hi.resolve_right fun hlast => hother hlast.2.symm⟩
  case ascending =>
    intro x hx
    rcases hcases x hx with rfl | ⟨hx, -⟩
    · refine List.pairwise_append.mpr ⟨h.ascending g hg, List.pairwise_singleton _ _, ?_⟩
      intro i hi j hj
      rw [List.mem_singleton.mp hj]
      exact h.lt_length hg hi
    · exact h.ascending x hx
  case ordered =>
    have hheads := h.ordered
    rw [List.map_append, List.map_cons] at hheads
    rw [List.map_append, List.map_cons, List.head?_append_of_ne_nil _ (h.rows_ne_nil hg)]
    exact hheads

/-- A row of a new tuple opens a group behind the others. -/
theorem openGroup (h : Grouped tuples groups) {values : List Json} (hnew : values ∉ tuples) :
    Grouped (tuples ++ [values]) (groups ++ [⟨groupKey values, values, [tuples.length]⟩]) := by
  -- a group of those before, none of which has these values, or the new one with the last row
  have hcases : ∀ x ∈ groups ++ [⟨groupKey values, values, [tuples.length]⟩],
      x ∈ groups ∨ x = ⟨groupKey values, values, [tuples.length]⟩ := by
    intro x hx
    exact (List.mem_append.mp hx).imp_right List.mem_singleton.mp
  constructor
  case key =>
    intro x hx
    rcases hcases x hx with hx | rfl
    · exact h.key x hx
    · rfl
  case tuple =>
    intro values'
    rw [List.map_append, List.mem_append, List.mem_append, h.tuple]
    rfl
  case distinct =>
    rw [List.map_append, List.nodup_append]
    refine ⟨h.distinct, List.nodup_singleton _, ?_⟩
    rintro values' hold _ hlast rfl
    obtain rfl := List.mem_singleton.mp hlast
    exact hnew ((h.tuple _).mp hold)
  case rows =>
    intro x hx i
    rw [getElem?_concat_iff]
    rcases hcases x hx with hx | rfl
    · rw [h.rows x hx]
      refine ⟨.inl, fun hi => hi.resolve_right fun hlast => ?_⟩
      exact hnew (hlast.2 ▸ h.mem_tuples hx)
    · rw [List.mem_singleton]
      refine ⟨fun hi => .inr ⟨hi, rfl⟩, fun hi => ?_⟩
      exact (hi.resolve_left fun hold => hnew (List.mem_of_getElem? hold)).1
  case ascending =>
    intro x hx
    rcases hcases x hx with hx | rfl
    · exact h.ascending x hx
    · exact List.pairwise_singleton _ _
  case ordered =>
    rw [List.map_append]
    refine List.pairwise_append.mpr ⟨h.ordered, List.pairwise_singleton _ _, ?_⟩
    intro a ha b hb i hi j hj
    obtain ⟨g, hg, rfl⟩ := List.mem_map.mp ha
    obtain rfl := List.mem_singleton.mp hb
    obtain rfl := Option.some.inj hj
    exact h.lt_length hg (List.mem_of_head? hi)

/-- One more row keeps the groups in order, if its key tells it from other tuples. -/
theorem concat (h : Grouped tuples groups) {values : List Json}
    (hkeys : ∀ values' ∈ tuples, groupKey values' = groupKey values → values' = values) :
    Grouped (tuples ++ [values]) (addToGroup values tuples.length groups) := by
  rcases addToGroup_cases values tuples.length groups with
    ⟨front, g, back, rfl, hkey, heq⟩ | ⟨hnone, heq⟩
  · have hg : g ∈ front ++ g :: back := List.mem_append_right _ List.mem_cons_self
    have htuple := hkeys _ (h.mem_tuples hg) ((h.key g hg).symm.trans hkey)
    rw [heq, ← htuple]
    exact h.join
  · rw [heq]
    refine h.openGroup fun hmem => ?_
    obtain ⟨g, hg, rfl⟩ := List.mem_map.mp ((h.tuple values).mpr hmem)
    exact hnone g hg (h.key g hg)

end Grouped

/-- The induction is on the rows, the last one first. -/
theorem groupRows_grouped {tuples : List (List Json)}
    (hkeys : ∀ us ∈ tuples, ∀ vs ∈ tuples, groupKey us = groupKey vs → us = vs) :
    Grouped tuples (groupRows tuples) := by
  induction tuples using List.reverseRecOn with
  | nil => exact .nil
  | append_singleton tuples values ih =>
      rw [groupRows_concat]
      refine (ih fun us hus vs hvs => ?_).concat fun us hus => ?_
      · exact hkeys us (List.mem_append_left _ hus) vs (List.mem_append_left _ hvs)
      · exact hkeys us (List.mem_append_left _ hus) values
          (List.mem_append_right _ List.mem_cons_self)

/-! ## A partition by tuples -/

/-- Scalar tuples in which doubles that differ are written differently. -/
structure ScalarTuples (tuples : List (List Json)) : Prop where
  scalar : ∀ values ∈ tuples, ∀ v ∈ values, v.isScalar = true
  doubles : ∀ us ∈ tuples, ∀ vs ∈ tuples, ∀ u ∈ us, ∀ v ∈ vs, u.DoublesDiffer v

/-- Rows divided by their tuples: two of them are in one group iff their tuples are the
    same value for value, each is in one group, and rows and groups stand in order. -/
structure PartitionedBy (tuples : List (List Json)) (groups : List Group) : Prop where
  together : ∀ i < tuples.length, ∀ j < tuples.length,
    (∃ g ∈ groups, i ∈ g.rows ∧ j ∈ g.rows) ↔ tuples[i]? = tuples[j]?
  once : (groups.flatMap Group.rows).Perm (List.range tuples.length)
  ascending : ∀ g ∈ groups, g.rows.Pairwise (· < ·)
  nonempty : ∀ g ∈ groups, g.rows ≠ []
  /-- Groups stand in the order of their first rows. -/
  ordered : groups.Pairwise fun g h => ∀ i ∈ g.rows.head?, ∀ j ∈ h.rows.head?, i < j
  values : ∀ g ∈ groups, ∀ i ∈ g.rows, tuples[i]? = some g.keyValues

theorem groupRows_partitionedBy {tuples : List (List Json)} (h : ScalarTuples tuples) :
    PartitionedBy tuples (groupRows tuples) := by
  have hgrouped : Grouped tuples (groupRows tuples) :=
    groupRows_grouped fun us hus vs hvs => groupKey_inj (h.scalar us hus) (h.scalar vs hvs)
      (h.doubles us hus vs hvs)
  obtain ⟨honce, hnonempty⟩ := groupRows_perm tuples
  constructor
  case together =>
    intro i hi j hj
    constructor
    · rintro ⟨g, hg, hig, hjg⟩
      rw [(hgrouped.rows g hg i).mp hig, (hgrouped.rows g hg j).mp hjg]
    · intro hsame
      obtain ⟨g, hg, htuple⟩ :=
        List.mem_map.mp ((hgrouped.tuple _).mpr (List.getElem_mem hi))
      have hgi : tuples[i]? = some g.keyValues :=
        List.getElem?_eq_some_iff.mpr ⟨hi, htuple.symm⟩
      exact ⟨g, hg, (hgrouped.rows g hg i).mpr hgi, (hgrouped.rows g hg j).mpr (hsame ▸ hgi)⟩
  case once => exact honce
  case ascending => exact hgrouped.ascending
  case nonempty => exact hnonempty
  case ordered => exact List.pairwise_map.mp hgrouped.ordered
  case values => exact fun g hg i hi => (hgrouped.rows g hg i).mp hi

/-! ## The groups that a stage shows -/

namespace Stage

open Dialogue

/-- A tuple for each row. -/
theorem keyTuples_ensures {asked : List (String × Reply)} {shown : List Step} (d : Descriptor)
    (current : Running) (keys : List GroupKey) : (keyTuples d current keys).Ensures
      (fun _ _ tuples => tuples.length = current.table.size) asked shown := by
  unfold keyTuples
  split
  · exact ensures_pure (List.length_map ..)
  · refine ensures_bind (ensures_fetch fun reply => ensures_pure ?_)
    rw [List.length_map, List.length_range]

/-- A step that shows the rows of a table in the groups of key tuples. -/
def ShowsGroups (input : Snapshot) (tuples : List (List Json)) (step : Step) : Prop :=
  ∃ g : GroupStep, step = .groupBy g ∧ g.input = input ∧ g.groups = groupRows tuples

/-- What the stage shows are the groups of the key tuples that it has computed. -/
theorem group_run {σ : Type} (engine : Engine σ) {d : Descriptor} {current : Running}
    {keys : List GroupKey} {labels : List String} {s : σ} {tuples : List (List Json)}
    (h : ((keyTuples d current keys).run engine s).result = .ok tuples) :
    ∀ step ∈ ((group d current keys labels).run engine s).steps,
      ShowsGroups current.table tuples step := by
  refine mem_steps_bind engine h (keyTuples_shows d current keys) ?_
  refine maintains_bind ((fetchKeyed_shows d keys .having "grouped" labels).maintains_silent
    fun asked result => ?_)
  have hshow : ∀ (asked' : List (String × Reply)) (g : GroupStep), g.input = current.table →
      g.groups = groupRows tuples →
      (showStep (.groupBy g) >>= fun _ => pure result : Dialogue Keyed).Maintains
        (fun _ shown => ∀ step ∈ shown, ShowsGroups current.table tuples step)
        (fun _ _ _ => True) asked' [] := by
    intro asked' g hinput hgroups
    refine maintains_bind (maintains_showStep ?_ (maintains_pure trivial))
    intro step hstep
    exact ⟨g, List.mem_singleton.mp hstep, hinput, hgroups⟩
  dsimp only
  split
  · exact maintains_bind (maintains_noteEvent (hshow _ _ rfl rfl))
  · exact hshow _ _ rfl rfl

end Stage

/-- Scalar key tuples partition the rows of every table, one tuple for each row: the
    groups tell integers from doubles and are not confused by bars, quotes or control
    characters in strings.  They are the groups that the stage shows, on every engine. -/
theorem groups_partition {tuples : List (List Json)} (h : ScalarTuples tuples) :
    PartitionedBy tuples (groupRows tuples)
      ∧ ∀ {σ : Type} (engine : Engine σ) (d : Descriptor) (current : Running)
          (keys : List GroupKey) (labels : List String) (s : σ),
          ((Stage.keyTuples d current keys).run engine s).result = .ok tuples →
          tuples.length = current.table.size
            ∧ (∀ step ∈ ((Stage.group d current keys labels).run engine s).steps,
                ∃ g : GroupStep, step = .groupBy g ∧ g.input = current.table
                  ∧ PartitionedBy tuples g.groups)
            ∧ ∀ result, ((Stage.group d current keys labels).run engine s).result = .ok result →
                ((Stage.group d current keys labels).run engine s).steps.map Step.kind
                  = ["GroupBy"] := by
  refine ⟨groupRows_partitionedBy h, fun engine d current keys labels s htuples => ⟨?_, ?_, ?_⟩⟩
  · have hlengths : (Stage.keyTuples d current keys).Ensures
        (fun _ _ tuples => tuples.length = current.table.size) [] [] :=
      Stage.keyTuples_ensures d current keys
    obtain ⟨exchanges, -, -, hlength⟩ := Dialogue.ensures_run engine _ hlengths htuples
    exact hlength
  · intro step hstep
    obtain ⟨g, rfl, hinput, hgroups⟩ := Stage.group_run engine htuples step hstep
    exact ⟨g, rfl, hinput, hgroups ▸ groupRows_partitionedBy h⟩
  · exact (Dialogue.shows_run engine (Stage.group_shows d current keys labels) s).2

/-- Texts with a bar in them, an integer and a double of one value: three tuples on four
    rows, grouped by two plain columns. -/
theorem groups_partition_barred :
    ∃ tuples : List (List Json), ∃ current : Running, ∃ keys : List GroupKey,
      tuples = [[.string "a|b", .int 1], [.string "a", .string "b|1"],
        [.string "a|b", .number (.float ⟨0x3FF0000000000000⟩)], [.string "a|b", .int 1]]
      ∧ (groupRows tuples).map Group.rows = [[0, 3], [1], [2]]
      ∧ PartitionedBy tuples (groupRows tuples)
      ∧ current.table.cellRows = tuples
      ∧ ∀ step ∈ ((Stage.group (Descriptor.extract "SELECT COUNT(*) FROM t GROUP BY x, y") current
          keys ["n"]).run (Engine.scripted none) [.ok ⟨["n", "x", "y"], []⟩]).steps,
          ∃ g : GroupStep, step = .groupBy g ∧ g.input = current.table
            ∧ PartitionedBy tuples g.groups := by
  have hscalar : ScalarTuples [[.string "a|b", .int 1], [.string "a", .string "b|1"],
      [.string "a|b", .number (.float ⟨0x3FF0000000000000⟩)], [.string "a|b", .int 1]] :=
    ⟨by decide, by simp [Json.DoublesDiffer, Json.floating?, Json.int]⟩
  obtain ⟨hparts, hstage⟩ := groups_partition hscalar
  refine ⟨_, ⟨.ofCells "t" ["x", "y"] [[.string "a|b", .int 1], [.string "a", .string "b|1"],
      [.string "a|b", .number (.float ⟨0x3FF0000000000000⟩)], [.string "a|b", .int 1]],
      .unprefixed⟩, [⟨.column ⟨none, "x"⟩, "x"⟩, ⟨.column ⟨none, "y"⟩, "y"⟩], rfl, ?_, hparts, rfl, ?_⟩
  · decide +kernel
  · exact (hstage _ _ _ _ _ _ rfl).2.1

end QueryReplay
