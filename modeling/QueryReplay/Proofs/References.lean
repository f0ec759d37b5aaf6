import QueryReplay.Proofs.Qualifiers

/-! # References — what a prefix changes

    Before the first join the columns of the running table bear no prefix, behind it
    those of the first table do.  The stages read a reference in either form, so a
    prefix should not change which column it reads.  The route:

    * without prefixes a reference reads the column of its bare name
      (`resolve?_unprefixed`), with one prefix the column behind it, and failing that
      again the one of its bare name (`resolve?_onlyPrefix`);
    * a prefix makes names longer, so the second way never ends at the column that was
      meant (`bare?_qualified_ne`);
    * so the answers are alike for references that are spelled like a column, and for
      those that no column has in any letter case, with or without the prefix
      (`prefixed_answers_iff`). -/

namespace QueryReplay

open Sql (ColumnRef)
open Text (Differ)

namespace Scope

/-- Without prefixes a reference reads the column of its bare name. -/
theorem resolve?_unprefixed (columns : List String) (ref : ColumnRef) :
    unprefixed.resolve? columns ref = bare? columns ref.column := by
  obtain ⟨_ | t, column⟩ := ref
  · rfl
  · exact resolve?_unknown rfl columns column

/-- With one prefix a reference to that table, or to none, reads the column behind it, and
    where there is none the column of the bare name. -/
theorem resolve?_onlyPrefix {q : String} (p : String) (columns : List String) {ref : ColumnRef}
    (h : ∀ t ∈ ref.table, Text.sameLetters q t = true) : (unprefixed.add q p).resolve? columns ref
      = if qualifiedName p ref.column ∈ columns then some (qualifiedName p ref.column)
        else bare? columns ref.column := by
  obtain ⟨_ | t, column⟩ := ref
  · have htaken : (unprefixed.add q p).resolve? columns ⟨none, column⟩
        = (underPrefix? columns column [p]).or (bare? columns column) := rfl
    rw [htaken]
    by_cases hmem : qualifiedName p column ∈ columns
    · simp [underPrefix?, hmem]
    · simp [underPrefix?, hmem]
  · refine resolve?_qualified ?_ columns column
    exact prefixFor?_of_mem (List.pairwise_singleton _ _) List.mem_cons_self (h t rfl)

end Scope

/-- Names that differ in letter case alone are of one length. -/
theorem Text.length_of_sameLetters {a b : String} (h : sameLetters a b = true) :
    a.toList.length = b.toList.length := by
  have hlower := congrArg List.length (sameLetters_iff.mp h)
  rwa [List.length_map, List.length_map] at hlower

namespace Scope

theorem sameLetters_of_bare? {columns : List String} {column c : String}
    (h : bare? columns column = some c) : Text.sameLetters c column = true := by
  unfold bare? at h
  split at h
  · rw [← Option.some.inj h]
    exact Text.sameLetters_self column
  · have hfound := List.find?_some h
    exact hfound

/-- No name reads both a column and, anywhere, that column behind a prefix: the one is
    longer than the other. -/
theorem bare?_qualified_ne (p : String) {columns : List String} {column c : String}
    (h : bare? columns column = some c) (columns' : List String) :
    bare? columns' column ≠ some (qualifiedName p c) := by
  intro h'
  have hlength := Text.length_of_sameLetters (sameLetters_of_bare? h)
  have hlength' := Text.length_of_sameLetters (sameLetters_of_bare? h')
  rw [toList_qualifiedName, List.length_append, String.toList_append, List.length_append,
    ← hlength] at hlength'
  have hunderscore : "_".toList.length = 1 := rfl
  omega

end Scope

/-- What a prefix before all columns of a table changes for a reference to that table, or
    to none: nothing when it is spelled like a column, or when no column has its name in
    any letter case, with or without the prefix, and in no other case.  A reference that is
    spelled like no column reads, behind the prefix, what has its bare name there. -/
theorem prefixed_answers_iff (s : Snapshot) {q : String} (p : String) {ref : ColumnRef}
    (h : ∀ t ∈ ref.table, Text.sameLetters q t = true) :
    ((Scope.unprefixed.add q p).resolve? (s.qualify p).columns ref
        = (Scope.unprefixed.resolve? s.columns ref).map (qualifiedName p)
      ↔ ref.column ∈ s.columns
        ∨ ∀ c ∈ s.columns, Differ c ref.column ∧ Differ (qualifiedName p c) ref.column)
    ∧ (ref.column ∈ s.columns → Scope.unprefixed.resolve? s.columns ref = some ref.column
        ∧ (Scope.unprefixed.add q p).resolve? (s.qualify p).columns ref
          = some (qualifiedName p ref.column))
    ∧ (ref.column ∉ s.columns → (Scope.unprefixed.add q p).resolve? (s.qualify p).columns ref
        = Scope.bare? (s.qualify p).columns ref.column) := by
  have hmem : qualifiedName p ref.column ∈ (s.qualify p).columns ↔ ref.column ∈ s.columns :=
    List.mem_map_of_injective (qualifiedName_injective p)
  rw [Scope.resolve?_onlyPrefix p _ h, Scope.resolve?_unprefixed]
  -- spelled as in the table, the column is found under both names; else it is only looked for in
  -- any case, where a prefixed name never answers for the bare one
  by_cases hcolumn : ref.column ∈ s.columns
  · have hbare : Scope.bare? s.columns ref.column = some ref.column :=
      if_pos (List.contains_iff_mem.mpr hcolumn)
    rw [if_pos (hmem.mpr hcolumn), hbare]
    exact ⟨iff_of_true rfl (.inl hcolumn), fun _ => ⟨rfl, rfl⟩, absurd hcolumn⟩
  · rw [if_neg (mt hmem.mp hcolumn)]
    refine ⟨?_, fun hcolumn' => absurd hcolumn' hcolumn, fun _ => rfl⟩
    have hnone : Scope.bare? (s.qualify p).columns ref.column = none
        ↔ ∀ c ∈ s.columns, Differ (qualifiedName p c) ref.column :=
      Scope.bare?_eq_none_iff.trans List.forall_mem_map
    rw [or_iff_right hcolumn]
    cases hbare : Scope.bare? s.columns ref.column with
    | none =>
        have hother := Scope.bare?_eq_none_iff.mp hbare
        rw [Option.map_none, hnone]
        exact forall₂_congr fun c hc => (and_iff_right (hother c hc)).symm
    | some c =>
        refine iff_of_false (Scope.bare?_qualified_ne p hbare _) fun hall => ?_
        have hread := Scope.bare?_eq_none_iff.mpr fun c hc => (hall c hc).1
        rw [hread] at hbare
        cases hbare

/-- The qualifier of a reference may be in any letter case. -/
theorem prefixed_answers_qualified :
    Text.sameLetters "e" "E" = true
      ∧ Scope.unprefixed.resolve? ["id", "name"] ⟨some "E", "name"⟩ = some "name"
      ∧ (Scope.unprefixed.add "e" "employees").resolve?
          (Snapshot.qualify { name := "employees", columns := ["id", "name"], rows := [] }
            "employees").columns ⟨some "E", "name"⟩ = some "employees_name" := by
  have hsame : Text.sameLetters "e" "E" = true := by decide
  have hqualifier : ∀ t ∈ (⟨some "E", "name"⟩ : ColumnRef).table, Text.sameLetters "e" t = true := by
    rintro t ⟨⟩
    exact hsame
  obtain ⟨-, hspelled, -⟩ := prefixed_answers_iff
    { name := "employees", columns := ["id", "name"], rows := [] } "employees" hqualifier
  obtain ⟨hplain, hprefixed⟩ := hspelled (by decide)
  exact ⟨hsame, hplain, hprefixed⟩

/-- In another letter case a column is read without its prefix and not behind it; and the
    column behind its prefix is read by a name that was no column before. -/
theorem prefixed_answers_apart :
    (Scope.unprefixed.resolve? ["name"] ⟨none, "NAME"⟩ = some "name"
      ∧ (Scope.unprefixed.add "e" "employees").resolve?
          (Snapshot.qualify { name := "employees", columns := ["name"], rows := [] }
            "employees").columns ⟨none, "NAME"⟩ = none)
    ∧ Scope.unprefixed.resolve? ["x"] ⟨none, "t_x"⟩ = none
      ∧ (Scope.unprefixed.add "t" "t").resolve?
          (Snapshot.qualify { name := "t", columns := ["x"], rows := [] } "t").columns
            ⟨none, "t_x"⟩ = some "t_x" := by
  decide +kernel

end QueryReplay
