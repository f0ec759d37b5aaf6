import QueryReplay.Proofs.JoinCells

/-! # The relational join — what a joined table holds

    The join goes through its two tables row by row and builds the rows of the result
    from pairs of indices.  The route to what these are:

    * the key columns of a clause are found in one order of its sides or the other
      (`keyColumns?`), and two rows meet when the join is a cross one or their keys
      match (`meets_ofClause_iff`);
    * the pairs that met and the sources of the rows are told by which rows meet
      (`mem_matched`, `mem_sources_iff`), and stand in the order of the indices;
    * under distinct names a row of the result is the cells of its sources beside each
      other (`rows_joinTables`).

    `joinTables_relational` puts them together. -/

namespace QueryReplay

open Sql (JoinClause)

/-! ## Keys -/

/-- Two key cells match: neither is null, and their values are equal. -/
def KeysMatch (a b : Json) : Prop :=
  a.isNull = false ∧ b.isNull = false ∧ valuesEqual a b = true

namespace JoinRule

/-- The key columns of a condition: they are looked for with its sides as they stand, and
    failing that with its sides the other way round. -/
def keyColumns? (clause : JoinClause) (scope : Scope) (left right : Snapshot) :
    Option (String × String) :=
  clause.equality.bind fun (a, b) =>
    (keys? clause scope left right a b).or (keys? clause scope left right b a)

theorem meets_equal_iff {x y : String} {l r : Row} :
    (equal x y).meets l r = true
      ↔ KeysMatch (Json.Members.getD l x) (Json.Members.getD r y) := by
  simp [meets, KeysMatch, and_assoc]

/-- A join that does not pair any two rows goes by its key columns, and without them no
    rows meet. -/
theorem ofClause_cases {clause : JoinClause} (h : clause.kind ≠ .cross) (scope : Scope)
    (left right : Snapshot) :
    (∃ x y, keyColumns? clause scope left right = some (x, y)
        ∧ ofClause clause scope left right = equal x y)
      ∨ keyColumns? clause scope left right = none
        ∧ ∀ l r, (ofClause clause scope left right).meets l r = false := by
  unfold ofClause keyColumns?
  split
  · next hcross => exact absurd hcross h
  · next hnone _ =>
      rw [hnone]
      exact .inr ⟨rfl, fun _ _ => rfl⟩
  · next a b hsome _ =>
      rw [hsome, Option.bind_some]
      dsimp only
      cases (keys? clause scope left right a b).or (keys? clause scope left right b a) with
      | none => exact .inr ⟨rfl, fun _ _ => rfl⟩
      | some keys => exact .inl ⟨keys.1, keys.2, rfl, rfl⟩

/-- When two rows meet. -/
theorem meets_ofClause_iff {clause : JoinClause} {scope : Scope} {left right : Snapshot}
    {l r : Row} : (ofClause clause scope left right).meets l r = true
      ↔ clause.kind = .cross ∨ ∃ x y, keyColumns? clause scope left right = some (x, y)
        ∧ KeysMatch (Json.Members.getD l x) (Json.Members.getD r y) := by
  by_cases hkind : clause.kind = .cross
  · have hrule : ofClause clause scope left right = everything := by
      unfold ofClause
      rw [hkind]
    rw [hrule]
    exact ⟨fun _ => .inl hkind, fun _ => rfl⟩
  · rw [or_iff_right hkind]
    rcases ofClause_cases hkind scope left right with ⟨x, y, hkeys, hrule⟩ | ⟨hkeys, hnever⟩
    · rw [hrule, hkeys, meets_equal_iff]
      constructor
      · exact fun hmatch => ⟨x, y, rfl, hmatch⟩
      · rintro ⟨x', y', heq, hmatch⟩
        obtain ⟨rfl, rfl⟩ := Prod.mk.inj (Option.some.inj heq)
        exact hmatch
    · rw [hkeys, hnever]
      simp

end JoinRule

/-! ## Rows -/

/-- Row `i` of the left table and row `j` of the right one meet: the join pairs any two
    rows, or its key columns are found and the keys of the two rows match. -/
def RowsMeet (clause : JoinClause) (scope : Scope) (left right : Snapshot) (i j : Nat) : Prop :=
  ∃ l r, left.rows[i]? = some l ∧ right.rows[j]? = some r ∧ (clause.kind = .cross
    ∨ ∃ x y, JoinRule.keyColumns? clause scope left right = some (x, y)
      ∧ KeysMatch (Json.Members.getD l x) (Json.Members.getD r y))

/-- Where all columns get names of their own, the join is that of the two tables: the pairs
    that met are those that meet, in the order of their indices; the rows come from these
    pairs and, as the kind of join wants, from the rows that meet none, left row by left row
    and the right rows without a left one last; and each holds the cells of its left row and
    behind them those of its right row, nulls for an absent one. -/
theorem joinTables_relational (left right : Snapshot) (pre : String)
    (h : (left.columns ++ right.columns.map (qualifiedName pre)).Nodup) (scope : Scope)
    (clause : JoinClause) (name : String) :
    (∀ i j, (i, j) ∈ (joinTables left scope right clause pre name).pairs.matched
        ↔ RowsMeet clause scope left right i j)
      ∧ (joinTables left scope right clause pre name).pairs.matched.Pairwise
          (fun p q => p.1 < q.1 ∨ p.1 = q.1 ∧ p.2 < q.2)
      ∧ (joinTables left scope right clause pre name).result.columns
        = left.columns ++ right.columns.map (qualifiedName pre)
      ∧ ∃ sources : List (Option Nat × Option Nat),
        (∀ p, p ∈ sources
            ↔ Contributes clause.kind (RowsMeet clause scope left right) left.size right.size p)
          ∧ sources.Pairwise Precedes
          ∧ (joinTables left scope right clause pre name).result.rows
            = sources.map (fun (i, j) => (left.columns ++ right.columns.map (qualifiedName pre)).zip
              (left.cellsOrNulls i ++ right.cellsOrNulls j))
          ∧ (joinTables left scope right clause pre name).result.cellRows
            = sources.map fun (i, j) => left.cellsOrNulls i ++ right.cellsOrNulls j := by
  have hmeet : RowsMeet clause scope left right = fun i j => ∃ l r, left.rows[i]? = some l
      ∧ right.rows[j]? = some r ∧ (JoinRule.ofClause clause scope left right).meets l r = true := by
    simp only [JoinRule.meets_ofClause_iff]
    rfl
  rw [hmeet]
  exact ⟨fun i j => mem_matched .., matched_increasing .., rfl,
    (joinTables left scope right clause pre name).pairs.sources,
    fun p => mem_sources_iff .., sources_increasing ..,
    rows_joinTables h scope clause name, cellRows_joinTables h scope clause name⟩

/-- A full join in which the first rows meet; the second employee has no department, and the
    second department no employee. -/
theorem joinTables_relational_full : ∃ (left right : Snapshot) (scope : Scope)
    (clause : JoinClause) (sources : List (Option Nat × Option Nat)), clause.kind = .full
      ∧ (∀ i j, RowsMeet clause scope left right i j ↔ i = 0 ∧ j = 0)
      ∧ (∀ p, p ∈ sources ↔ p = (some 0, some 0) ∨ p = (some 1, none) ∨ p = (none, some 1))
      ∧ (joinTables left scope right clause "d" "joined").result.columns
        = ["e_name", "e_dept", "d_id"]
      ∧ (joinTables left scope right clause "d" "joined").result.cellRows
        = sources.map (fun (i, j) => left.cellsOrNulls i ++ right.cellsOrNulls j) := by
  obtain ⟨hmatched, -, hcolumns, sources, hsources, -, -, hcells⟩ := joinTables_relational
    { name := "staff", columns := ["e_name", "e_dept"],
      rows := [[("e_name", .string "ada"), ("e_dept", .int 1)],
        [("e_name", .string "bob"), ("e_dept", .null)]] }
    { name := "departments", columns := ["id"], rows := [[("id", .int 1)], [("id", .int 2)]] }
    "d" (by decide) ⟨[("e", "e")]⟩
    { kind := .full, table := "departments", alias? := some "d", implicit := false,
      equality := some (⟨some "e", "dept"⟩, ⟨some "d", "id"⟩) } "joined"
  have hmeet := fun i j => (hmatched i j).symm.trans
    (iff_of_eq (congrArg ((i, j) ∈ ·) (by decide +kernel : _ = [(0, 0)])))
  refine ⟨_, _, _, _, sources, rfl, fun i j => (hmeet i j).trans (by simp),
    fun p => (hsources p).trans ?_, hcolumns, hcells⟩
  obtain ⟨_ | i, _ | j⟩ := p
  · simp [Contributes]
  · simp [Contributes, hmeet, Snapshot.size]
    omega
  · simp [Contributes, hmeet, Snapshot.size]
    omega
  · simp [Contributes, hmeet]

end QueryReplay
