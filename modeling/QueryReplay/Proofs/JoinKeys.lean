import QueryReplay.Proofs.Qualifiers
import QueryReplay.Proofs.RelationalJoin

/-! # Join keys — how the condition of a join is read

    Which rows a join pairs depends on its condition through the key columns alone, so two
    ways to write a condition are compared by these (`joinsAlike_iff`): two rows with a value
    in one column each tell key columns apart.  With this

    * the sides of an equality may be swapped unless both orders can be read, by different
      columns (`swapped_joinsAlike_iff`); the other order can be read when the left side is by
      the name of the joined table, which its alias hides, and some running column has the
      name of the right side;
    * the letter case of qualifiers never matters, but columns have to be spelled as their
      tables have them (`respelled_joinsAlike_iff`), else no rows meet. -/

namespace QueryReplay

open Sql (JoinClause ColumnRef Descriptor)
open Text (Differ)

/-! ## Joins that show the same -/

/-- Rules by which the same rows meet give the same pairs. -/
theorem joinPairs_congr (kind : Sql.JoinKind) (left right : List Row) {rule rule' : JoinRule}
    (h : ∀ l r, rule.meets l r = rule'.meets l r) :
    joinPairs kind rule left right = joinPairs kind rule' left right := by
  have hmeets : rule.meets = rule'.meets := funext fun l => funext (h l)
  unfold joinPairs partners
  rw [hmeets]

/-- Two joins show the same: the same pairs and rows left alone, and the same result. -/
structure JoinOutcome.Alike (o o' : JoinOutcome) : Prop where
  pairs : o.pairs = o'.pairs
  result : o.result = o'.result

/-- Two clauses join any two tables with the columns of these two alike. -/
def JoinsAlike (clause clause' : JoinClause) (scope : Scope) (left right : Snapshot)
    (pre name : String) : Prop :=
  ∀ left' right' : Snapshot, left'.columns = left.columns → right'.columns = right.columns →
    (joinTables left' scope right' clause pre name).Alike
      (joinTables left' scope right' clause' pre name)

/-- The result of a join is made of its pairs. -/
theorem joinTables_alike {clause clause' : JoinClause} {scope : Scope} {left right : Snapshot}
    {pre name : String} (h : (joinTables left scope right clause pre name).pairs
      = (joinTables left scope right clause' pre name).pairs) :
    (joinTables left scope right clause pre name).Alike
      (joinTables left scope right clause' pre name) := by
  refine ⟨h, ?_⟩
  have hpairs : joinPairs clause.kind (JoinRule.ofClause clause scope left right) left.rows right.rows
      = joinPairs clause'.kind (JoinRule.ofClause clause' scope left right) left.rows right.rows := h
  unfold joinTables
  dsimp only
  rw [hpairs]

/-- Key columns are looked for among the columns of the tables alone. -/
theorem JoinRule.keyColumns?_congr {left right left' right' : Snapshot}
    (hleft : left'.columns = left.columns) (hright : right'.columns = right.columns)
    (clause : JoinClause) (scope : Scope) :
    keyColumns? clause scope left' right' = keyColumns? clause scope left right := by
  unfold keyColumns? keys? readsRight
  rw [hleft, hright]

/-- Rows with a value in one column alone meet by no other key columns. -/
theorem keysMatch_lone_iff {x y x' y' : String} :
    KeysMatch (Json.Members.getD [(x, .bool true)] x') (Json.Members.getD [(y, .bool true)] y')
      ↔ x' = x ∧ y' = y := by
  have hread : ∀ {c c' : String}, Json.Members.getD [(c, .bool true)] c'
      = if c' = c then .bool true else .null := by
    intro c c'
    unfold Json.Members.getD Json.Members.get?
    rw [List.lookup_cons]
    by_cases h : c' = c
    · simp [h]
    · simp [h, beq_false_of_ne h]
  rw [hread, hread]
  by_cases hx : x' = x
  · by_cases hy : y' = y
    · simp [hx, hy, KeysMatch, Json.isNull, valuesEqual, Json.same]
    · simp [hx, hy, KeysMatch, Json.isNull]
  · simp [hx, KeysMatch, Json.isNull]

theorem JoinsAlike.symm {clause clause' : JoinClause} {scope : Scope} {left right : Snapshot}
    {pre name : String} (h : JoinsAlike clause clause' scope left right pre name) :
    JoinsAlike clause' clause scope left right pre name := fun left' right' hleft hright =>
  ⟨(h left' right' hleft hright).pairs.symm, (h left' right' hleft hright).result.symm⟩

/-- Key columns show in what they join: two rows with a value in these columns alone. -/
theorem JoinsAlike.keyColumns_eq {clause clause' : JoinClause} {scope : Scope}
    {left right : Snapshot} {pre name : String}
    (h : JoinsAlike clause clause' scope left right pre name) (hkind : clause'.kind ≠ .cross)
    {x y : String} (hkeys : JoinRule.keyColumns? clause scope left right = some (x, y)) :
    JoinRule.keyColumns? clause' scope left right = some (x, y) := by
  -- tables of one row each, which meet by these key columns only
  obtain ⟨left', hleft, hlone⟩ : ∃ t : Snapshot, t.columns = left.columns
      ∧ t.rows = [[(x, .bool true)]] := ⟨{ left with rows := [[(x, .bool true)]] }, rfl, rfl⟩
  obtain ⟨right', hright, hlone'⟩ : ∃ t : Snapshot, t.columns = right.columns
      ∧ t.rows = [[(y, .bool true)]] := ⟨{ right with rows := [[(y, .bool true)]] }, rfl, rfl⟩
  have hmatched : ∀ c : JoinClause, (0, 0) ∈ (joinTables left' scope right' c pre name).pairs.matched
      ↔ c.kind = .cross ∨ JoinRule.keyColumns? c scope left right = some (x, y) := by
    intro c
    rw [← JoinRule.keyColumns?_congr hleft hright]
    refine (mem_matched ..).trans ?_
    simp only [hlone, hlone', JoinRule.meets_ofClause_iff, List.getElem?_cons_zero,
      Option.some.injEq, exists_and_left, exists_eq_left', keysMatch_lone_iff]
    simp
  have hmet := (hmatched clause).mpr (.inr hkeys)
  rw [(h left' right' hleft hright).pairs] at hmet
  exact ((hmatched clause').mp hmet).resolve_left hkind

/-- Two conditions join alike exactly when they have the same key columns, or the join
    pairs any two rows anyway. -/
theorem joinsAlike_iff (clause clause' : JoinClause) (hkind : clause'.kind = clause.kind)
    (scope : Scope) (left right : Snapshot) (pre name : String) :
    JoinsAlike clause clause' scope left right pre name ↔ clause.kind = .cross
      ∨ JoinRule.keyColumns? clause scope left right
        = JoinRule.keyColumns? clause' scope left right := by
  constructor
  · intro halike
    by_cases hcross : clause.kind = .cross
    · exact .inl hcross
    · refine .inr (Option.ext fun keys => ?_)
      exact ⟨fun hkeys => halike.keyColumns_eq (hkind ▸ hcross) hkeys,
        fun hkeys => halike.symm.keyColumns_eq hcross hkeys⟩
  · intro hsame left' right' hleft hright
    refine joinTables_alike ?_
    show joinPairs clause.kind _ left'.rows right'.rows = joinPairs clause'.kind _ left'.rows right'.rows
    rw [hkind]
    refine joinPairs_congr _ _ _ fun l r => ?_
    rw [Bool.eq_iff_iff, JoinRule.meets_ofClause_iff, JoinRule.meets_ofClause_iff, hkind]
    rcases hsame with hcross | hkeys
    · rw [hcross]
      simp
    · rw [JoinRule.keyColumns?_congr hleft hright, JoinRule.keyColumns?_congr hleft hright, hkeys]

/-! ## The sides the other way round -/

/-- The clause with an equality of two columns, each behind a qualifier. -/
def Sql.JoinClause.onEqual (clause : JoinClause) (a b : String × String) : JoinClause :=
  { clause with equality := some (⟨some a.1, a.2⟩, ⟨some b.1, b.2⟩) }

/-- Either of two may stand first when they do not contradict each other. -/
theorem or_comm_iff {α : Type} {a b : Option α} :
    a.or b = b.or a ↔ ∀ u ∈ a, ∀ v ∈ b, u = v := by
  cases a <;> cases b <;> simp

namespace JoinRule

variable {clause : JoinClause} {scope : Scope} {left right : Snapshot}

theorem keyColumns?_onEqual (a b : String × String) :
    keyColumns? (clause.onEqual a b) scope left right
      = (keys? clause scope left right ⟨some a.1, a.2⟩ ⟨some b.1, b.2⟩).or
          (keys? clause scope left right ⟨some b.1, b.2⟩ ⟨some a.1, a.2⟩) := rfl

/-- Key columns are the column that the left side reads and the one that the right side
    names in the joined table. -/
theorem mem_keys?_iff {l r : ColumnRef} {keys : String × String} :
    keys ∈ keys? clause scope left right l r ↔ readsRight clause right r = true
      ∧ scope.resolve? left.columns l = some keys.1 ∧ r.column = keys.2 := by
  obtain ⟨x, y⟩ := keys
  unfold keys?
  split <;> simp_all

/-- A reference by what the clause calls its table reads the joined table if that has the
    column. -/
theorem readsRight_qualifier {q : String} (hq : Text.sameLetters q clause.qualifier = true)
    (y : String) : readsRight clause right ⟨some q, y⟩ = true ↔ y ∈ right.columns := by
  simp [readsRight, hq]

/-- So does one by the name of its table, even where the clause calls it otherwise. -/
theorem readsRight_other {q : String} (hq : Differ q clause.qualifier) (x : String) :
    readsRight clause right ⟨some q, x⟩ = true
      ↔ Text.sameLetters q clause.table = true ∧ x ∈ right.columns := by
  have hq : Text.sameLetters q clause.qualifier = false := hq
  simp [readsRight, hq]

end JoinRule

/-- The sides of an equality may be swapped, for all tables with these columns, unless both
    orders can be read, by different columns: the left side by the name of the joined table
    and the right side in the running one.  The former takes an alias, and the latter a
    qualifier that the running table knows or a column called as the right side is. -/
theorem swapped_joinsAlike_iff {clause : JoinClause} {q₁ q₂ : String}
    (hq₂ : Text.sameLetters q₂ clause.qualifier = true) (hq₁ : Differ q₁ q₂) (x y : String)
    (scope : Scope) (left right : Snapshot) (pre name : String) :
    (JoinsAlike (clause.onEqual (q₁, x) (q₂, y))
        (clause.onEqual (q₂, y) (q₁, x)) scope left right pre name
      ↔ clause.kind = .cross ∨ ∀ l l', scope.resolve? left.columns ⟨some q₁, x⟩ = some l →
        y ∈ right.columns → Text.sameLetters q₁ clause.table = true →
        scope.resolve? left.columns ⟨some q₂, y⟩ = some l' → x ∈ right.columns →
        l = l' ∧ y = x)
      ∧ ((clause.alias? = none ∨ Differ q₁ clause.table
          ∨ scope.prefixFor? q₂ = none ∧ ∀ c ∈ left.columns, Differ c y) →
        JoinsAlike (clause.onEqual (q₁, x) (q₂, y))
          (clause.onEqual (q₂, y) (q₁, x)) scope left right pre name) := by
  have hq₁ : Differ q₁ clause.qualifier := hq₁.of_sameLetters hq₂
  have hiff := joinsAlike_iff (clause.onEqual (q₁, x) (q₂, y))
    (clause.onEqual (q₂, y) (q₁, x)) rfl scope left right pre name
  rw [JoinRule.keyColumns?_onEqual, JoinRule.keyColumns?_onEqual, or_comm_iff] at hiff
  simp only [JoinRule.mem_keys?_iff, JoinRule.readsRight_qualifier hq₂,
    JoinRule.readsRight_other hq₁] at hiff
  -- each clause tries the two orders, so the keys agree unless both orders can be read in
  -- different ways
  refine ⟨hiff.trans (or_congr_right ⟨?_, ?_⟩), fun hcond => hiff.mpr (.inr ?_)⟩
  · intro h l l' hl hy htable hl' hx
    exact Prod.mk.inj (h (l, y) ⟨hy, hl, rfl⟩ (l', x) ⟨⟨htable, hx⟩, hl', rfl⟩)
  · rintro h ⟨l, _⟩ ⟨hy, hl, rfl⟩ ⟨l', _⟩ ⟨⟨htable, hx⟩, hl', rfl⟩
    exact Prod.ext_iff.mpr (h l l' hl hy htable hl' hx)
  · -- the other order cannot be read
    rintro keys - keys' ⟨⟨htable, -⟩, hl', -⟩
    rcases hcond with halias | hother | ⟨hunknown, hbare⟩
    · have hsame : clause.qualifier = clause.table := by
        rw [Sql.JoinClause.qualifier, halias]
        rfl
      exact absurd (hsame ▸ hq₁) (Text.not_differ_iff.mpr htable)
    · exact absurd hother (Text.not_differ_iff.mpr htable)
    · rw [Scope.resolve?_unknown hunknown, Scope.bare?_eq_none_iff.mpr hbare] at hl'
      exact nomatch hl'

/-- A table joined with itself, where no column behind its prefix is called `id`. -/
theorem swapped_joinsAlike_self : JoinsAlike
    (Sql.JoinClause.onEqual { kind := .inner, table := "staff", alias? := some "m", implicit := false }
      ("staff", "boss") ("m", "id"))
    (Sql.JoinClause.onEqual { kind := .inner, table := "staff", alias? := some "m", implicit := false }
      ("m", "id") ("staff", "boss"))
    ⟨[("staff", "staff")]⟩
    { name := "staff", columns := ["staff_id", "staff_boss"], rows := [] }
    { name := "staff", columns := ["id", "boss"], rows := [] } "m" "joined" :=
  (swapped_joinsAlike_iff (by decide) (by decide) "boss" "id" _ _ _ "m" "joined").2
    (.inr (.inr (by decide)))

/-- The pairs that each join of a statement finds when it comes first, in a table that was
    scanned and one that was read. -/
def pairsJoined (sql : String) (scanned right : Snapshot) : List (List (Nat × Nat)) :=
  (Descriptor.extract sql).joins.map fun clause =>
    (Stage.joined (.extract sql) ⟨scanned, .unprefixed⟩ clause right).pairs.matched

/-- Beside its column `id` the table has one called `staff_id`, as `id` is called behind the
    prefix.  With the sides swapped, `m.staff_id` is read in the running table and
    `staff.boss` in the joined one, and no rows are paired. -/
theorem swapped_joins_apart : ∃ staff : Snapshot, staff.columns = ["id", "boss", "staff_id"]
    ∧ pairsJoined "SELECT * FROM staff JOIN staff m ON staff.boss = m.staff_id" staff staff
      = [[(0, 1)]]
    ∧ pairsJoined "SELECT * FROM staff JOIN staff m ON m.staff_id = staff.boss" staff staff
      = [[]] := by
  refine ⟨{ name := "staff", columns := ["id", "boss", "staff_id"],
            rows := [[("id", .int 1), ("boss", .int 7), ("staff_id", .int 5)],
              [("id", .int 2), ("boss", .int 9), ("staff_id", .int 7)]] }, rfl, ?_, ?_⟩
  · decide +kernel
  · decide +kernel

/-! ## The letter case of names -/

theorem Text.sameLetters_congr_right {b c : String} (h : Text.sameLetters b c = true) (a : String) :
    Text.sameLetters a b = Text.sameLetters a c := by
  rw [Bool.eq_iff_iff]
  exact ⟨fun hab => Text.sameLetters_trans hab h,
    fun hac => Text.sameLetters_trans hac (Text.sameLetters_symm h)⟩

theorem Text.sameLetters_congr_left {b c : String} (h : Text.sameLetters b c = true) (a : String) :
    Text.sameLetters b a = Text.sameLetters c a := by
  rw [Text.sameLetters_comm b, Text.sameLetters_comm c, Text.sameLetters_congr_right h]

theorem Scope.prefixFor?_congr {q q' : String} (h : Text.sameLetters q q' = true) (s : Scope) :
    s.prefixFor? q' = s.prefixFor? q := by
  unfold prefixFor?
  simp only [Text.sameLetters_congr_right h]

theorem Scope.resolve?_congr {q q' : String} (h : Text.sameLetters q q' = true) (s : Scope)
    (columns : List String) (c : String) :
    s.resolve? columns ⟨some q', c⟩ = s.resolve? columns ⟨some q, c⟩ := by
  unfold resolve?
  dsimp only
  rw [Scope.prefixFor?_congr h]

namespace JoinRule

/-- The letter case of qualifiers does not matter. -/
theorem keys?_congr {clause : JoinClause} {q q' r r' : String} (hq : Text.sameLetters q q' = true)
    (hr : Text.sameLetters r r' = true) (scope : Scope) (left right : Snapshot) (x y : String) :
    keys? clause scope left right ⟨some q', x⟩ ⟨some r', y⟩
      = keys? clause scope left right ⟨some q, x⟩ ⟨some r, y⟩ := by
  have hread : readsRight clause right ⟨some r', y⟩ = readsRight clause right ⟨some r, y⟩ := by
    unfold readsRight
    dsimp only
    rw [Text.sameLetters_congr_left hr, Text.sameLetters_congr_left hr]
  unfold keys?
  rw [hread, Scope.resolve?_congr hq]

theorem keys?_of_unread {clause : JoinClause} {scope : Scope} {left : Snapshot} {l : ColumnRef}
    (h : scope.resolve? left.columns l = none) (right : Snapshot) (r : ColumnRef) :
    keys? clause scope left right l r = none := by
  unfold keys?
  rw [h, Option.map_none, ite_self]

end JoinRule

/-- The sides of a condition can be told apart: one is by a table of the running one, the
    other only by what the clause calls its own, and no running column has the name of
    either as it stands. -/
structure SidesApart (clause : JoinClause) (scope : Scope) (left : Snapshot) (p : String)
    (a b : String × String) : Prop where
  running : scope.prefixFor? a.1 = some p
  joined : Text.sameLetters b.1 clause.qualifier = true
  unknown : scope.prefixFor? b.1 = none
  bare : ∀ c ∈ left.columns, Differ c a.2 ∧ Differ c b.2

/-- Both columns are spelled as their tables have them. -/
def KeysSpelled (scope : Scope) (left right : Snapshot) (q x y : String) : Prop :=
  x ∈ (scope.columnsOf left.columns q).map Prod.snd ∧ y ∈ right.columns

namespace SidesApart

variable {clause : JoinClause} {scope : Scope} {left : Snapshot} {q₁ q₂ p x y : String}

/-- Respelled sides can be told apart as well. -/
theorem respell {q₁' q₂' x' y' : String} (h : SidesApart clause scope left p (q₁, x) (q₂, y))
    (hq₁ : Text.sameLetters q₁ q₁' = true) (hq₂ : Text.sameLetters q₂ q₂' = true)
    (hx : Text.sameLetters x x' = true) (hy : Text.sameLetters y y' = true) :
    SidesApart clause scope left p (q₁', x') (q₂', y') where
  running := (Scope.prefixFor?_congr hq₁ scope).trans h.running
  joined := Text.sameLetters_trans (Text.sameLetters_symm hq₂) h.joined
  unknown := (Scope.prefixFor?_congr hq₂ scope).trans h.unknown
  bare := fun c hc => ⟨(h.bare c hc).1.of_sameLetters hx, (h.bare c hc).2.of_sameLetters hy⟩

/-- The right side is not read in the running table, so the sides stand as they are meant. -/
theorem mem_keyColumns?_iff (h : SidesApart clause scope left p (q₁, x) (q₂, y)) (right : Snapshot)
    {keys : String × String} :
    keys ∈ JoinRule.keyColumns? (clause.onEqual (q₁, x) (q₂, y)) scope left right
      ↔ KeysSpelled scope left right q₁ x y ∧ keys = (qualifiedName p x, y) := by
  have hunread : scope.resolve? left.columns ⟨some q₂, y⟩ = none := by
    rw [Scope.resolve?_unknown h.unknown, Scope.bare?_eq_none_iff]
    exact fun c hc => (h.bare c hc).2
  have hbare : Scope.bare? left.columns x = none :=
    Scope.bare?_eq_none_iff.mpr fun c hc => (h.bare c hc).1
  obtain ⟨l, r⟩ := keys
  rw [JoinRule.keyColumns?_onEqual, JoinRule.keys?_of_unread hunread, Option.or_none,
    JoinRule.mem_keys?_iff, JoinRule.readsRight_qualifier h.joined,
    Scope.resolve?_qualified h.running, hbare, KeysSpelled, Scope.mem_columnsOf_iff h.running,
    Prod.mk.injEq]
  split
  · next hx => simp [hx, eq_comm]
  · next hx => simp [hx]

/-- Then the key columns are found exactly when they are spelled so. -/
theorem keyColumns?_eq_none_iff (h : SidesApart clause scope left p (q₁, x) (q₂, y))
    (right : Snapshot) :
    JoinRule.keyColumns? (clause.onEqual (q₁, x) (q₂, y)) scope left right = none
      ↔ ¬KeysSpelled scope left right q₁ x y := by
  simp [Option.eq_none_iff_forall_not_mem, h.mem_keyColumns?_iff]

/-- Two spellings have the same key columns when they are one, or neither finds any. -/
theorem keyColumns?_eq_iff {q₁' q₂' x' y' : String} (right : Snapshot)
    (h : SidesApart clause scope left p (q₁, x) (q₂, y))
    (h' : SidesApart clause scope left p (q₁', x') (q₂', y')) :
    JoinRule.keyColumns? (clause.onEqual (q₁, x) (q₂, y)) scope left right
        = JoinRule.keyColumns? (clause.onEqual (q₁', x') (q₂', y')) scope left right
      ↔ (KeysSpelled scope left right q₁ x y ∧ KeysSpelled scope left right q₁' x' y'
          ∧ x' = x ∧ y' = y)
        ∨ ¬KeysSpelled scope left right q₁ x y ∧ ¬KeysSpelled scope left right q₁' x' y' := by
  by_cases hspelled : KeysSpelled scope left right q₁ x y
  · have hkeys := Option.mem_def.mp ((h.mem_keyColumns?_iff right).mpr ⟨hspelled, rfl⟩)
    rw [hkeys, eq_comm, ← Option.mem_def, h'.mem_keyColumns?_iff right, Prod.mk.injEq,
      (qualifiedName_injective p).eq_iff, eq_comm (a := x), eq_comm (a := y)]
    simp [hspelled]
  · rw [(h.keyColumns?_eq_none_iff right).mpr hspelled, eq_comm, h'.keyColumns?_eq_none_iff right]
    simp [hspelled]

end SidesApart

/-- Without key columns no rows meet. -/
theorem matched_of_keysNotFound (clause : JoinClause) (hkind : clause.kind ≠ .cross) {scope : Scope}
    {left right : Snapshot} (h : JoinRule.keyColumns? clause scope left right = none)
    (pre name : String) : (joinTables left scope right clause pre name).pairs.matched = [] := by
  refine List.eq_nil_iff_forall_not_mem.mpr fun (i, j) hmem => ?_
  obtain ⟨l, r, -, -, hmeets⟩ := (mem_matched ..).mp hmem
  obtain hcross | ⟨_, _, hkeys, -⟩ := JoinRule.meets_ofClause_iff.mp hmeets
  · exact hkind hcross
  · exact nomatch h.symm.trans hkeys

/-- In a list of names that differ, a name has no other spelling. -/
theorem eq_of_sameLetters {names : List String} (h : names.Pairwise Differ) {a b : String}
    (ha : a ∈ names) (hb : b ∈ names) (hab : Text.sameLetters a b = true) : a = b := by
  by_contra hne
  exact Text.not_differ_iff.mpr hab (h.forall ha hb hne)

/-- What another letter case of a condition changes: nothing unless it has other key columns,
    and nothing when only qualifiers are respelled.  Where the sides can be told apart, a
    respelled column changes the join unless neither spelling is that of the tables; and from
    the spelling of tables whose columns differ by more than letter case, any other one
    leaves no rows that meet. -/
theorem respelled_joinsAlike_iff (clause : JoinClause) (scope : Scope) (left right : Snapshot)
    (pre name : String) {q₁ q₁' q₂ q₂' x x' y y' : String}
    (hq₁ : Text.sameLetters q₁ q₁' = true) (hq₂ : Text.sameLetters q₂ q₂' = true)
    (hx : Text.sameLetters x x' = true) (hy : Text.sameLetters y y' = true) :
    (JoinsAlike (clause.onEqual (q₁, x) (q₂, y))
        (clause.onEqual (q₁', x') (q₂', y')) scope left right pre name
      ↔ clause.kind = .cross
        ∨ JoinRule.keyColumns? (clause.onEqual (q₁, x) (q₂, y)) scope left right
          = JoinRule.keyColumns? (clause.onEqual (q₁', x') (q₂', y')) scope left right)
      ∧ (x' = x → y' = y → JoinsAlike (clause.onEqual (q₁, x) (q₂, y))
        (clause.onEqual (q₁', x') (q₂', y')) scope left right pre name)
      ∧ ∀ p, SidesApart clause scope left p (q₁, x) (q₂, y) →
        (JoinsAlike (clause.onEqual (q₁, x) (q₂, y))
            (clause.onEqual (q₁', x') (q₂', y')) scope left right pre name
          ↔ clause.kind = .cross ∨ (x' = x ∧ y' = y)
            ∨ ¬KeysSpelled scope left right q₁ x y ∧ ¬KeysSpelled scope left right q₁ x' y')
        ∧ (((scope.columnsOf left.columns q₁).map Prod.snd).Pairwise Differ →
          right.columns.Pairwise Differ → KeysSpelled scope left right q₁ x y →
          clause.kind ≠ .cross → ¬(x' = x ∧ y' = y) →
          ∀ left' right' : Snapshot, left'.columns = left.columns → right'.columns = right.columns →
            (joinTables left' scope right' (clause.onEqual (q₁', x') (q₂', y'))
              pre name).pairs.matched = []) := by
  have hiff := joinsAlike_iff (clause.onEqual (q₁, x) (q₂, y))
    (clause.onEqual (q₁', x') (q₂', y')) rfl scope left right pre name
  -- qualifiers are compared in any case, so only the spelling of the columns can matter
  refine ⟨hiff, ?_, fun p h => ?_⟩
  · rintro rfl rfl
    refine hiff.mpr (.inr ?_)
    rw [JoinRule.keyColumns?_onEqual, JoinRule.keyColumns?_onEqual,
      JoinRule.keys?_congr hq₁ hq₂, JoinRule.keys?_congr hq₂ hq₁]
  · have h' := h.respell hq₁ hq₂ hx hy
    have hown : KeysSpelled scope left right q₁' x' y' ↔ KeysSpelled scope left right q₁ x' y' := by
      unfold KeysSpelled Scope.columnsOf
      rw [Scope.prefixFor?_congr hq₁]
    refine ⟨hiff.trans (or_congr_right ?_), ?_⟩
    -- with the sides apart either spelling is found as it stands or nothing is
    · rw [h.keyColumns?_eq_iff right h', hown]
      constructor
      · exact fun hsame => hsame.imp (fun hsame => hsame.2.2) id
      · rintro (⟨rfl, rfl⟩ | hneither)
        · by_cases hspelled : KeysSpelled scope left right q₁ x' y'
          · exact .inl ⟨hspelled, hspelled, rfl, rfl⟩
          · exact .inr ⟨hspelled, hspelled⟩
        · exact .inr hneither
    · -- another spelling is in neither table, since no column has two
      intro hleft hright hspelled hkind hne left' right' hleft' hright'
      refine matched_of_keysNotFound (clause.onEqual _ _) hkind ?_ pre name
      rw [JoinRule.keyColumns?_congr hleft' hright', h'.keyColumns?_eq_none_iff, hown]
      intro hspelled'
      have hx := eq_of_sameLetters hleft hspelled.1 hspelled'.1 hx
      have hy := eq_of_sameLetters hright hspelled.2 hspelled'.2 hy
      exact hne ⟨hx.symm, hy.symm⟩

/-- Employees and their departments: the key of the departments in another letter case. -/
theorem respelled_joinsAlike_departments : ∃ (clause : JoinClause) (scope : Scope)
    (left right : Snapshot), left.columns = ["employees_name", "employees_dept_id"]
      ∧ right.columns = ["id", "name"]
      ∧ ¬JoinsAlike (clause.onEqual ("e", "dept_id") ("d", "id"))
        (clause.onEqual ("E", "dept_id") ("D", "ID")) scope left right
        "departments" "joined"
      ∧ ∀ left' right' : Snapshot, left'.columns = left.columns → right'.columns = right.columns →
        (joinTables left' scope right'
          (clause.onEqual ("E", "dept_id") ("D", "ID"))
          "departments" "joined").pairs.matched = [] := by
  obtain ⟨-, -, hcolumns⟩ := respelled_joinsAlike_iff
    { kind := .inner, table := "departments", alias? := some "d", implicit := false }
    ⟨[("e", "employees")]⟩
    { name := "employees", columns := ["employees_name", "employees_dept_id"], rows := [] }
    { name := "departments", columns := ["id", "name"], rows := [] } "departments" "joined"
    (by decide : Text.sameLetters "e" "E" = true) (by decide : Text.sameLetters "d" "D" = true)
    (by decide : Text.sameLetters "dept_id" "dept_id" = true)
    (by decide : Text.sameLetters "id" "ID" = true)
  have hspelled : KeysSpelled ⟨[("e", "employees")]⟩
      { name := "employees", columns := ["employees_name", "employees_dept_id"], rows := [] }
      { name := "departments", columns := ["id", "name"], rows := [] } "e" "dept_id" "id" :=
    ⟨by decide +kernel, by decide⟩
  obtain ⟨halike, hnone⟩ := hcolumns "employees"
    ⟨by decide, by decide, by decide, by decide +kernel⟩
  refine ⟨_, _, _, _, rfl, rfl, fun h => ?_,
    hnone (by decide +kernel) (by decide) hspelled nofun (by decide)⟩
  rcases halike.mp h with hcross | ⟨-, hsame⟩ | ⟨hmisspelled, -⟩
  · exact nomatch hcross
  · exact absurd hsame (by decide)
  · exact hmisspelled hspelled

/-- The column `id` of the departments is not found as `ID`, nor `dept_id` of the employees
    as `DEPT_ID`, and no rows are paired. -/
theorem respelled_joins_apart : ∃ employees departments : Snapshot,
    employees.columns = ["name", "dept_id"] ∧ departments.columns = ["id", "name"]
    ∧ pairsJoined "SELECT * FROM employees e JOIN departments d ON e.dept_id = d.id"
      employees departments = [[(0, 0)]]
    ∧ pairsJoined "SELECT * FROM employees e JOIN departments d ON e.dept_id = d.ID"
      employees departments = [[]]
    ∧ pairsJoined "SELECT * FROM employees e JOIN departments d ON e.DEPT_ID = d.id"
      employees departments = [[]] := by
  refine ⟨{ name := "employees", columns := ["name", "dept_id"],
            rows := [[("name", .string "Alice"), ("dept_id", .int 1)]] },
    { name := "departments", columns := ["id", "name"],
      rows := [[("id", .int 1), ("name", .string "Engineering")]] }, rfl, rfl, ?_, ?_, ?_⟩
  · decide +kernel
  · decide +kernel
  · decide +kernel

end QueryReplay
