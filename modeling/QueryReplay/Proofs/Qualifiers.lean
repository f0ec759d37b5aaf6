import QueryReplay.Proofs.JoinCells

/-! # Qualifiers — the columns that a qualified name reaches

    A column of a joined table is known by its text alone: behind the prefix of its table
    stands its own name.  The route to what a qualifier reaches:

    * what a prefix leaves of a name is decided by the text (`withoutPrefix?_eq_some_iff`),
      and where the qualifiers differ each has the prefix of its own table
      (`prefixFor?_of_mem`);
    * the columns of the running table are those of all tables behind their prefixes
      (`joinedAll_tables`), so a qualifier reaches its own columns and every other one that
      begins with its prefix (`columnsOf_columnsBehind_iff`), and a name that its table does
      not have reads what stands there behind the prefix or as it is
      (`resolve?_other_iff`);
    * `qualifier_reaches_iff` tells when a qualifier reaches its own columns only, which is
      so when no prefix goes on behind another one, and not always
      (`qualifier_reaches_continued`). -/

namespace QueryReplay
open Sql (Descriptor JoinClause ColumnRef)

/-! ## Names up to letter case -/

namespace Text

theorem sameLetters_symm {a b : String} (h : sameLetters a b = true) : sameLetters b a = true :=
  sameLetters_comm a b ▸ h

theorem sameLetters_trans {a b c : String} (hab : sameLetters a b = true)
    (hbc : sameLetters b c = true) : sameLetters a c = true :=
  sameLetters_iff.mpr ((sameLetters_iff.mp hab).trans (sameLetters_iff.mp hbc))

/-- Two names differ, and not in the case of letters alone. -/
def Differ (a b : String) : Prop := sameLetters a b = false

instance (a b : String) : Decidable (Differ a b) := inferInstanceAs (Decidable (_ = _))

instance : Std.Symm Differ where
  symm a b h := (sameLetters_comm b a).trans h

theorem not_differ_iff {a b : String} : ¬Differ a b ↔ sameLetters a b = true :=
  Bool.not_eq_false _ ▸ Iff.rfl

theorem Differ.of_sameLetters {a b c : String} (h : Differ a b) (hbc : sameLetters b c = true) :
    Differ a c := by
  by_contra hac
  have hsame := sameLetters_trans (not_differ_iff.mp hac) (sameLetters_symm hbc)
  exact not_differ_iff.mpr hsame h

end Text

open Text (Differ)

/-! ## Reading a qualified name -/

namespace Scope

/-- What stands behind a prefix is the name of the column in its own table. -/
theorem withoutPrefix?_eq_some_iff {pre column own : String} :
    withoutPrefix? pre column = some own ↔ column = qualifiedName pre own := by
  have hchars : column = qualifiedName pre own
      ↔ column.toList = (pre ++ "_").toList ++ own.toList := by
    rw [← String.toList_inj, toList_qualifiedName]
  unfold withoutPrefix?
  rw [hchars]
  dsimp only
  split
  · next hfront =>
      obtain ⟨rest, hrest⟩ := List.isPrefixOf_iff_prefix.mp hfront
      rw [← hrest, List.drop_left, Option.some.injEq, List.append_cancel_left_eq,
        ← String.toList_inj, String.toList_ofList]
  · next hfront =>
      refine iff_of_false (by simp) fun heq => hfront ?_
      exact List.isPrefixOf_iff_prefix.mpr (heq ▸ List.prefix_append ..)

theorem withoutPrefix?_eq_none_iff {pre column : String} :
    withoutPrefix? pre column = none ↔ ¬(pre ++ "_").toList <+: column.toList := by
  unfold withoutPrefix?
  dsimp only
  rw [← List.isPrefixOf_iff_prefix]
  split <;> simp_all

/-- Where the qualifiers differ, each finds the prefix of its own table, in any letter
    case. -/
theorem prefixFor?_of_mem {s : Scope} {q p name : String}
    (h : (s.prefixes.map Prod.fst).Pairwise Differ) (hmem : (q, p) ∈ s.prefixes)
    (hname : Text.sameLetters q name = true) : s.prefixFor? name = some p := by
  unfold prefixFor?
  generalize hfound : List.find? _ s.prefixes = found
  cases found with
  | none => exact absurd hname (List.find?_eq_none.mp hfound _ hmem)
  | some entry =>
      have hentry : entry = (q, p) := by
        by_contra hne
        have : Std.Symm fun a b : String × String => Differ a.1 b.1 := ⟨fun _ _ h => symm h⟩
        have hother := (List.pairwise_map.mp h).forall (List.mem_of_find?_eq_some hfound) hmem hne
        have hread := List.find?_some hfound
        have hsame := Text.sameLetters_trans hread (Text.sameLetters_symm hname)
        exact Text.not_differ_iff.mpr hsame hother
      rw [hentry]
      rfl

/-- A name without a prefix reads no column when all columns differ from it. -/
theorem bare?_eq_none_iff {columns : List String} {column : String} :
    bare? columns column = none ↔ ∀ e ∈ columns, Differ e column := by
  unfold bare?
  split
  · next hmem =>
      refine ⟨nofun, fun hnone => ?_⟩
      exact absurd (hnone column (List.contains_iff_mem.mp hmem)) (by simp [Differ])
  · simp [Differ]

/-- A qualified reference reads the column behind the prefix of its table, and where there
    is none the column of the bare name. -/
theorem resolve?_qualified {s : Scope} {q p : String} (h : s.prefixFor? q = some p)
    (columns : List String) (column : String) : s.resolve? columns ⟨some q, column⟩
      = if qualifiedName p column ∈ columns then some (qualifiedName p column)
        else bare? columns column := by
  unfold resolve? underPrefix?
  dsimp only
  rw [h]
  by_cases hmem : qualifiedName p column ∈ columns
  · rw [if_pos hmem]
    simp [hmem]
  · rw [if_neg hmem]
    simp [hmem]

/-- It reads nothing when no column has the name behind the prefix or as it stands. -/
theorem resolve?_eq_none_iff {s : Scope} {q p : String} (h : s.prefixFor? q = some p)
    {columns : List String} {column : String} : s.resolve? columns ⟨some q, column⟩ = none
      ↔ qualifiedName p column ∉ columns ∧ ∀ e ∈ columns, Differ e column := by
  rw [resolve?_qualified h, ← bare?_eq_none_iff]
  split
  · next hmem => exact ⟨nofun, fun hnone => absurd hmem hnone.1⟩
  · next hmem => exact ⟨fun hnone => ⟨hmem, hnone⟩, fun hnone => hnone.2⟩

/-- A qualifier that the scope does not know reads the column of the bare name. -/
theorem resolve?_unknown {s : Scope} {q : String} (h : s.prefixFor? q = none)
    (columns : List String) (column : String) :
    s.resolve? columns ⟨some q, column⟩ = bare? columns column := by
  unfold resolve? underPrefix?
  dsimp only
  rw [h]
  rfl

theorem columnsOf_qualified {s : Scope} {q p : String} (h : s.prefixFor? q = some p)
    (columns : List String) : s.columnsOf columns q
      = columns.filterMap fun c => (withoutPrefix? p c).map fun own => (c, own) := by
  unfold columnsOf
  rw [h]

/-- A column is reached by its own name exactly when it is there behind the prefix. -/
theorem mem_columnsOf_iff {s : Scope} {q p : String} (h : s.prefixFor? q = some p)
    {columns : List String} {own : String} :
    own ∈ (s.columnsOf columns q).map Prod.snd ↔ qualifiedName p own ∈ columns := by
  rw [columnsOf_qualified h]
  simp [withoutPrefix?_eq_some_iff]

end Scope

/-! ## The columns of one table among those of several -/

/-- The columns of tables, each given by its qualifier and prefix, behind these prefixes. -/
def columnsBehind (tables : List ((String × String) × List String)) : List String :=
  tables.flatMap fun t => t.2.map (qualifiedName t.1.2)

theorem prefixedColumns_taken (s : Scope) (tables : List (List String)) :
    prefixedColumns s.taken tables = columnsBehind (s.prefixes.zip tables) := by
  unfold prefixedColumns columnsBehind Scope.taken
  rw [List.zip_map_left, List.flatMap_map]
  rfl

theorem columnsBehind_split (before after : List ((String × String) × List String)) (q p : String)
    (own : List String) : columnsBehind (before ++ ((q, p), own) :: after)
      = columnsBehind before ++ own.map (qualifiedName p) ++ columnsBehind after := by
  unfold columnsBehind
  rw [List.flatMap_append, List.flatMap_cons, List.append_assoc]

theorem mem_columnsBehind {tables : List ((String × String) × List String)} {name : String} :
    name ∈ columnsBehind tables ↔ ∃ t ∈ tables, ∃ c ∈ t.2, qualifiedName t.1.2 c = name := by
  unfold columnsBehind
  rw [List.mem_flatMap]
  exact exists_congr fun t => and_congr_right fun _ => List.mem_map

/-- Parts around a list add nothing to it exactly when they are empty. -/
theorem append_append_eq_self_iff {α : Type} {front list back : List α} :
    front ++ list ++ back = list ↔ front = [] ∧ back = [] := by
  constructor
  · intro h
    have hlength := congrArg List.length h
    rw [List.length_append, List.length_append] at hlength
    exact ⟨List.length_eq_zero_iff.mp (by omega), List.length_eq_zero_iff.mp (by omega)⟩
  · rintro ⟨rfl, rfl⟩
    rw [List.nil_append, List.append_nil]

section Tables

variable {s : Scope} {before after : List ((String × String) × List String)} {q p : String}
  {own : List String}

/-- A qualifier reaches the columns of its table, and beside these every column of another
    table that begins with its prefix. -/
theorem columnsOf_columnsBehind_iff {name : String} (h : s.prefixFor? name = some p) :
    s.columnsOf (columnsBehind (before ++ ((q, p), own) :: after)) name
        = own.map (fun c => (qualifiedName p c, c))
      ↔ ∀ t ∈ before ++ after, ∀ c ∈ t.2,
        ¬(p ++ "_").toList <+: (qualifiedName t.1.2 c).toList := by
  have hown : (own.map (qualifiedName p)).filterMap
      (fun c => (Scope.withoutPrefix? p c).map fun o => (c, o))
        = own.map fun c => (qualifiedName p c, c) := by
    rw [List.filterMap_map, ← List.filterMap_eq_map]
    refine List.filterMap_congr (fun c _ => ?_)
    have hread : Scope.withoutPrefix? p (qualifiedName p c) = some c :=
      Scope.withoutPrefix?_eq_some_iff.mpr rfl
    show (Scope.withoutPrefix? p (qualifiedName p c)).map _ = _
    rw [hread]
    rfl
  have hnone : ∀ tables, (columnsBehind tables).filterMap
      (fun c => (Scope.withoutPrefix? p c).map fun o => (c, o)) = []
        ↔ ∀ t ∈ tables, ∀ c ∈ t.2, ¬(p ++ "_").toList <+: (qualifiedName t.1.2 c).toList := by
    intro tables
    simp only [List.filterMap_eq_nil_iff, mem_columnsBehind, Option.map_eq_none_iff,
      Scope.withoutPrefix?_eq_none_iff]
    constructor
    · exact fun hall t ht c hc => hall _ ⟨t, ht, c, hc, rfl⟩
    · rintro hall name ⟨t, ht, c, hc, rfl⟩
      exact hall t ht c hc
  -- its own columns are all there, so the other tables must add none
  rw [Scope.columnsOf_qualified h, columnsBehind_split, List.filterMap_append,
    List.filterMap_append, hown, append_append_eq_self_iff, hnone, hnone, List.forall_mem_append]

/-- A column of the table is read behind its prefix. -/
theorem resolve?_own {name c : String} (h : s.prefixFor? name = some p) (hc : c ∈ own) :
    s.resolve? (columnsBehind (before ++ ((q, p), own) :: after)) ⟨some name, c⟩
      = some (qualifiedName p c) := by
  rw [Scope.resolve?_qualified h, if_pos]
  exact mem_columnsBehind.mpr ⟨((q, p), own), by simp, c, hc, rfl⟩

/-- A name that the table does not have reads nothing when no column of another table has it
    behind the prefix and none has it as it stands. -/
theorem resolve?_other_iff {name c : String} (h : s.prefixFor? name = some p)
    (hc : ∀ e ∈ own, Differ e c) :
    s.resolve? (columnsBehind (before ++ ((q, p), own) :: after)) ⟨some name, c⟩ = none
      ↔ (∀ t ∈ before ++ after, ∀ e ∈ t.2, qualifiedName t.1.2 e ≠ qualifiedName p c)
        ∧ ∀ e ∈ columnsBehind (before ++ ((q, p), own) :: after), Differ e c := by
  have hnot : c ∉ own := fun hmem => absurd (hc c hmem) (by simp [Differ])
  have hsplit : ∀ {t : (String × String) × List String}, t ∈ before ++ ((q, p), own) :: after
      ↔ t = ((q, p), own) ∨ t ∈ before ++ after := fun {t} => by
    rw [List.mem_append, List.mem_cons, List.mem_append, or_left_comm]
  rw [Scope.resolve?_eq_none_iff h]
  refine and_congr_left fun _ => ?_
  rw [mem_columnsBehind]
  constructor
  · exact fun hnone t ht e he heq => hnone ⟨t, hsplit.mpr (.inr ht), e, he, heq⟩
  · rintro hnone ⟨t, ht, e, he, heq⟩
    rcases hsplit.mp ht with rfl | ht
    · exact hnot (qualifiedName_injective p heq ▸ he)
    · exact hnone t ht e he heq

/-- Each table has a prefix of its own. -/
theorem prefixes_of_split {tables : List (List String)}
    (hlength : s.prefixes.length = tables.length)
    (hsplit : s.prefixes.zip tables = before ++ ((q, p), own) :: after) (h : s.taken.Nodup)
    {t : (String × String) × List String} (ht : t ∈ before ++ after) :
    p ∈ s.taken ∧ t.1.2 ∈ s.taken ∧ p ≠ t.1.2 := by
  have htaken : s.taken = before.map (·.1.2) ++ p :: after.map (·.1.2) := by
    have hprefixes := List.map_fst_zip (Nat.le_of_eq hlength)
    rw [hsplit] at hprefixes
    rw [Scope.taken, ← hprefixes, List.map_map, List.map_append, List.map_cons]
    rfl
  have hother : t.1.2 ∈ before.map (·.1.2) ++ after.map (·.1.2) := by
    rw [← List.map_append]
    exact List.mem_map_of_mem ht
  rw [htaken] at h ⊢
  have hnew := (List.nodup_cons.mp (List.nodup_middle.mp h)).1
  refine ⟨by simp, ?_, fun heq => hnew (heq ▸ hother)⟩
  exact List.mem_append.mpr ((List.mem_append.mp hother).imp_right (List.mem_cons_of_mem _))

/-- Where neither of two prefixes goes on behind the other, columns of one table do not
    begin with the prefix of the other. -/
theorem not_isPrefix_qualifiedName {p r : String} (hne : p ≠ r)
    (hpr : ¬(p ++ "_").toList <+: r.toList) (hrp : ¬(r ++ "_").toList <+: p.toList) (c : String) :
    ¬(p ++ "_").toList <+: (qualifiedName r c).toList := by
  rintro ⟨rest, hrest⟩
  have hsame : qualifiedName p (String.ofList rest) = qualifiedName r c := by
    rw [← String.toList_inj, toList_qualifiedName, String.toList_ofList, hrest]
  rcases isPrefix_of_qualifiedName_eq hne hsame with hfront | hfront
  · exact hpr hfront
  · exact hrp hfront

end Tables

/-! ## What the joins of a statement build -/

/-- What a statement calls its first table and those of some joins behind it. -/
def Sql.Descriptor.qualifiersBehind (d : Descriptor) (joins : List JoinClause) : List String :=
  d.fromQualifier?.getD (d.fromTable?.getD "") :: joins.map JoinClause.qualifier

/-- A scope knows the tables by what the statement calls them. -/
theorem Sql.Descriptor.qualifiers_scopeBehind (d : Descriptor) (joins : List JoinClause) :
    (d.scopeBehind joins).prefixes.map Prod.fst = d.qualifiersBehind joins := by
  induction joins using List.reverseRecOn with
  | nil => rfl
  | append_singleton joins clause ih =>
      rw [scopeBehind_concat, Scope.add, List.map_append, ih]
      simp [qualifiersBehind]

/-- It knows one table more than was joined. -/
theorem Sql.Descriptor.length_prefixes_scopeBehind (d : Descriptor) (joins : List JoinClause) :
    (d.scopeBehind joins).prefixes.length = joins.length + 1 := by
  rw [← List.length_map (f := Prod.fst), d.qualifiers_scopeBehind]
  exact congrArg (· + 1) (List.length_map ..)

namespace Stage

/-- The running table behind a join with a table that was read. -/
def joinedWith (d : Descriptor) (current : Running) (part : JoinClause × Snapshot) : Running :=
  ⟨(joined d current part.1 part.2).result, (withPrefixes d current).scope.add part.1.qualifier
    ((withPrefixes d current).scope.choosePrefix part.1.table part.1.alias?)⟩

/-- The running table behind joins with tables that were read. -/
def joinedAll (d : Descriptor) (current : Running) (parts : List (JoinClause × Snapshot)) :
    Running := parts.foldl (joinedWith d) current

theorem join_ensures {post : List (String × Reply) → List Step → Running → Prop} (d : Descriptor)
    (current : Running) (clause : JoinClause) {asked : List (String × Reply)} {shown : List Step}
    (hpost : ∀ asked' shown' right, post asked' shown' (joinedWith d current (clause, right))) :
    (join d current clause).Ensures post asked shown := by
  rw [join_eq]
  refine Dialogue.ensures_bind (Dialogue.ensures_bind (Dialogue.ensures_fetch fun reply =>
    Dialogue.ensures_pure ?_))
  have hshow : ∀ asked', (Dialogue.showStep (.join (joinStep d current clause (scannedTable clause.table reply)))
      >>= fun _ => pure (joinedWith d current (clause, scannedTable clause.table reply))
      : Dialogue Running).Ensures post asked' shown := fun asked' =>
    Dialogue.ensures_bind (Dialogue.ensures_showStep (Dialogue.ensures_pure (hpost _ _ _)))
  split
  · exact Dialogue.ensures_bind (Dialogue.ensures_noteEvent (hshow _))
  · exact hshow _

/-- Joining the tables of a statement ends with such joins, whatever is read. -/
theorem joinAll_ensures (d : Descriptor) (clauses : List JoinClause) :
    ∀ {asked : List (String × Reply)} {shown : List Step} (current : Running),
      (joinAll d current clauses).Ensures (fun _ _ next => ∃ parts, parts.map Prod.fst = clauses
        ∧ next = joinedAll d current parts) asked shown := by
  induction clauses with
  | nil => exact fun current => Dialogue.ensures_pure ⟨[], rfl, rfl⟩
  | cons clause rest ih =>
      intro asked shown current
      refine Dialogue.ensures_bind (join_ensures d current clause fun asked' shown' right => ?_)
      refine Dialogue.ensures_mono ?_ (ih _)
      rintro _ _ next ⟨parts, hclauses, rfl⟩
      exact ⟨(clause, right) :: parts, congrArg (clause :: ·) hclauses, rfl⟩

theorem joinedAll_concat (d : Descriptor) (current : Running)
    (parts : List (JoinClause × Snapshot)) (part : JoinClause × Snapshot) :
    joinedAll d current (parts ++ [part]) = joinedWith d (joinedAll d current parts) part :=
  List.foldl_concat ..

/-- Joined columns bear prefixes already. -/
theorem withPrefixes_joinedWith (d : Descriptor) (current : Running)
    (part : JoinClause × Snapshot) :
    withPrefixes d (joinedWith d current part) = joinedWith d current part :=
  if_pos (by simp [joinedWith, Scope.isPrefixed, Scope.add])

theorem withPrefixes_joinedAll (d : Descriptor) (current : Running)
    {parts : List (JoinClause × Snapshot)} (h : parts ≠ []) :
    withPrefixes d (joinedAll d current parts) = joinedAll d current parts := by
  rw [← List.dropLast_concat_getLast h, joinedAll_concat, withPrefixes_joinedWith]

/-- With prefixes, the columns of the running table are those of all tables, and its scope
    is that of the statement. -/
theorem joinedAll_columns (d : Descriptor) (scanned : Snapshot)
    (parts : List (JoinClause × Snapshot)) :
    (withPrefixes d (joinedAll d ⟨scanned, .unprefixed⟩ parts)).scope
        = d.scopeBehind (parts.map Prod.fst)
      ∧ (withPrefixes d (joinedAll d ⟨scanned, .unprefixed⟩ parts)).table.columns
        = prefixedColumns (d.scopeBehind (parts.map Prod.fst)).taken
          (scanned.columns :: parts.map fun part => part.2.columns) := by
  -- on the last join, which finds prefixes wherever one stands before it
  induction parts using List.reverseRecOn with
  | nil => exact ⟨rfl, (List.flatMap_singleton ..).symm⟩
  | append_singleton parts part ih =>
      obtain ⟨hscope, hcolumns⟩ := ih
      have hlength : (d.scopeBehind (parts.map Prod.fst)).taken.length
          = (scanned.columns :: parts.map fun part => part.2.columns).length := by
        rw [Scope.taken, List.length_map, d.length_prefixes_scopeBehind, List.length_map,
          List.length_cons, List.length_map]
      rw [joinedAll_concat, withPrefixes_joinedWith, List.map_append, List.map_singleton,
        Sql.Descriptor.scopeBehind_concat, Scope.taken_add, List.map_append, List.map_singleton,
        ← List.cons_append, prefixedColumns_concat hlength, ← hcolumns, ← hscope]
      exact ⟨rfl, rfl⟩

/-- Behind at least one join, the scope has the qualifiers of the statement, a prefix for
    each table that is its own, and the columns are those of all tables behind these. -/
theorem joinedAll_tables (d : Descriptor) (scanned : Snapshot)
    {parts : List (JoinClause × Snapshot)} (h : parts ≠ []) {current : Running}
    (hcurrent : joinedAll d ⟨scanned, .unprefixed⟩ parts = current) :
    current.scope.prefixes.map Prod.fst = d.qualifiersBehind (parts.map Prod.fst)
      ∧ current.scope.taken.Nodup
      ∧ current.scope.prefixes.length = (scanned.columns :: parts.map fun part => part.2.columns).length
      ∧ current.table.columns = columnsBehind
          (current.scope.prefixes.zip (scanned.columns :: parts.map fun part => part.2.columns)) := by
  obtain ⟨hscope, hcolumns⟩ := joinedAll_columns d scanned parts
  rw [withPrefixes_joinedAll d _ h, hcurrent] at hscope hcolumns
  have hqualifiers : current.scope.prefixes.map Prod.fst = d.qualifiersBehind (parts.map Prod.fst) := by
    rw [hscope, d.qualifiers_scopeBehind]
  refine ⟨hqualifiers, hscope ▸ d.scopeBehind_nodup _, ?_, ?_⟩
  · rw [hscope, d.length_prefixes_scopeBehind, List.length_map, List.length_cons, List.length_map]
  · rw [hcolumns, ← hscope, prefixedColumns_taken]

end Stage

/-- Behind at least one join, where the statement calls no two tables the same, a qualifier
    in any letter case reaches its own table's columns: with their own names in order, exactly
    when no column of another table begins with the prefix of this one; and each by its own
    name.  A name that the table does not have reads nothing exactly when it names no column of
    another table, behind the prefix or as it stands.  Prefixes that do not go on behind one
    another leave only the latter. -/
theorem qualifier_reaches_iff {d : Descriptor} {scanned : Snapshot}
    {parts : List (JoinClause × Snapshot)} {cur : Running}
    (hcur : Stage.joinedAll d ⟨scanned, .unprefixed⟩ parts = cur) (hparts : parts ≠ [])
    (hqualifiers : (d.qualifiersBehind (parts.map Prod.fst)).Pairwise Differ)
    {before after : List ((String × String) × List String)} {q p : String} {own : List String}
    (htables : cur.scope.prefixes.zip (scanned.columns :: parts.map fun part => part.2.columns)
      = before ++ ((q, p), own) :: after)
    {name : String} (hname : Text.sameLetters q name = true) :
    cur.table.columns = columnsBehind before ++ own.map (qualifiedName p) ++ columnsBehind after
      ∧ (cur.scope.columnsOf cur.table.columns name = own.map (fun c => (qualifiedName p c, c))
        ↔ ∀ t ∈ before ++ after, ∀ c ∈ t.2, ¬(p ++ "_").toList <+: (qualifiedName t.1.2 c).toList)
      ∧ (∀ c ∈ own, cur.scope.resolve? cur.table.columns ⟨some name, c⟩
          = some (qualifiedName p c))
      ∧ (∀ c, (∀ e ∈ own, Differ e c) →
        (cur.scope.resolve? cur.table.columns ⟨some name, c⟩ = none
          ↔ (∀ t ∈ before ++ after, ∀ e ∈ t.2, qualifiedName t.1.2 e ≠ qualifiedName p c)
            ∧ ∀ e ∈ cur.table.columns, Differ e c))
      ∧ ((∀ r ∈ cur.scope.taken, ∀ r' ∈ cur.scope.taken, ¬(r ++ "_").toList <+: r'.toList) →
        cur.scope.columnsOf cur.table.columns name = own.map (fun c => (qualifiedName p c, c))
          ∧ ∀ c, (∀ e ∈ own, Differ e c) →
            (cur.scope.resolve? cur.table.columns ⟨some name, c⟩ = none
              ↔ ∀ e ∈ cur.table.columns, Differ e c)) := by
  obtain ⟨hnames, hnodup, hlength, hcolumns⟩ := Stage.joinedAll_tables d scanned hparts hcur
  have hmem : (q, p) ∈ cur.scope.prefixes := by
    have hzip := htables ▸ List.mem_append_right before List.mem_cons_self
    exact (List.of_mem_zip hzip).1
  have hprefix : cur.scope.prefixFor? name = some p :=
    Scope.prefixFor?_of_mem (hnames ▸ hqualifiers) hmem hname
  rw [htables] at hcolumns
  rw [hcolumns]
  refine ⟨columnsBehind_split .., columnsOf_columnsBehind_iff hprefix,
    fun c hc => resolve?_own hprefix hc, fun c hc => resolve?_other_iff hprefix hc,
    fun hfree => ?_⟩
  -- prefixes that do not go on behind one another tell the tables apart
  have happart : ∀ t ∈ before ++ after, ∀ c, ¬(p ++ "_").toList <+: (qualifiedName t.1.2 c).toList := by
    intro t ht c
    obtain ⟨hp, ht, hne⟩ := prefixes_of_split hlength htables hnodup ht
    exact not_isPrefix_qualifiedName hne (hfree p hp _ ht) (hfree _ ht p hp) c
  refine ⟨(columnsOf_columnsBehind_iff hprefix).mpr fun t ht c _ => happart t ht c, fun c hc => ?_⟩
  rw [resolve?_other_iff hprefix hc, and_iff_right]
  intro t ht e _ heq
  refine happart t ht e ?_
  rw [heq, toList_qualifiedName]
  exact List.prefix_append ..

/-- A table joined with itself, the second one called by another letter case. -/
theorem qualifier_reaches_self : ∃ cur, Stage.joinedAll
      (.extract "SELECT M.* FROM staff e JOIN staff m ON e.boss = m.id")
      ⟨{ name := "staff", columns := ["id", "boss"], rows := [] }, .unprefixed⟩
      [({ kind := .inner, table := "staff", alias? := some "m", implicit := false },
        { name := "staff", columns := ["id", "boss"], rows := [] })] = cur
    ∧ cur.scope.columnsOf cur.table.columns "M" = [("m_id", "id"), ("m_boss", "boss")]
    ∧ cur.scope.resolve? cur.table.columns ⟨some "M", "boss"⟩ = some "m_boss"
    ∧ cur.scope.resolve? cur.table.columns ⟨some "M", "name"⟩ = none := by
  obtain ⟨-, -, hown, -, hfree⟩ := qualifier_reaches_iff
    (rfl : Stage.joinedAll (.extract "SELECT M.* FROM staff e JOIN staff m ON e.boss = m.id")
      ⟨{ name := "staff", columns := ["id", "boss"], rows := [] }, .unprefixed⟩
      [({ kind := .inner, table := "staff", alias? := some "m", implicit := false },
        { name := "staff", columns := ["id", "boss"], rows := [] })] = _) nofun
    (by decide +kernel)
    (by decide +kernel : _ = [(("e", "staff"), ["id", "boss"])] ++ (("m", "m"), ["id", "boss"]) :: [])
    (by decide : Text.sameLetters "m" "M" = true)
  obtain ⟨hcolumns, hother⟩ := hfree (by decide +kernel)
  exact ⟨_, rfl, hcolumns, hown "boss" (by decide),
    (hother "name" (by decide)).mpr (by decide +kernel)⟩

/-- Beside a table `a_b`, the qualifier `a` reaches a column of that table too, as a column
    of its own and as a name, and `a_b` reads a column of `a` by its name behind the prefix;
    so `a.*` shows a column that is not in the answer. -/
theorem qualifier_reaches_continued : (∃ cur, Stage.joinedAll (.extract "SELECT a.* FROM a, a_b")
      ⟨{ name := "a", columns := ["x"], rows := [] }, .unprefixed⟩
      [({ kind := .cross, table := "a_b", implicit := true },
        { name := "a_b", columns := ["c"], rows := [] })] = cur
    ∧ cur.scope.columnsOf cur.table.columns "a" = [("a_x", "x"), ("a_b_c", "b_c")]
    ∧ cur.scope.resolve? cur.table.columns ⟨some "a", "b_c"⟩ = some "a_b_c"
    ∧ cur.scope.resolve? cur.table.columns ⟨some "a_b", "a_x"⟩ = some "a_x")
    ∧ (replay (Engine.scripted none) "SELECT a.* FROM a, a_b"
        [.ok ⟨["__sqlstep_rowid", "x"], [[.int 1, .int 10]]⟩,
          .ok ⟨["__sqlstep_rowid", "c"], [[.int 1, .int 20]]⟩,
          .ok ⟨["x"], [[.int 10]]⟩]).outcome.steps.map (fun step => (step.kind, step.result.columns))
      = [("Scan", ["x"]), ("Join", ["a_x", "a_b_c"]), ("Project", ["x", "b_c"])]
    ∧ (replay (Engine.scripted none) "SELECT a.* FROM a, a_b"
        [.ok ⟨["__sqlstep_rowid", "x"], [[.int 1, .int 10]]⟩,
          .ok ⟨["__sqlstep_rowid", "c"], [[.int 1, .int 20]]⟩,
          .ok ⟨["x"], [[.int 10]]⟩]).outcome.finalResult.columns = ["x"] := by
  refine ⟨⟨_, rfl, ?_, ?_, ?_⟩, ?_, ?_⟩
  all_goals decide +kernel

end QueryReplay
