import Mathlib.Data.List.Induction
import Mathlib.Data.List.Nodup
import QueryReplay.Proofs.Names
import QueryReplay.Sql.Descriptor
import QueryReplay.Table.Scope

/-! # Prefixes — the column names of joined tables

    Joined columns bear the prefix of their table and an underscore.  Every table of
    a statement has a prefix of its own (`prefixes_nodup`), so within a table and
    between most tables names differ.  They can only be the same where a prefix goes
    on behind another one and its underscore (`isPrefix_of_qualifiedName_eq`), as that
    of a table `a_b` does behind `a`: then `c` of the first and `b_c` of the second are
    both called `a_b_c`.  The names of all columns differ exactly when no two tables
    have such columns (`prefixedColumns_nodup_iff`). -/

namespace QueryReplay

open Sql (Descriptor JoinClause)

/-! ## Names behind a prefix -/

theorem toList_qualifiedName (pre column : String) :
    (qualifiedName pre column).toList = (pre ++ "_").toList ++ column.toList :=
  String.toList_append

/-- With one prefix different columns have different names. -/
theorem qualifiedName_injective (pre : String) : Function.Injective (qualifiedName pre) := by
  intro c e h
  have hchars := congrArg String.toList h
  rw [toList_qualifiedName, toList_qualifiedName] at hchars
  exact String.toList_inj.mp (List.append_cancel_left hchars)

/-- Two tables have a column of one name only where the prefix of one goes on behind
    that of the other. -/
theorem isPrefix_of_qualifiedName_eq {p q c e : String} (hne : p ≠ q)
    (h : qualifiedName p c = qualifiedName q e) :
    (p ++ "_").toList <+: q.toList ∨ (q ++ "_").toList <+: p.toList := by
  have hchars := congrArg String.toList h
  rw [toList_qualifiedName, toList_qualifiedName] at hchars
  -- of two fronts of one text, the shorter one is a front of the other
  have hfront : ∀ {a b : String} {cs ds : List Char}, a ≠ b →
      (a ++ "_").toList ++ cs = (b ++ "_").toList ++ ds → a.toList.length ≤ b.toList.length →
      (a ++ "_").toList <+: b.toList := by
    intro a b cs ds hab heq hle
    have hlong : (a ++ "_").toList <+: (b ++ "_").toList := by
      refine List.prefix_of_prefix_length_le (heq ▸ List.prefix_append _ cs) (List.prefix_append _ ds) ?_
      simpa [String.toList_append] using hle
    have hmark : (b ++ "_").toList = b.toList ++ ['_'] := String.toList_append
    rw [hmark] at hlong
    rcases List.prefix_concat_iff.mp hlong with hsame | hshort
    · rw [String.toList_append] at hsame
      exact absurd (String.toList_inj.mp (List.append_cancel_right hsame)) hab
    · exact hshort
  rcases Nat.le_total p.toList.length q.toList.length with hle | hle
  · exact .inl (hfront hne hchars hle)
  · exact .inr (hfront hne.symm hchars.symm hle)

/-! ## The prefixes of a statement -/

namespace Scope

@[simp] theorem taken_add (s : Scope) (qualifier pre : String) :
    (s.add qualifier pre).taken = s.taken ++ [pre] := List.map_append

/-- A chosen prefix is new. -/
theorem choosePrefix_free (s : Scope) (table : String) (alias? : Option String) :
    s.choosePrefix table alias? ∉ s.taken := by
  unfold choosePrefix
  split
  · next hnew => simpa using hnew
  · split
    · next a halias => simpa using (Option.filter_eq_some_iff.mp halias).2
    · exact firstFree_free (append_toString_injective table) _ _

end Scope

namespace Sql.Descriptor

/-- The scope of the first table and of some joins behind it. -/
def scopeBehind (d : Descriptor) (joins : List JoinClause) : Scope :=
  joins.foldl (fun scope clause =>
      scope.add clause.qualifier (scope.choosePrefix clause.table clause.alias?))
    (Scope.unprefixed.add (d.fromQualifier?.getD (d.fromTable?.getD "")) (d.fromTable?.getD ""))

/-- The prefixes of the tables of a statement, in order. -/
def prefixes (d : Descriptor) : List String := (d.scopeBehind d.joins).taken

variable (d : Descriptor)

/-- Behind one more join the scope knows one more qualifier. -/
theorem scopeBehind_concat (joins : List JoinClause) (clause : JoinClause) :
    d.scopeBehind (joins ++ [clause]) = (d.scopeBehind joins).add clause.qualifier
      ((d.scopeBehind joins).choosePrefix clause.table clause.alias?) := by
  rw [scopeBehind, List.foldl_concat]
  rfl

/-- What is taken stays taken. -/
theorem taken_scopeBehind (front back : List JoinClause) :
    (d.scopeBehind front).taken <+: (d.scopeBehind (front ++ back)).taken := by
  induction back using List.reverseRecOn with
  | nil =>
      simp
  | append_singleton back clause ih =>
      rw [← List.append_assoc, scopeBehind_concat, Scope.taken_add]
      exact ih.trans (List.prefix_append _ _)

/-- No prefix is chosen twice. The induction is on the joins, with the newest at the end. -/
theorem scopeBehind_nodup (joins : List JoinClause) : (d.scopeBehind joins).taken.Nodup := by
  induction joins using List.reverseRecOn with
  | nil => exact List.nodup_singleton _
  | append_singleton joins clause ih =>
      have hnew := (d.scopeBehind joins).choosePrefix_free clause.table clause.alias?
      rw [scopeBehind_concat, Scope.taken_add, List.nodup_append_comm]
      exact List.nodup_cons.mpr ⟨hnew, ih⟩

/-- No two tables of a statement have the same prefix. -/
theorem prefixes_nodup : d.prefixes.Nodup := d.scopeBehind_nodup d.joins

end Sql.Descriptor

/-! ## The columns of several tables -/

/-- The columns of tables behind the prefixes of the tables. -/
def prefixedColumns (prefixes : List String) (tables : List (List String)) : List String :=
  (prefixes.zip tables).flatMap fun (p, columns) => columns.map (qualifiedName p)

/-- No two of the tables have a column of one name. -/
def ColumnsApart (prefixes : List String) (tables : List (List String)) : Prop :=
  (prefixes.zip tables).Pairwise fun t u =>
    ∀ c ∈ t.2, ∀ e ∈ u.2, qualifiedName t.1 c ≠ qualifiedName u.1 e

instance (prefixes : List String) (tables : List (List String)) :
    Decidable (ColumnsApart prefixes tables) := inferInstanceAs (Decidable (List.Pairwise _ _))

section Columns

variable {prefixes : List String} {tables : List (List String)}

/-- A table that is joined adds its columns behind all others. -/
theorem prefixedColumns_concat (hlen : prefixes.length = tables.length) (p : String)
    (columns : List String) : prefixedColumns (prefixes ++ [p]) (tables ++ [columns])
      = prefixedColumns prefixes tables ++ columns.map (qualifiedName p) := by
  rw [prefixedColumns, List.zip_append hlen, List.flatMap_append]
  exact congrArg _ (List.flatMap_singleton ..)

/-- Prefixes of tables that are not there yet do not count. -/
theorem zip_of_prefix {more : List String} (h : prefixes <+: more)
    (hlen : prefixes.length = tables.length) : more.zip tables = prefixes.zip tables := by
  obtain ⟨back, rfl⟩ := h
  have hzip := @List.zip_append _ _ prefixes back tables [] hlen
  rwa [List.append_nil, List.zip_nil_right, List.append_nil] at hzip

/-- All names differ exactly when no two tables have a column of one name. -/
theorem prefixedColumns_nodup_iff (h : ∀ columns ∈ tables, columns.Nodup) :
    (prefixedColumns prefixes tables).Nodup ↔ ColumnsApart prefixes tables := by
  rw [prefixedColumns, List.nodup_flatMap, ColumnsApart]
  constructor
  · rintro ⟨-, happart⟩
    refine happart.imp fun {t u} hdisjoint c hc e he heq => ?_
    exact hdisjoint (List.mem_map_of_mem hc) (heq ▸ List.mem_map_of_mem he)
  · intro happart
    refine ⟨fun t ht => ?_, happart.imp fun {t u} hne x hx hx' => ?_⟩
    · exact (h t.2 (List.of_mem_zip ht).2).map (qualifiedName_injective t.1)
    · obtain ⟨c, hc, rfl⟩ := List.mem_map.mp hx
      obtain ⟨e, he, heq⟩ := List.mem_map.mp hx'
      exact hne c hc e he heq.symm

/-- They do when no prefix goes on behind another one, whatever the columns are. -/
theorem columnsApart_of_prefixes (hnodup : prefixes.Nodup)
    (h : ∀ p ∈ prefixes, ∀ q ∈ prefixes, ¬(p ++ "_").toList <+: q.toList) :
    ColumnsApart prefixes tables := by
  induction prefixes generalizing tables with
  | nil => exact .nil
  | cons p prefixes ih =>
      obtain ⟨hp, hnodup⟩ := List.nodup_cons.mp hnodup
      cases tables with
      | nil => exact .nil
      | cons columns tables =>
          refine List.pairwise_cons.mpr ⟨?_, ih hnodup fun q hq q' hq' =>
            h q (List.mem_cons_of_mem p hq) q' (List.mem_cons_of_mem p hq')⟩
          rintro ⟨q, others⟩ hmem c - e - heq
          have hq : q ∈ prefixes := (List.of_mem_zip hmem).1
          have hq' : q ∈ p :: prefixes := List.mem_cons_of_mem p hq
          have hne : p ≠ q := by
            rintro rfl
            exact hp hq
          rcases isPrefix_of_qualifiedName_eq hne heq with hfront | hfront
          · exact h p List.mem_cons_self q hq' hfront
          · exact h q hq' p List.mem_cons_self hfront

end Columns

end QueryReplay
