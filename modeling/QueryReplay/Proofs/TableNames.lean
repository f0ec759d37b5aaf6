import QueryReplay.Proofs.AuxiliaryQueries
import QueryReplay.Proofs.Entries

/-! # Table names — what the qualifiers of a statement stand for

    Every table of a statement is entered under its name and then under its
    alias, in the order of FROM and the joins, and an entry takes the place of
    an earlier one under the same name.  Of two tables with different
    qualifiers the later one can still take the name of the earlier one away:
    by its own name, where an alias hides it (`resolveTable_iff`). -/

namespace QueryReplay

namespace Sql

open Select (register)

/-! ## Registering tables -/

section Register

variable (names : List (String × String)) (t : TableRef)

/-- A table that was entered is found under its qualifier. -/
theorem lookup_register_qualifier : (register names t).lookup t.qualifier = some t.name := by
  unfold register TableRef.qualifier
  cases t.alias? with
  | none => rw [Option.getD_none, Assoc.lookup_insert, if_pos rfl]
  | some a => rw [Option.getD_some, Assoc.lookup_insert, if_pos rfl]

/-- Under any other qualifier it is found only if that is its name. -/
theorem lookup_register_other {q : String} (hq : t.qualifier ≠ q) :
    (register names t).lookup q = if t.name = q then some q else names.lookup q := by
  unfold register
  cases halias : t.alias? with
  | none =>
      have hname : t.name ≠ q := by
        rw [TableRef.qualifier, halias] at hq
        exact hq
      rw [Assoc.lookup_insert, if_neg (Ne.symm hname), if_neg hname]
  | some a =>
      have ha : a ≠ q := by
        rw [TableRef.qualifier, halias] at hq
        exact hq
      rw [Assoc.lookup_insert, if_neg (Ne.symm ha), Assoc.lookup_insert]
      by_cases hname : t.name = q
      · rw [if_pos hname.symm, if_pos hname, hname]
      · rw [if_neg (Ne.symm hname), if_neg hname]

/-- What a qualifier stands for is taken away by tables of that name only. -/
theorem lookup_registered {q : String} {ts : List TableRef} (hq : ∀ t ∈ ts, t.qualifier ≠ q) :
    (ts.foldl register names).lookup q
      = if q ∈ ts.map TableRef.name then some q else names.lookup q := by
  induction ts generalizing names with
  | nil => exact (if_neg List.not_mem_nil).symm
  | cons t ts ih =>
      obtain ⟨ht, hts⟩ := List.forall_mem_cons.mp hq
      rw [List.foldl_cons, ih _ hts, lookup_register_other names t ht, List.map_cons]
      by_cases hlater : q ∈ ts.map TableRef.name
      · rw [if_pos hlater, if_pos (List.mem_cons_of_mem _ hlater)]
      · rw [if_neg hlater]
        by_cases hname : t.name = q
        · rw [if_pos hname, if_pos (hname ▸ List.mem_cons_self)]
        · rw [if_neg hname, if_neg fun hmem =>
            (List.mem_cons.mp hmem).elim (fun h => hname h.symm) hlater]

end Register

/-! ## Qualifiers -/

theorem resolveTable_eq {sql : String} {s : Select} (h : parse sql = .ok s) (name : String) :
    (Descriptor.extract sql).resolveTable name
      = ((s.allTables.foldl register []).lookup name).getD name := by
  rw [Descriptor.resolveTable, Descriptor.tableNames, Descriptor.extract, h]
  rfl

/-- The qualifier of a table stands for it unless an alias hides a later table of
    that name; then it stands for that one. -/
theorem resolveTable_iff {sql : String} {s : Select} (h : parse sql = .ok s)
    (hdistinct : (s.allTables.map TableRef.qualifier).Nodup) {before after : List TableRef}
    {t : TableRef} (hsplit : s.allTables = before ++ t :: after) :
    ((Descriptor.extract sql).resolveTable t.qualifier = t.name
        ↔ t.qualifier = t.name ∨ ∀ u ∈ after, u.name ≠ t.qualifier)
      ∧ ((∃ u ∈ after, u.name = t.qualifier) →
        (Descriptor.extract sql).resolveTable t.qualifier = t.qualifier) := by
  have hothers : ∀ u ∈ after, u.qualifier ≠ t.qualifier := by
    intro u hu heq
    rw [hsplit, List.map_append, List.map_cons] at hdistinct
    have hbehind := (List.nodup_cons.mp hdistinct.of_append_right).1
    exact hbehind (heq ▸ List.mem_map_of_mem hu)
  have hresolved : (Descriptor.extract sql).resolveTable t.qualifier
      = if t.qualifier ∈ after.map TableRef.name then t.qualifier else t.name := by
    rw [resolveTable_eq h, hsplit, List.foldl_append, List.foldl_cons,
      lookup_registered _ hothers, lookup_register_qualifier]
    split <;> rfl
  rw [hresolved]
  constructor
  · by_cases hmem : t.qualifier ∈ after.map TableRef.name
    · rw [if_pos hmem]
      obtain ⟨u, hu, hname⟩ := List.mem_map.mp hmem
      exact ⟨.inl, fun hor => hor.elim id fun hnone => absurd hname (hnone u hu)⟩
    · rw [if_neg hmem]
      exact ⟨fun _ => .inr fun u hu hname => hmem (List.mem_map.mpr ⟨u, hu, hname⟩), fun _ => rfl⟩
  · rintro ⟨u, hu, hname⟩
    rw [if_pos (List.mem_map.mpr ⟨u, hu, hname⟩)]

/-- An alias that is the hidden name of the table before it. -/
theorem resolveTable_iff_earlier : ∃ s, parse "SELECT * FROM x y JOIN a x" = .ok s
    ∧ (s.allTables.map TableRef.qualifier).Nodup
    ∧ s.allTables = [⟨"x", some "y"⟩] ++ ⟨"a", some "x"⟩ :: []
    ∧ ((Descriptor.extract "SELECT * FROM x y JOIN a x").resolveTable "x" = "a"
        ↔ "x" = "a" ∨ ∀ u ∈ ([] : List TableRef), u.name ≠ "x")
    ∧ (Descriptor.extract "SELECT * FROM x y JOIN a x").resolveTable "x" = "a" := by
  obtain ⟨s, hparse⟩ := accepted_of_isOk
    (show (parse "SELECT * FROM x y JOIN a x").isOk = true by decide +kernel)
  have htables : s.allTables = [⟨"x", some "y"⟩] ++ ⟨"a", some "x"⟩ :: [] := by
    have hread : (parse "SELECT * FROM x y JOIN a x").toOption.map Select.allTables
        = some ([⟨"x", some "y"⟩] ++ ⟨"a", some "x"⟩ :: []) := by decide +kernel
    rw [hparse] at hread
    exact Option.some.inj hread
  have hdistinct : (s.allTables.map TableRef.qualifier).Nodup := by
    rw [htables]
    decide
  have hresolves := (resolveTable_iff hparse hdistinct htables).1
  exact ⟨s, hparse, hdistinct, htables, hresolves, hresolves.mpr (.inr nofun)⟩

/-- An alias that is the hidden name of the table behind it stands for that one. -/
theorem resolveTable_hidden : ∃ s, parse "SELECT * FROM a x JOIN x y" = .ok s
    ∧ s.allTables = [⟨"a", some "x"⟩, ⟨"x", some "y"⟩]
    ∧ (s.allTables.map TableRef.qualifier).Nodup
    ∧ (Descriptor.extract "SELECT * FROM a x JOIN x y").resolveTable "x" = "x" := by
  obtain ⟨s, hparse⟩ := accepted_of_isOk
    (show (parse "SELECT * FROM a x JOIN x y").isOk = true by decide +kernel)
  have htables : s.allTables = [⟨"a", some "x"⟩, ⟨"x", some "y"⟩] := by
    have hread : (parse "SELECT * FROM a x JOIN x y").toOption.map Select.allTables
        = some [⟨"a", some "x"⟩, ⟨"x", some "y"⟩] := by decide +kernel
    rw [hparse] at hread
    exact Option.some.inj hread
  exact ⟨s, hparse, htables, by rw [htables]; decide, by decide +kernel⟩

end Sql

end QueryReplay
