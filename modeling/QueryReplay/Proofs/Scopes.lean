import QueryReplay.Proofs.Qualifiers

/-! # Scopes — the prefixes that joins choose

    A joined table takes its name as prefix, else its alias, else its name with a number
    that is looked for without a bound (`Scope.Chooses`).  The search ends because the
    numbered names differ (`choosePrefix_chooses`), so every prefix is new and no two are
    alike, over any number of joins.  Qualifiers are looked up without regard to case and
    the first match counts; so where they differ, the one at a position finds the prefix
    at that position (`prefixFor?_getElem?`). -/

namespace QueryReplay

open Sql (Descriptor JoinClause)
open Text (Differ)

namespace Scope

/-- The prefix that a table gets which is joined under an alias or without one. -/
inductive Chooses (s : Scope) (table : String) (alias? : Option String) : String → Prop where
  | table : table ∉ s.taken → Chooses s table alias? table
  | alias {a : String} : table ∈ s.taken → alias? = some a → a ∉ s.taken →
      Chooses s table alias? a
  | numbered {n : Nat} : table ∈ s.taken → (∀ a ∈ alias?, a ∈ s.taken) →
      SearchEnds (fun n => table ++ toString n) s.taken 2 n →
      Chooses s table alias? (table ++ toString n)

/-- Choosing comes to an end. -/
theorem choosePrefix_chooses (s : Scope) (table : String) (alias? : Option String) :
    s.Chooses table alias? (s.choosePrefix table alias?) := by
  unfold choosePrefix
  split
  · next hnew => exact .table (by simpa using hnew)
  · next hknown =>
      have htable : table ∈ s.taken := by simpa using hknown
      split
      · next a halias =>
          obtain ⟨ha, hnew⟩ := Option.filter_eq_some_iff.mp halias
          exact .alias htable ha (by simpa using hnew)
      · next halias =>
          obtain ⟨n, hends, heq⟩ := firstFree_ends (append_toString_injective table) s.taken 2
          rw [heq]
          refine .numbered htable (fun a ha => ?_) hends
          obtain rfl : alias? = some a := ha
          simpa using Option.filter_eq_none_iff.mp halias a rfl

variable {s : Scope}

/-- Where the qualifiers differ, the one at a position finds the prefix at that position,
    in any letter case. -/
theorem prefixFor?_getElem? (h : (s.prefixes.map Prod.fst).Pairwise Differ) {i : Nat}
    {q name : String} (hq : (s.prefixes.map Prod.fst)[i]? = some q)
    (hname : Text.sameLetters q name = true) :
    ∃ p, s.taken[i]? = some p ∧ s.prefixFor? name = some p := by
  rw [List.getElem?_map] at hq
  obtain ⟨⟨q', p⟩, hentry, rfl⟩ := Option.map_eq_some_iff.mp hq
  refine ⟨p, ?_, prefixFor?_of_mem h (List.mem_of_getElem? hentry) hname⟩
  rw [taken, List.getElem?_map, hentry, Option.map_some]

end Scope

theorem Sql.Descriptor.width_scopeBehind (d : Descriptor) (joins : List JoinClause) :
    (d.scopeBehind joins).width = joins.length + 1 := by
  rw [Scope.width, d.length_prefixes_scopeBehind]
  exact Nat.max_eq_left (Nat.le_add_left 1 joins.length)

namespace Stage

/-- Joins leave the scope of the statement; before the first one it is still to be begun. -/
theorem joinAll_scopeBehind (d : Descriptor) (scanned : Snapshot) (joins : List JoinClause) :
    (joinAll d ⟨scanned, .unprefixed⟩ joins).Ensures
      (fun _ _ current => (withPrefixes d current).scope = d.scopeBehind joins
        ∧ current.scope.width = joins.length + 1) [] [] := by
  refine Dialogue.ensures_mono ?_ (joinAll_ensures d joins ⟨scanned, .unprefixed⟩)
  rintro _ _ current ⟨parts, rfl, rfl⟩
  have hscope := (joinedAll_columns d scanned parts).1
  refine ⟨hscope, ?_⟩
  by_cases hparts : parts = []
  · subst hparts
    rfl
  · rw [withPrefixes_joinedAll d _ hparts] at hscope
    rw [hscope, d.width_scopeBehind, List.length_map]

end Stage

/-- However the tables of a statement are called, joining them keeps their prefixes apart.
    When the next table is joined to a running one, the scope is the one that knows the
    first table by its name and each joined one by the prefix that was chosen for it; it
    knows one table more than was joined, and so does the running table even before it has
    prefixes.  For any further table choosing comes to an end, and the prefix is new; no two
    prefixes are alike.  Where the qualifiers differ without regard to case, each one in any
    letter case finds the prefix at its own position. -/
theorem prefixes_stay_apart (d : Descriptor) (joins : List JoinClause) :
    (∀ (σ : Type) (engine : Engine σ) (state : σ) (scanned : Snapshot) (current : Running),
        ((Stage.joinAll d ⟨scanned, .unprefixed⟩ joins).run engine state).result = .ok current →
        (Stage.withPrefixes d current).scope = d.scopeBehind joins
          ∧ current.scope.width = joins.length + 1)
      ∧ (d.scopeBehind joins).width = joins.length + 1
      ∧ (∀ (table : String) (alias? : Option String),
        (d.scopeBehind joins).Chooses table alias? ((d.scopeBehind joins).choosePrefix table alias?)
          ∧ (d.scopeBehind joins).choosePrefix table alias? ∉ (d.scopeBehind joins).taken)
      ∧ (d.scopeBehind joins).taken.Nodup
      ∧ ((d.qualifiersBehind joins).Pairwise Differ →
        ∀ (i : Nat) (q name : String), (d.qualifiersBehind joins)[i]? = some q →
          Text.sameLetters q name = true → ∃ p, (d.scopeBehind joins).taken[i]? = some p
            ∧ (d.scopeBehind joins).prefixFor? name = some p) := by
  refine ⟨fun σ engine state scanned current hrun => ?_, d.width_scopeBehind joins,
    fun table alias? => ⟨Scope.choosePrefix_chooses _ table alias?,
      Scope.choosePrefix_free _ table alias?⟩, d.scopeBehind_nodup joins,
    fun hdiffer i q name hq hname => ?_⟩
  · obtain ⟨_, -, -, hscope⟩ := Dialogue.ensures_run engine _
      (Stage.joinAll_scopeBehind d scanned joins) hrun
    exact hscope
  · rw [← d.qualifiers_scopeBehind] at hdiffer hq
    exact Scope.prefixFor?_getElem? hdiffer hq hname

/-- A table joined with itself, whose alias and whose name with the first number are the
    names of another one. -/
theorem prefixes_stay_apart_numbered : ∃ d : Descriptor,
    d = .extract "SELECT * FROM t a JOIN t2 b ON a.x = b.x JOIN t t2 ON a.x = t2.x"
      ∧ (∃ current, ((Stage.joinAll d ⟨{ name := "t", columns := ["x"], rows := [] }, .unprefixed⟩
          d.joins).run (Engine.scripted none) [.ok ⟨["x"], []⟩, .ok ⟨["x"], []⟩]).result
          = .ok current ∧ current.scope.width = 3)
      ∧ (d.scopeBehind d.joins).taken = ["t", "t2", "t3"]
      ∧ d.qualifiersBehind d.joins = ["a", "b", "t2"]
      ∧ (d.scopeBehind d.joins).prefixFor? "T2" = some "t3" := by
  -- the descriptor is named so that only its parts are computed
  obtain ⟨d, hd⟩ : ∃ d : Descriptor, d = .extract
    "SELECT * FROM t a JOIN t2 b ON a.x = b.x JOIN t t2 ON a.x = t2.x" := ⟨_, rfl⟩
  have htaken : (d.scopeBehind d.joins).taken = ["t", "t2", "t3"] := by
    rw [hd]
    decide +kernel
  have hqualifiers : d.qualifiersBehind d.joins = ["a", "b", "t2"] := by
    rw [hd]
    decide +kernel
  have hcount : d.joins.length = 2 := by
    rw [hd]
    decide +kernel
  obtain ⟨hruns, -, -, -, hfinds⟩ := prefixes_stay_apart d d.joins
  have hok : ((Stage.joinAll d ⟨{ name := "t", columns := ["x"], rows := [] }, .unprefixed⟩
      d.joins).run (Engine.scripted none) [.ok ⟨["x"], []⟩, .ok ⟨["x"], []⟩]).result.isOk = true := by
    rw [hd]
    decide +kernel
  obtain ⟨current, hcurrent⟩ : ∃ current, ((Stage.joinAll d
      ⟨{ name := "t", columns := ["x"], rows := [] }, .unprefixed⟩ d.joins).run
      (Engine.scripted none) [.ok ⟨["x"], []⟩, .ok ⟨["x"], []⟩]).result = .ok current := by
    generalize Dialogue.Transcript.result _ = result at hok ⊢
    cases result with
    | error e => exact nomatch hok
    | ok current => exact ⟨current, rfl⟩
  obtain ⟨p, hp, hfound⟩ := hfinds (by rw [hqualifiers]; decide) 2 "t2" "T2"
    (by rw [hqualifiers]; rfl) (by decide)
  rw [htaken] at hp
  obtain rfl := Option.some.inj hp
  exact ⟨d, hd, ⟨current, hcurrent, (hruns _ _ _ _ current hcurrent).2.trans (by rw [hcount])⟩,
    htaken, hqualifiers, hfound⟩

end QueryReplay
