import Mathlib.Data.List.Nodup
import Mathlib.Data.List.Perm.Subperm
import QueryReplay.Table.Names

/-! # Distinct names — numbering settles after one pass

    `uniqueNames` is applied twice on the way to a final result: once to the
    labels of a projection and once more when they are put on the engine's
    table.  The route to "the second pass changes nothing":

    * the numbered candidates of a name are pairwise different, so among one
      more candidate than there are taken names one is free (`firstFree_free`);
    * so the search for one, which has no bound of its own (`SearchEnds`), comes
      to an end, and the counted search ends there too (`firstFree_ends`);
    * every result is new among the results before it: a name that is kept has
      not been seen, and a numbered one avoids all given names
      (`uniqueNames_nodup`);
    * on names that differ already nothing is numbered
      (`uniqueNames_of_nodup`).

    A pass goes on behind any front of the names as it would by itself, so at every
    position it is known which names were taken there (`uniqueNames_getElem?`), and
    with them the result (`uniqueNames_exact`). -/

namespace QueryReplay

/-! ## Candidates -/

/-- Different numbers give different names. -/
theorem append_toString_injective (base : String) :
    Function.Injective fun n : Nat => base ++ toString n := by
  intro m n h
  have hdigits : Nat.toDigits 10 m = Nat.toDigits 10 n := by
    have hl := congrArg String.toList h
    simpa [Nat.toList_repr] using hl
  rw [← Nat.ofDigitChars_ten_toDigits (n := m), hdigits, Nat.ofDigitChars_ten_toDigits]

theorem numbered_injective (base : String) : Function.Injective (numbered base) :=
  append_toString_injective (base ++ "_")

/-- When the search ends on a taken candidate, it has seen only taken ones. -/
theorem firstFree_go_taken {candidate : Nat → String} {taken : List String} :
    ∀ (fuel n : Nat), firstFree.go candidate taken fuel n ∈ taken →
      ∀ i ≤ fuel, candidate (n + i) ∈ taken := by
  intro fuel
  induction fuel with
  | zero =>
      intro n h i hi
      obtain rfl : i = 0 := Nat.le_zero.mp hi
      exact h
  | succ fuel ih =>
      intro n h i hi
      unfold firstFree.go at h
      by_cases hc : candidate n ∈ taken
      · rw [if_pos (List.contains_iff_mem.mpr hc)] at h
        cases i with
        | zero => exact hc
        | succ i =>
            have hnext := ih (n + 1) h i (Nat.le_of_succ_le_succ hi)
            rw [show n + 1 + i = n + (i + 1) by omega] at hnext
            exact hnext
      · rw [if_neg (fun h' => hc (List.contains_iff_mem.mp h'))] at h
        exact absurd h hc

/-- The first free candidate is free: the taken names are too few for all of
    the candidates. -/
theorem firstFree_free {candidate : Nat → String} (hinj : Function.Injective candidate)
    (taken : List String) (n : Nat) : firstFree candidate taken n ∉ taken := by
  intro h
  have hall := firstFree_go_taken taken.length n h
  have hnodup : ((List.range (taken.length + 1)).map fun i => candidate (n + i)).Nodup := by
    refine List.Nodup.map (fun i j hij => ?_) List.nodup_range
    exact Nat.add_left_cancel (hinj hij)
  have hsub : ((List.range (taken.length + 1)).map fun i => candidate (n + i)) ⊆ taken := by
    intro x hx
    obtain ⟨i, hi, rfl⟩ := List.mem_map.mp hx
    exact hall i (Nat.le_of_lt_succ (List.mem_range.mp hi))
  have hlen := (List.subperm_of_subset hnodup hsub).length_le
  rw [List.length_map, List.length_range] at hlen
  omega

/-- The search for a free candidate that starts at one number and ends at another: as
    long as a candidate is taken, the next one is tried. -/
inductive SearchEnds (candidate : Nat → String) (taken : List String) : Nat → Nat → Prop where
  | free {n : Nat} : candidate n ∉ taken → SearchEnds candidate taken n n
  | next {n m : Nat} : candidate n ∈ taken → SearchEnds candidate taken (n + 1) m →
      SearchEnds candidate taken n m

namespace SearchEnds

variable {candidate : Nat → String} {taken : List String} {n m : Nat}

theorem le (h : SearchEnds candidate taken n m) : n ≤ m := by
  induction h with
  | free _ => exact Nat.le_refl _
  | next _ _ ih => exact Nat.le_of_succ_le ih

theorem end_free (h : SearchEnds candidate taken n m) : candidate m ∉ taken := by
  induction h with
  | free hfree => exact hfree
  | next _ _ ih => exact ih

end SearchEnds

/-- A counted search that finds a free candidate ends where the search does. -/
theorem firstFree_go_ends {candidate : Nat → String} {taken : List String} :
    ∀ (fuel n : Nat), firstFree.go candidate taken fuel n ∉ taken →
      ∃ m, SearchEnds candidate taken n m ∧ firstFree.go candidate taken fuel n = candidate m := by
  intro fuel
  induction fuel with
  | zero => exact fun n h => ⟨n, .free h, rfl⟩
  | succ fuel ih =>
      intro n h
      unfold firstFree.go at h ⊢
      by_cases hc : candidate n ∈ taken
      · rw [if_pos (List.contains_iff_mem.mpr hc)] at h ⊢
        obtain ⟨m, hends, heq⟩ := ih (n + 1) h
        exact ⟨m, .next hc hends, heq⟩
      · rw [if_neg (fun h' => hc (List.contains_iff_mem.mp h'))]
        exact ⟨n, .free hc, rfl⟩

/-- The search for a free candidate comes to an end, and it is the one that is found. -/
theorem firstFree_ends {candidate : Nat → String} (hinj : Function.Injective candidate)
    (taken : List String) (n : Nat) :
    ∃ m, SearchEnds candidate taken n m ∧ firstFree candidate taken n = candidate m :=
  firstFree_go_ends taken.length n (firstFree_free hinj taken n)

/-! ## The pass over the names -/

/-- What the pass makes of a name: it is kept when it is not among the names before it,
    else it gets the first number, from the count of these on, that makes it new. -/
def PassesTo (taken before : List String) (name result : String) : Prop :=
  name ∉ before ∧ result = name
    ∨ name ∈ before ∧ ∃ n, SearchEnds (numbered name) taken (before.count name) n
      ∧ result = numbered name n

/-- One name of the pass. -/
theorem uniqueNames_go_cons (given seen done : List String) (name : String)
    (rest : List String) :
    ∃ result, uniqueNames.go given seen done (name :: rest)
        = uniqueNames.go given (name :: seen) (done ++ [result]) rest
      ∧ PassesTo (given ++ done) seen name result := by
  by_cases hseen : name ∈ seen
  · have hcount : seen.count name ≠ 0 := fun h => List.count_eq_zero.mp h hseen
    refine ⟨firstFree (numbered name) (given ++ done) (seen.count name), ?_, Or.inr ⟨hseen, ?_⟩⟩
    · rw [uniqueNames.go, if_neg hcount]
    · exact firstFree_ends (numbered_injective name) _ _
  · have hcount : seen.count name = 0 := List.count_eq_zero.mpr hseen
    refine ⟨name, ?_, Or.inl ⟨hseen, rfl⟩⟩
    rw [uniqueNames.go, if_pos hcount]

theorem uniqueNames_go_length (given : List String) :
    ∀ (names seen done : List String),
      (uniqueNames.go given seen done names).length = done.length + names.length := by
  intro names
  induction names with
  | nil => intro seen done; rfl
  | cons name rest ih =>
      intro seen done
      obtain ⟨result, hgo, -⟩ := uniqueNames_go_cons given seen done name rest
      rw [hgo, ih]
      simp only [List.length_append, List.length_cons, List.length_nil]
      omega

@[simp] theorem uniqueNames_length (names : List String) :
    (uniqueNames names).length = names.length := by
  unfold uniqueNames
  rw [uniqueNames_go_length]
  simp

/-- The invariant of the pass: results are distinct, and a result that is a
    given name has been seen. -/
theorem uniqueNames_go_nodup {given : List String} :
    ∀ (names seen done : List String), names ⊆ given → done.Nodup →
      (∀ x ∈ done, x ∈ given → x ∈ seen) →
      (uniqueNames.go given seen done names).Nodup := by
  intro names
  induction names with
  | nil => intro seen done _ hdone _; exact hdone
  | cons name rest ih =>
      intro seen done hgiven hdone hseen
      obtain ⟨result, hgo, hresult⟩ := uniqueNames_go_cons given seen done name rest
      rw [hgo]
      have hname : name ∈ given := hgiven List.mem_cons_self
      have hnew : result ∉ done := by
        intro hmem
        rcases hresult with ⟨hfresh, rfl⟩ | ⟨-, n, hends, rfl⟩
        · exact hfresh (hseen result hmem hname)
        · exact hends.end_free (List.mem_append_right given hmem)
      refine ih _ _ (fun x hx => hgiven (List.mem_cons_of_mem _ hx)) ?_ ?_
      · exact List.nodup_append.mpr ⟨hdone, List.nodup_singleton _, by
          rintro x hx y hy rfl
          exact hnew (List.mem_singleton.mp hy ▸ hx)⟩
      · intro x hx hxg
        rcases List.mem_append.mp hx with hx | hx
        · exact List.mem_cons_of_mem _ (hseen x hx hxg)
        · obtain rfl : x = result := List.mem_singleton.mp hx
          rcases hresult with ⟨-, rfl⟩ | ⟨-, n, hends, rfl⟩
          · exact List.mem_cons_self
          · exact absurd (List.mem_append_left done hxg) hends.end_free

/-- The results of the pass differ from one another. -/
theorem uniqueNames_nodup (names : List String) : (uniqueNames names).Nodup :=
  uniqueNames_go_nodup names [] [] (List.Subset.refl names) List.nodup_nil
    (fun _ hx => absurd hx List.not_mem_nil)

/-- On distinct names the pass keeps every one. -/
theorem uniqueNames_go_of_nodup (given : List String) :
    ∀ (names seen done : List String), names.Nodup → (∀ x ∈ names, x ∉ seen) →
      uniqueNames.go given seen done names = done ++ names := by
  intro names
  induction names with
  | nil => intro seen done _ _; exact (List.append_nil done).symm
  | cons name rest ih =>
      intro seen done hnodup hseen
      obtain ⟨hname, hrest⟩ := List.nodup_cons.mp hnodup
      have hcount : seen.count name = 0 :=
        List.count_eq_zero.mpr (hseen name List.mem_cons_self)
      rw [uniqueNames.go, if_pos hcount, ih _ _ hrest ?_, List.append_assoc]
      · rfl
      · intro x hx hxs
        rcases List.mem_cons.mp hxs with rfl | hxs
        · exact hname hx
        · exact hseen x (List.mem_cons_of_mem _ hx) hxs

/-- Distinct names stay as they are. -/
theorem uniqueNames_of_nodup {names : List String} (h : names.Nodup) :
    uniqueNames names = names := by
  unfold uniqueNames
  rw [uniqueNames_go_of_nodup names names [] [] h (fun _ _ => List.not_mem_nil)]
  rfl

/-- A second pass changes nothing. -/
theorem uniqueNames_idem (names : List String) :
    uniqueNames (uniqueNames names) = uniqueNames names :=
  uniqueNames_of_nodup (uniqueNames_nodup names)

/-! ## Position by position -/

/-- Behind a front the pass goes on with the names and results of that front. -/
theorem uniqueNames_go_append (given : List String) :
    ∀ (front seen done rest : List String), uniqueNames.go given seen done (front ++ rest)
      = uniqueNames.go given (front.reverse ++ seen) (uniqueNames.go given seen done front) rest := by
  intro front
  induction front with
  | nil => intro seen done rest; rfl
  | cons name front ih =>
      intro seen done rest
      show uniqueNames.go given (name :: seen) (done ++ [_]) (front ++ rest)
        = uniqueNames.go given _ (uniqueNames.go given (name :: seen) (done ++ [_]) front) rest
      rw [ih, List.reverse_cons, List.append_assoc]
      rfl

/-- Results stay in front of those that follow. -/
theorem uniqueNames_go_prefix (given : List String) :
    ∀ (names seen done : List String), done <+: uniqueNames.go given seen done names := by
  intro names
  induction names with
  | nil => exact fun seen done => List.prefix_refl done
  | cons name rest ih =>
      intro seen done
      obtain ⟨result, hgo, -⟩ := uniqueNames_go_cons given seen done name rest
      rw [hgo]
      exact (List.prefix_append done [result]).trans (ih _ _)

/-- At every position the names that are taken are all given ones and the results in
    front of it. -/
theorem uniqueNames_getElem? {names : List String} {i : Nat} {name : String}
    (h : names[i]? = some name) : ∃ result, (uniqueNames names)[i]? = some result
      ∧ PassesTo (names ++ (uniqueNames names).take i) (names.take i) name result := by
  obtain ⟨hlt, rfl⟩ := List.getElem?_eq_some_iff.mp h
  have hsplit : names = names.take i ++ names[i] :: names.drop (i + 1) := by
    rw [← List.drop_eq_getElem_cons hlt, List.take_append_drop]
  -- the search for one name knows the names before it and what was chosen for them
  generalize hdone : uniqueNames.go names [] [] (names.take i) = done
  have hlength : done.length = i := by
    rw [← hdone, uniqueNames_go_length, List.length_take]
    simp only [List.length_nil]
    omega
  obtain ⟨result, hgo, hpasses⟩ := uniqueNames_go_cons names ((names.take i).reverse ++ []) done
    names[i] (names.drop (i + 1))
  have hfront : done ++ [result] <+: uniqueNames names := by
    have hall : uniqueNames names
        = uniqueNames.go names [] [] (names.take i ++ names[i] :: names.drop (i + 1)) :=
      congrArg (uniqueNames.go names [] []) hsplit
    rw [hall, uniqueNames_go_append, hdone, hgo]
    exact uniqueNames_go_prefix _ _ _ _
  obtain ⟨after, hafter⟩ := hfront
  refine ⟨result, ?_, ?_⟩
  · rw [← hafter, List.append_assoc, List.getElem?_append_right (by omega), hlength, Nat.sub_self]
    rfl
  · have htake : (uniqueNames names).take i = done := by
      rw [← hafter, List.append_assoc, ← hlength, List.take_left]
    rw [htake]
    unfold PassesTo at hpasses ⊢
    rw [List.append_nil, List.mem_reverse, List.count_reverse] at hpasses
    exact hpasses

/-- Names made distinct: as many as were given and no two alike.  The first occurrence of a
    name is kept in its place; for every other one the search for a number, from the count
    of the occurrences before it on, comes to an end, and the entry is the name with that
    number, which is positive and makes it no given name.  A second pass changes nothing. -/
theorem uniqueNames_exact (names : List String) :
    (uniqueNames names).length = names.length
      ∧ (uniqueNames names).Nodup
      ∧ (∀ i name, names[i]? = some name → name ∉ names.take i →
        (uniqueNames names)[i]? = some name)
      ∧ (∀ i name, names[i]? = some name → name ∈ names.take i → ∃ n,
        SearchEnds (numbered name) (names ++ (uniqueNames names).take i)
            ((names.take i).count name) n
          ∧ (uniqueNames names)[i]? = some (numbered name n) ∧ 0 < n ∧ numbered name n ∉ names)
      ∧ uniqueNames (uniqueNames names) = uniqueNames names := by
  refine ⟨uniqueNames_length names, uniqueNames_nodup names, fun i name hname hfirst => ?_,
    fun i name hname hlater => ?_, uniqueNames_idem names⟩
  · obtain ⟨result, hresult, ⟨-, rfl⟩ | ⟨hseen, -⟩⟩ := uniqueNames_getElem? hname
    · exact hresult
    · exact absurd hseen hfirst
  · obtain ⟨result, hresult, ⟨hfirst, -⟩ | ⟨-, n, hends, rfl⟩⟩ := uniqueNames_getElem? hname
    · exact absurd hlater hfirst
    · refine ⟨n, hends, hresult, Nat.lt_of_lt_of_le (List.count_pos_iff.mpr hlater) hends.le, ?_⟩
      exact fun hgiven => hends.end_free (List.mem_append_left _ hgiven)

/-- Numbers that are given already are passed over, and so are those of earlier results. -/
theorem uniqueNames_exact_passedOver :
    uniqueNames ["a", "a", "a_1", "a_1", "a"] = ["a", "a_2", "a_1", "a_1_1", "a_3"]
      ∧ ["a", "a", "a_1", "a_1", "a"][4]? = some "a"
      ∧ ∃ n, SearchEnds (numbered "a") (["a", "a", "a_1", "a_1", "a"] ++ ["a", "a_2", "a_1", "a_1_1"])
          2 n ∧ 0 < n ∧ numbered "a" n ∉ ["a", "a", "a_1", "a_1", "a"] := by
  have hnames : uniqueNames ["a", "a", "a_1", "a_1", "a"] = ["a", "a_2", "a_1", "a_1_1", "a_3"] := by
    decide +kernel
  obtain ⟨n, hends, -, hpos, hnew⟩ :=
    (uniqueNames_exact ["a", "a", "a_1", "a_1", "a"]).2.2.2.1 4 "a" rfl (by decide)
  rw [hnames] at hends
  exact ⟨hnames, rfl, n, hends, hpos, hnew⟩

end QueryReplay
