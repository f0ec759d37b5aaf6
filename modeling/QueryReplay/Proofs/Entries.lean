import Mathlib.Data.List.Induction
import Mathlib.Data.List.Nodup
import QueryReplay.Assoc

/-! # Entries — what is found among named values

    A name that is written again takes a new value in its old place.  So the last
    value that was written under a name is found (`Assoc.lookup_ofList`), and values
    under distinct names stay as they were written (`Assoc.ofList_of_nodup`). -/

namespace QueryReplay.Assoc

variable {β : Type}

/-- A name is found in the first entry or behind it. -/
theorem lookup_cons (name : String) (value : β) (rest : List (String × β)) (key : String) :
    List.lookup key ((name, value) :: rest) = if key = name then some value else rest.lookup key := by
  by_cases h : key = name
  · rw [if_pos h, h, List.lookup_cons_self]
  · rw [if_neg h, List.lookup_cons, beq_false_of_ne h]

/-! ## Writing -/

/-- Writing a value changes what is found under its name, and nothing else. -/
theorem lookup_insert (entries : List (String × β)) (name : String) (value : β) (key : String) :
    (insert entries name value).lookup key
      = if key = name then some value else entries.lookup key := by
  induction entries with
  | nil => exact lookup_cons name value [] key
  | cons entry rest ih =>
      obtain ⟨n, v⟩ := entry
      rw [insert]
      by_cases h : n = name
      · rw [if_pos (beq_iff_eq.mpr h), lookup_cons, lookup_cons, h]
        by_cases hkey : key = name
        · rw [if_pos hkey, if_pos hkey]
        · rw [if_neg hkey, if_neg hkey, if_neg hkey]
      · rw [if_neg (mt beq_iff_eq.mp h), lookup_cons, lookup_cons, ih]
        by_cases hkey : key = n
        · rw [if_pos hkey, if_neg (hkey ▸ h), if_pos hkey]
        · rw [if_neg hkey, if_neg hkey]

/-- A new name is written at the end. -/
theorem insert_of_not_mem {entries : List (String × β)} {name : String}
    (h : name ∉ entries.map Prod.fst) (value : β) :
    insert entries name value = entries ++ [(name, value)] := by
  induction entries with
  | nil => rfl
  | cons entry rest ih =>
      obtain ⟨n, v⟩ := entry
      rw [List.map_cons, List.mem_cons, not_or] at h
      rw [insert, if_neg (by simpa using Ne.symm h.1), ih h.2]
      rfl

/-! ## Writing one after another -/

/-- Of values written under one name the last one is found. -/
theorem lookup_ofList (pairs : List (String × β)) (key : String) :
    (ofList pairs).lookup key = pairs.reverse.lookup key := by
  induction pairs using List.reverseRecOn with
  | nil => rfl
  | append_singleton pairs p ih =>
      have hstep : ofList (pairs ++ [p]) = insert (ofList pairs) p.1 p.2 := by
        unfold ofList insertAll
        rw [List.foldl_append]
        rfl
      rw [hstep, lookup_insert, List.reverse_append, List.reverse_singleton,
        List.singleton_append, lookup_cons, ih]

/-- Values under distinct names stay as they were written. -/
theorem ofList_of_nodup {pairs : List (String × β)} (h : (pairs.map Prod.fst).Nodup) :
    ofList pairs = pairs := by
  have hall : ∀ entries : List (String × β), ((entries ++ pairs).map Prod.fst).Nodup →
      insertAll entries pairs = entries ++ pairs := by
    clear h
    induction pairs with
    | nil => exact fun entries _ => (List.append_nil entries).symm
    | cons pair rest ih =>
        intro entries h
        have hnew : pair.1 ∉ entries.map Prod.fst := by
          rw [List.map_append, List.map_cons, List.nodup_append] at h
          exact fun hmem => h.2.2 pair.1 hmem pair.1 List.mem_cons_self rfl
        have hstep : insertAll entries (pair :: rest)
            = insertAll (insert entries pair.1 pair.2) rest := rfl
        rw [List.append_cons] at h ⊢
        rw [hstep, insert_of_not_mem hnew]
        exact ih _ h
  exact hall [] h

/-- What a function writes under the names that another one gives is found there again, if
    the latter gives different names to different things. -/
theorem lookup_ofList_map {α : Type} {f : α → String} (hinj : Function.Injective f) (g : α → β)
    {things : List α} {x : α} (h : x ∈ things) :
    (ofList (things.map fun y => (f y, g y))).lookup (f x) = some (g x) := by
  rw [lookup_ofList, ← List.map_reverse]
  rw [← List.mem_reverse] at h
  generalize things.reverse = written at h ⊢
  induction written with
  | nil => exact absurd h List.not_mem_nil
  | cons y ys ih =>
      rw [List.map_cons, lookup_cons]
      by_cases hxy : f x = f y
      · rw [if_pos hxy, hinj hxy]
      · rw [if_neg hxy]
        exact ih ((List.mem_cons.mp h).resolve_left fun heq => hxy (congrArg f heq))

end QueryReplay.Assoc
