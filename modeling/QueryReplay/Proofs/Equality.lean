import Mathlib.Data.List.Forall2
import Mathlib.Data.List.Perm.Subperm
import QueryReplay.Table.Equality

/-! # Equality of cells — an equivalence of rows

    Rows are matched by the values of their cells, numbers by magnitude and all else by
    structure.  For matching one row at a time to be a matter of counting, equality has to be
    symmetric and transitive.  The route:

    * values are taken apart by one principle of induction, in which the items of a list and
      the members of an object are told by membership (`Json.ind`);
    * equality of lists is equality item by item, and equality of objects goes by name
      (`sameItems_iff`, `sameMembers_iff`);
    * objects of equal length that agree by name agree the other way round, if the first one
      names each member once (`same_symm`). -/

namespace QueryReplay

/-! ## Lists item by item -/

section Forall₂

variable {α : Type} {R : α → α → Prop} {as bs cs : List α}

/-- What is transitive from each item of the first list on is so of the lists. -/
theorem forall₂_trans (h : ∀ a ∈ as, ∀ b c, R a b → R b c → R a c) (hab : List.Forall₂ R as bs)
    (hbc : List.Forall₂ R bs cs) : List.Forall₂ R as cs := by
  induction hab generalizing cs with
  | nil => exact hbc
  | cons hfirst _ ih =>
      cases hbc with
      | cons hnext hrest =>
          refine .cons (h _ List.mem_cons_self _ _ hfirst hnext) (ih (fun a ha => ?_) hrest)
          exact h a (List.mem_cons_of_mem _ ha)

/-- What goes the other way round from each item of the first list does so for the lists. -/
theorem forall₂_symm (h : ∀ a ∈ as, ∀ b, R a b → R b a) (hab : List.Forall₂ R as bs) :
    List.Forall₂ R bs as := by
  induction hab with
  | nil => exact .nil
  | cons hfirst _ ih =>
      refine .cons (h _ List.mem_cons_self _ hfirst) (ih fun a ha => ?_)
      exact h a (List.mem_cons_of_mem _ ha)

end Forall₂

/-! ## Entries by key -/

section Lookup

variable {α β : Type} [BEq α] [LawfulBEq α] {l l' : List (α × β)} {a : α} {b : β}

/-- What is found by a key is an entry of that key. -/
theorem mem_of_lookup (h : l.lookup a = some b) : (a, b) ∈ l := by
  obtain ⟨before, after, rfl, -⟩ := List.lookup_eq_some_iff.mp h
  exact List.mem_append_right _ List.mem_cons_self

/-- Under keys that differ, each entry is found by its key. -/
theorem lookup_of_mem (h : (l.map Prod.fst).Nodup) {m : α × β} (hm : m ∈ l) :
    l.lookup m.1 = some m.2 := by
  obtain ⟨before, after, rfl⟩ := List.append_of_mem hm
  refine List.lookup_eq_some_iff.mpr ⟨before, after, rfl, fun n hn => bne_iff_ne.mpr fun heq => ?_⟩
  rw [List.map_append, List.map_cons] at h
  exact (List.nodup_append.mp h).2.2 n.1 (List.mem_map_of_mem hn) m.1 List.mem_cons_self heq.symm

/-- Under keys that differ, the order of the entries does not matter. -/
theorem lookup_perm (hperm : l'.Perm l) (h : (l.map Prod.fst).Nodup) (a : α) :
    l'.lookup a = l.lookup a := by
  have h' : (l'.map Prod.fst).Nodup := (hperm.map Prod.fst).nodup_iff.mpr h
  refine Option.ext fun b => ⟨fun hb => ?_, fun hb => ?_⟩
  · exact lookup_of_mem h (hperm.mem_iff.mp (mem_of_lookup hb))
  · exact lookup_of_mem h' (hperm.mem_iff.mpr (mem_of_lookup hb))

end Lookup

/-! ## Numbers -/

namespace Double

/-- A finite double is a number. -/
theorem isNaN_of_isFinite {x : Double} (h : x.isFinite = true) : x.isNaN = false := by
  rw [isNaN, Bool.and_eq_false_iff]
  exact Or.inl (Bool.not_eq_true' _ ▸ h)

/-- Doubles are equal if they are numbers with the same bits, or zeros of either sign. -/
theorem equals_iff {x y : Double} : x.equals y = true
    ↔ x.isNaN = false ∧ y.isNaN = false
      ∧ (x.bits = y.bits ∨ x.isZero = true ∧ y.isZero = true) := by
  simp [equals, and_assoc]

theorem equals_symm {x y : Double} (h : x.equals y = true) : y.equals x = true := by
  obtain ⟨hx, hy, heq⟩ := equals_iff.mp h
  exact equals_iff.mpr ⟨hy, hx, heq.imp Eq.symm And.symm⟩

theorem equals_trans {x y z : Double} (hxy : x.equals y = true) (hyz : y.equals z = true) :
    x.equals z = true := by
  obtain ⟨hx, -, heq⟩ := equals_iff.mp hxy
  obtain ⟨-, hz, heq'⟩ := equals_iff.mp hyz
  have hzero : ∀ {u v : Double}, u.bits = v.bits → u.isZero = v.isZero := by
    intro u v huv
    unfold isZero
    rw [huv]
  refine equals_iff.mpr ⟨hx, hz, ?_⟩
  rcases heq with hbits | ⟨hx0, hy0⟩
  · rcases heq' with hbits' | ⟨hy0, hz0⟩
    · exact .inl (hbits.trans hbits')
    · exact .inr ⟨(hzero hbits).trans hy0, hz0⟩
  · rcases heq' with hbits' | ⟨-, hz0⟩
    · exact .inr ⟨hx0, (hzero hbits').symm.trans hy0⟩
    · exact .inr ⟨hx0, hz0⟩

end Double

namespace Json

/-! ## Values taken apart -/

/-- A property of values is proved for lists and objects from what they hold. -/
theorem ind {P : Json → Prop} (null : P .null) (bool : ∀ b, P (.bool b))
    (number : ∀ n, P (.number n)) (string : ∀ s, P (.string s))
    (array : ∀ items, (∀ j ∈ items, P j) → P (.array items))
    (object : ∀ ms : Members, (∀ m ∈ ms, P m.2) → P (.object ms)) : ∀ j, P j
  | .null => null
  | .bool b => bool b
  | .number n => number n
  | .string s => string s
  | .array items => array items fun j _ => ind null bool number string array object j
  | .object ms => object ms fun m _ => ind null bool number string array object m.2
termination_by j => sizeOf j
decreasing_by
  · rename_i h
    have := List.sizeOf_lt_of_mem h
    simp only [Json.array.sizeOf_spec]
    omega
  · rename_i h
    have := List.sizeOf_lt_of_mem h
    obtain ⟨name, j⟩ := m
    simp only [Json.object.sizeOf_spec, Prod.mk.sizeOf_spec] at this ⊢
    omega

mutual

/-- Whether every object in a value names each of its members once. -/
def namesOnce : Json → Bool
  | .array items => itemsNameOnce items
  | .object ms => decide (ms.map Prod.fst).Nodup && membersNameOnce ms
  | _ => true

def itemsNameOnce : List Json → Bool
  | [] => true
  | j :: rest => j.namesOnce && itemsNameOnce rest

def membersNameOnce : List (String × Json) → Bool
  | [] => true
  | (_, j) :: rest => j.namesOnce && membersNameOnce rest

end

/-- All items name their members once. -/
theorem itemsNameOnce_iff {items : List Json} :
    itemsNameOnce items = true ↔ ∀ j ∈ items, j.namesOnce = true := by
  induction items with
  | nil => simp [itemsNameOnce]
  | cons j rest ih => simp [itemsNameOnce, ih]

/-- So do the values of all members. -/
theorem membersNameOnce_iff {ms : Members} :
    membersNameOnce ms = true ↔ ∀ m ∈ ms, m.2.namesOnce = true := by
  induction ms with
  | nil => simp [membersNameOnce]
  | cons m rest ih => simp [membersNameOnce, ih]

/-! ## Equality by structure -/

/-- Lists are the same if they are so item by item. -/
theorem sameItems_iff {as bs : List Json} :
    sameItems as bs = true ↔ List.Forall₂ (fun a b => same a b = true) as bs := by
  induction as generalizing bs with
  | nil =>
      cases bs with
      | nil => exact iff_of_true rfl .nil
      | cons b bs => exact iff_of_false Bool.false_ne_true nofun
  | cons a as ih =>
      cases bs with
      | nil => exact iff_of_false Bool.false_ne_true nofun
      | cons b bs =>
          show (same a b && sameItems as bs) = true ↔ _
          rw [Bool.and_eq_true, ih, List.forall₂_cons]

/-- Objects are compared by name, whatever the order of their members. -/
theorem sameMembers_iff {ms ns : Members} : sameMembers ms ns = true
    ↔ ∀ m ∈ ms, ∃ b, List.lookup m.1 ns = some b ∧ same m.2 b = true := by
  induction ms with
  | nil => exact iff_of_true rfl nofun
  | cons m ms ih =>
      obtain ⟨name, a⟩ := m
      rw [sameMembers, Bool.and_eq_true, ih, List.forall_mem_cons]
      refine and_congr_left fun _ => ?_
      cases List.lookup name ns <;> simp

namespace Number

theorem same_symm {m n : Json.Number} (h : m.same n = true) : n.same m = true := by
  cases m with
  | int k =>
      cases n with
      | int l =>
          have hkl : (k == l) = true := h
          exact beq_iff_eq.mpr (beq_iff_eq.mp hkl).symm
      | float y => exact absurd h Bool.false_ne_true
  | float x =>
      cases n with
      | int l => exact absurd h Bool.false_ne_true
      | float y => exact Double.equals_symm h

theorem same_trans {k m n : Json.Number} (hkm : k.same m = true) (hmn : m.same n = true) :
    k.same n = true := by
  cases k with
  | int a =>
      cases m with
      | int b =>
          have hab : (a == b) = true := hkm
          exact beq_iff_eq.mp hab ▸ hmn
      | float y => exact absurd hkm Bool.false_ne_true
  | float x =>
      cases m with
      | int b => exact absurd hkm Bool.false_ne_true
      | float y =>
          cases n with
          | int c => exact absurd hmn Bool.false_ne_true
          | float z => exact Double.equals_trans hkm hmn

end Number

/-! What equals a value of each kind. -/

/-- Only null is the same as null. -/
theorem same_null_iff {j : Json} : same .null j = true ↔ j = .null := by
  cases j with
  | null => exact iff_of_true rfl rfl
  | _ => exact iff_of_false Bool.false_ne_true nofun

theorem same_bool_iff {b : Bool} {j : Json} : same (.bool b) j = true ↔ j = .bool b := by
  cases j with
  | bool c =>
      show (b == c) = true ↔ _
      rw [beq_iff_eq, Json.bool.injEq, eq_comm]
  | _ => exact iff_of_false Bool.false_ne_true nofun

theorem same_string_iff {s : String} {j : Json} : same (.string s) j = true ↔ j = .string s := by
  cases j with
  | string t =>
      show (s == t) = true ↔ _
      rw [beq_iff_eq, Json.string.injEq, eq_comm]
  | _ => exact iff_of_false Bool.false_ne_true nofun

/-- A number is the same as a number only, an integer or a double. -/
theorem same_number_iff {m : Json.Number} {j : Json} :
    same (.number m) j = true ↔ ∃ n, j = .number n ∧ m.same n = true := by
  cases j with
  | number n => exact ⟨fun h => ⟨n, rfl, h⟩, fun ⟨_, hn, h⟩ => Json.number.inj hn ▸ h⟩
  | _ => exact iff_of_false Bool.false_ne_true nofun

/-- A list is the same as a list of the same length only. -/
theorem same_array_iff {as : List Json} {j : Json} : same (.array as) j = true
    ↔ ∃ bs, j = .array bs ∧ List.Forall₂ (fun a b => same a b = true) as bs := by
  cases j with
  | array bs =>
      refine sameItems_iff.trans ⟨fun h => ⟨bs, rfl, h⟩, ?_⟩
      rintro ⟨_, hbs, h⟩
      exact Json.array.inj hbs ▸ h
  | _ => exact iff_of_false Bool.false_ne_true nofun

/-- An object is the same as an object with as many members only. -/
theorem same_object_iff {ms : Members} {j : Json} : same (.object ms) j = true
    ↔ ∃ ns : Members, j = .object ns ∧ ms.length = ns.length
      ∧ ∀ m ∈ ms, ∃ b, List.lookup m.1 ns = some b ∧ same m.2 b = true := by
  cases j with
  | object ns =>
      show (ms.length == ns.length && sameMembers ms ns) = true ↔ _
      rw [Bool.and_eq_true, beq_iff_eq, sameMembers_iff]
      refine ⟨fun h => ⟨ns, rfl, h⟩, ?_⟩
      rintro ⟨_, hns, h⟩
      exact Json.object.inj hns ▸ h
  | _ => exact iff_of_false Bool.false_ne_true nofun

theorem same_trans (a : Json) :
    ∀ {b c : Json}, same a b = true → same b c = true → same a c = true := by
  induction a using ind with
  | null =>
      intro b c hab hbc
      rw [same_null_iff.mp hab] at hbc
      exact hbc
  | bool a =>
      intro b c hab hbc
      rw [same_bool_iff.mp hab] at hbc
      exact hbc
  | string a =>
      intro b c hab hbc
      rw [same_string_iff.mp hab] at hbc
      exact hbc
  | number k =>
      intro b c hab hbc
      obtain ⟨m, rfl, hkm⟩ := same_number_iff.mp hab
      obtain ⟨n, rfl, hmn⟩ := same_number_iff.mp hbc
      exact same_number_iff.mpr ⟨n, rfl, Number.same_trans hkm hmn⟩
  | array as ih =>
      intro b c hab hbc
      obtain ⟨bs, rfl, hbs⟩ := same_array_iff.mp hab
      obtain ⟨cs, rfl, hcs⟩ := same_array_iff.mp hbc
      exact same_array_iff.mpr ⟨cs, rfl, forall₂_trans (fun a ha _ _ => ih a ha) hbs hcs⟩
  | object ms ih =>
      intro b c hab hbc
      obtain ⟨ns, rfl, hlength, hns⟩ := same_object_iff.mp hab
      obtain ⟨ks, rfl, hlength', hks⟩ := same_object_iff.mp hbc
      refine same_object_iff.mpr ⟨ks, rfl, hlength.trans hlength', fun m hm => ?_⟩
      obtain ⟨b, hb, hmb⟩ := hns m hm
      obtain ⟨c, hc, hbc⟩ := hks _ (mem_of_lookup hb)
      exact ⟨c, hc, ih m hm hmb hbc⟩

/-- Equality goes the other way round from a value whose objects name each member once. -/
theorem same_symm (a : Json) :
    ∀ {b : Json}, a.namesOnce = true → same a b = true → same b a = true := by
  induction a using ind with
  | null =>
      intro b _ hab
      exact same_null_iff.mp hab ▸ same_null_iff.mpr rfl
  | bool a =>
      intro b _ hab
      exact same_bool_iff.mp hab ▸ same_bool_iff.mpr rfl
  | string a =>
      intro b _ hab
      exact same_string_iff.mp hab ▸ same_string_iff.mpr rfl
  | number m =>
      intro b _ hab
      obtain ⟨n, rfl, hmn⟩ := same_number_iff.mp hab
      exact same_number_iff.mpr ⟨m, rfl, Number.same_symm hmn⟩
  | array as ih =>
      intro b hnames hab
      obtain ⟨bs, rfl, hbs⟩ := same_array_iff.mp hab
      have hnames := itemsNameOnce_iff.mp hnames
      exact same_array_iff.mpr ⟨as, rfl, forall₂_symm (fun a ha _ => ih a ha (hnames a ha)) hbs⟩
  | object ms ih =>
      intro b hnames hab
      obtain ⟨ns, rfl, hlength, hns⟩ := same_object_iff.mp hab
      rw [namesOnce, Bool.and_eq_true, decide_eq_true_iff, membersNameOnce_iff] at hnames
      obtain ⟨hnodup, hnames⟩ := hnames
      -- all names of the first object are names of the second, which has no room for others
      have hsub : ms.map Prod.fst ⊆ ns.map Prod.fst := by
        intro name hname
        obtain ⟨m, hm, rfl⟩ := List.mem_map.mp hname
        obtain ⟨b, hb, -⟩ := hns m hm
        exact List.mem_map.mpr ⟨_, mem_of_lookup hb, rfl⟩
      have hperm : (ms.map Prod.fst).Perm (ns.map Prod.fst) := by
        refine (List.subperm_of_subset hnodup hsub).perm_of_length_le ?_
        rw [List.length_map, List.length_map]
        exact Nat.le_of_eq hlength.symm
      refine same_object_iff.mpr ⟨ms, rfl, hlength.symm, fun n hn => ?_⟩
      obtain ⟨m, hm, hname⟩ := List.mem_map.mp (hperm.mem_iff.mpr (List.mem_map_of_mem hn))
      obtain ⟨b, hb, hmb⟩ := hns m hm
      rw [hname, lookup_of_mem (hperm.nodup_iff.mp hnodup) hn] at hb
      obtain rfl := Option.some.inj hb
      exact ⟨m.2, hname ▸ lookup_of_mem hnodup hm, ih m hm (hnames m hm) hmb⟩

end Json

/-! ## Cells and rows -/

/-- What equals a number is a number of its magnitude. -/
theorem valuesEqual_number_iff {m : Json.Number} {b : Json} : valuesEqual (.number m) b = true
    ↔ ∃ n, b = .number n ∧ m.toDouble.equals n.toDouble = true := by
  cases b with
  | number n => exact ⟨fun h => ⟨n, rfl, h⟩, fun ⟨_, hn, h⟩ => Json.number.inj hn ▸ h⟩
  | _ => exact iff_of_false Bool.false_ne_true nofun

/-- Any other value equals what is the same by structure, which is no number either. -/
theorem valuesEqual_other_iff {a b : Json} (h : ∀ m, a ≠ .number m) :
    valuesEqual a b = true ↔ a.same b = true ∧ ∀ n, b ≠ .number n := by
  have hother : valuesEqual a b = a.same b := by
    cases a with
    | number m => exact absurd rfl (h m)
    | _ => rfl
  rw [hother]
  refine ⟨fun hab => ⟨hab, ?_⟩, And.left⟩
  rintro n rfl
  cases a with
  | number m => exact h m rfl
  | _ => exact Bool.false_ne_true hab

/-- So is the equality of values. -/
theorem valuesEqual_trans {a b c : Json} (hab : valuesEqual a b = true)
    (hbc : valuesEqual b c = true) : valuesEqual a c = true := by
  by_cases hnumber : ∃ m, a = .number m
  · obtain ⟨m, rfl⟩ := hnumber
    obtain ⟨n, rfl, hmn⟩ := valuesEqual_number_iff.mp hab
    obtain ⟨k, rfl, hnk⟩ := valuesEqual_number_iff.mp hbc
    exact valuesEqual_number_iff.mpr ⟨k, rfl, Double.equals_trans hmn hnk⟩
  · have ha : ∀ m, a ≠ .number m := fun m heq => hnumber ⟨m, heq⟩
    obtain ⟨hab, hb⟩ := (valuesEqual_other_iff ha).mp hab
    obtain ⟨hbc, hc⟩ := (valuesEqual_other_iff hb).mp hbc
    exact (valuesEqual_other_iff ha).mpr ⟨a.same_trans hab hbc, hc⟩

/-- Equality of cells goes the other way round from one whose objects name each member once. -/
theorem valuesEqual_symm {a b : Json} (hnames : a.namesOnce = true) (hab : valuesEqual a b = true) :
    valuesEqual b a = true := by
  by_cases hnumber : ∃ m, a = .number m
  · obtain ⟨m, rfl⟩ := hnumber
    obtain ⟨n, rfl, hmn⟩ := valuesEqual_number_iff.mp hab
    exact valuesEqual_number_iff.mpr ⟨m, rfl, Double.equals_symm hmn⟩
  · have ha : ∀ m, a ≠ .number m := fun m heq => hnumber ⟨m, heq⟩
    obtain ⟨hab, hb⟩ := (valuesEqual_other_iff ha).mp hab
    exact (valuesEqual_other_iff hb).mpr ⟨a.same_symm hnames hab, ha⟩

/-- Rows are equal if they are so cell by cell. -/
theorem cellsEqual_iff {as bs : List Json} :
    cellsEqual as bs = true ↔ List.Forall₂ (fun a b => valuesEqual a b = true) as bs := by
  induction as generalizing bs with
  | nil => cases bs <;> simp [cellsEqual]
  | cons a as ih => cases bs <;> simp [cellsEqual, ih]

/-- Equality of rows is transitive, whatever the cells. -/
theorem cellsEqual_trans {as bs cs : List Json} (hab : cellsEqual as bs = true)
    (hbc : cellsEqual bs cs = true) : cellsEqual as cs = true :=
  cellsEqual_iff.mpr (forall₂_trans (fun _ _ _ _ => valuesEqual_trans)
    (cellsEqual_iff.mp hab) (cellsEqual_iff.mp hbc))

/-- Equality of rows goes the other way round from one whose objects name each member once. -/
theorem cellsEqual_symm {as bs : List Json} (hnames : ∀ a ∈ as, a.namesOnce = true)
    (hab : cellsEqual as bs = true) : cellsEqual bs as = true :=
  cellsEqual_iff.mpr (forall₂_symm (fun a ha _ => valuesEqual_symm (hnames a ha))
    (cellsEqual_iff.mp hab))

end QueryReplay
