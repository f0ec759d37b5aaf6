import QueryReplay.Proofs.RowIndices
import QueryReplay.Replay.Step.Codec

/-! # Step documents — reading back what was written

    A document leaves the row identities of its snapshots out, and writes every index
    as an integer of 64 bits.  A value with nothing of the first and only indices of the
    second is *plain*.  The route:

    * what a record reader gives is plain (`Gives`), whatever the document: absent
      members, nulls, fields by position, members beyond those asked for;
    * a reader gives back what its writer wrote, without the identities, once the
      indices fit (`snapshot_reads_back`, and one lemma per record);
    * a plain value has no identities to lose, so what was read once is read again
      (`steps_read_back`).

    The time of a run is a number, which a document may hold as an integer: integers of
    64 bits round to finite doubles (`ofInt_isFinite`). -/

namespace QueryReplay

-- powers are the core library's, also beside the instances that Mathlib declares
attribute [local instance (high)] instPowNat

/-! ## Rounding integers -/

/-- Rounding goes up by one at most. -/
theorem divNearestEven_le (num den : Nat) : divNearestEven num den ≤ num / den + 1 := by
  simp only [divNearestEven]
  split <;> [skip; split <;> [skip; split]] <;> omega

/-- A number of `p` bits counted in units of `2^e` has no more than `p - e` bits. -/
theorem scaleRatio_lt {n p k : Nat} {e : Int} (hn : n < 2 ^ p) (h : (p : Int) - e ≤ k) :
    (scaleRatio n 1 e).1 / (scaleRatio n 1 e).2 < 2 ^ k := by
  match e with
  | .ofNat j =>
      simp only [scaleRatio, Int.ofNat_eq_natCast] at h ⊢
      rw [Nat.one_mul]
      refine Nat.div_lt_of_lt_mul (lt_of_lt_of_le hn ?_)
      rw [← Nat.pow_add]
      exact Nat.pow_le_pow_right (by omega) (by omega)
  | .negSucc j =>
      simp only [scaleRatio, Nat.div_one] at h ⊢
      calc n * 2 ^ (j + 1) < 2 ^ p * 2 ^ (j + 1) :=
            (Nat.mul_lt_mul_right (Nat.two_pow_pos _)).mpr hn
        _ = 2 ^ (p + (j + 1)) := (Nat.pow_add ..).symm
        _ ≤ 2 ^ k := Nat.pow_le_pow_right (by omega) (by omega)

/-- The unit of an integer of `p` bits has about `p - 53` of them below it. -/
theorem unitExponent_bounds (n : Nat) :
    (n.log2 : Int) - 53 ≤ FloatFormat.double.unitExponent n 1 ∧
      FloatFormat.double.unitExponent n 1 ≤ (n.log2 : Int) := by
  have hone : Nat.log2 1 = 0 := by decide
  simp only [FloatFormat.unitExponent, FloatFormat.double, hone]
  split <;> constructor <;> omega

namespace Double

/-- Parts below the reserved exponent make a finite double. -/
theorem ofParts_isFinite (negative : Bool) {a : Nat} (h : a < 2047 * 2 ^ (52 : Nat)) :
    (ofParts negative a).isFinite := by
  simp only [isFinite, exponentField, ofParts, UInt64.toNat_ofNat', bne_iff_ne]
  cases negative <;> simp only [Bool.false_eq_true, if_true, if_false] <;> omega

/-- An integer far below the largest double rounds to a finite one. -/
theorem ofInt_isFinite {n : Int} (h : n.natAbs < 2 ^ (200 : Nat)) : (ofInt n).isFinite := by
  refine ofParts_isFinite _ ?_
  have hlog : n.natAbs.log2 < 200 := by
    by_cases hz : n.natAbs = 0
    · rw [hz]; decide
    · exact (Nat.log2_lt hz).mpr h
  obtain ⟨hlow, hhigh⟩ := unitExponent_bounds n.natAbs
  have hmantissa : (FloatFormat.double.round n.natAbs 1).mantissa ≤ 2 ^ (54 : Nat) := by
    refine (divNearestEven_le _ _).trans (Nat.succ_le_of_lt (scaleRatio_lt Nat.lt_log2_self ?_))
    push_cast
    omega
  have hexponent : (FloatFormat.double.round n.natAbs 1).exponent
      = FloatFormat.double.unitExponent n.natAbs 1 := rfl
  simp only [encodeMagnitude]
  split <;> omega

end Double

/-! ## Documents -/

namespace Json

/-- The integers are those of 64 bits, with a sign or without, and the doubles finite. -/
def Number.inRange : Json.Number → Bool
  | .int n => -2 ^ (63 : Nat) ≤ n && n < 2 ^ (64 : Nat)
  | .float x => x.isFinite

/-- A finite double is written as itself. -/
theorem double?_float {x : Double} (h : x.isFinite) : (float x).double? = some x := by
  rw [float, if_pos h]
  rfl

/-- A number of a document is a finite double once its integers have 64 bits. -/
theorem Number.toDouble_isFinite {n : Json.Number} (h : n.inRange) : n.toDouble.isFinite := by
  cases n with
  | float x => exact h
  | int n =>
      simp only [Number.inRange, Bool.and_eq_true, decide_eq_true_eq] at h
      refine Double.ofInt_isFinite (Nat.lt_of_le_of_lt (m := 2 ^ (64 : Nat)) (by omega) ?_)
      exact Nat.pow_lt_pow_right (by omega) (by omega)

mutual

/-- Whether all numbers of a document are in range. -/
def numbersInRange : Json → Bool
  | .number n => n.inRange
  | .array items => itemsInRange items
  | .object ms => membersInRange ms
  | _ => true

def itemsInRange : List Json → Bool
  | [] => true
  | j :: rest => j.numbersInRange && itemsInRange rest

def membersInRange : List (String × Json) → Bool
  | [] => true
  | (_, j) :: rest => j.numbersInRange && membersInRange rest

end

/-- Whatever `f` reads from a document satisfies `P`. -/
def Gives {α : Type} (f : Json → Option α) (P : α → Prop) : Prop := ∀ j a, f j = some a → P a

/-- Whether all indices are such as 64 bits hold. -/
def Fit (is : List Nat) : Prop := ∀ i ∈ is, i < 2 ^ (64 : Nat)

instance (is : List Nat) : Decidable (Fit is) :=
  inferInstanceAs (Decidable (∀ i ∈ is, i < 2 ^ (64 : Nat)))

@[simp] theorem fit_nil : Fit [] := nofun

@[simp] theorem fit_append {is js : List Nat} : Fit (is ++ js) ↔ Fit is ∧ Fit js := by
  simp only [Fit, List.mem_append, or_imp, forall_and]

@[simp] theorem fit_flatMap {α : Type} {f : α → List Nat} {as : List α} :
    Fit (as.flatMap f) ↔ ∀ a ∈ as, Fit (f a) := by
  simp only [Fit, List.mem_flatMap]
  exact ⟨fun h a ha i hi => h i ⟨a, ha, hi⟩, fun h i ⟨a, ha, hi⟩ => h a ha i hi⟩

theorem nat64?_nat {n : Nat} (h : n < 2 ^ (64 : Nat)) : (nat n).nat64? = some n := by
  simp only [nat, int, nat64?]
  rw [if_pos (by simp only [Bool.and_eq_true, decide_eq_true_eq]; omega)]
  rfl

/-- What is read as an index has 64 bits. -/
theorem nat64?_gives : Gives nat64? (· < 2 ^ (64 : Nat)) := by
  intro j n h
  match j with
  | .number (.int m) =>
      simp only [nat64?, Option.ite_none_right_eq_some, Bool.and_eq_true, decide_eq_true_eq,
        Option.some.injEq] at h
      omega

section Lists

variable {α β : Type} {f : α → Json} {g : Json → Option β}

/-- A list is read back when its members are. -/
theorem listOf?_list {h : α → β} {as : List α} (hread : ∀ a ∈ as, g (f a) = some (h a)) :
    (list f as).listOf? g = some (as.map h) := by
  simp only [list, listOf?, array?, Option.bind_some]
  induction as with
  | nil => rfl
  | cons a rest ih =>
      rw [List.map_cons, List.mapM_cons, hread a List.mem_cons_self,
        ih fun b hb => hread b (List.mem_cons_of_mem a hb)]
      rfl

/-- A list is read back when each of its elements is. -/
theorem listOf?_list_self {f : α → Json} {g : Json → Option α} {as : List α}
    (hread : ∀ a ∈ as, g (f a) = some a) : (list f as).listOf? g = some as := by
  rw [listOf?_list (h := id) hread, List.map_id]

/-- Whatever is read as a list has what its members have. -/
theorem listOf?_gives {P : β → Prop} (hg : Gives g P) :
    Gives (listOf? g) fun bs => ∀ b ∈ bs, P b := by
  intro j bs h
  obtain ⟨items, -, hitems⟩ := Option.bind_eq_some_iff.mp h
  clear h
  induction items generalizing bs with
  | nil =>
      cases hitems
      exact nofun
  | cons item rest ih =>
      simp only [List.mapM_cons, Option.bind_eq_bind, Option.bind_eq_some_iff, Option.pure_def,
        Option.some.injEq] at hitems
      obtain ⟨b, hb, others, hothers, rfl⟩ := hitems
      exact List.forall_mem_cons.mpr ⟨hg item b hb, ih others hothers⟩

end Lists

theorem listOf?_strings (ss : List String) : (strings ss).listOf? string? = some ss :=
  listOf?_list_self fun _ _ => rfl

/-- Lists of indices are read back when the indices fit. -/
theorem listOf?_nats {ns : List Nat} (h : Fit ns) : (nats ns).listOf? nat64? = some ns :=
  listOf?_list_self fun n hn => nat64?_nat (h n hn)

/-- Lists of indices that were read fit. -/
theorem nats_gives : Gives (listOf? nat64?) Fit := listOf?_gives nat64?_gives

/-- So it is with pairs of indices. -/
theorem pairOf?_pairToJson {p : Nat × Nat} (h : Fit [p.1, p.2]) :
    pairOf? nat64? nat64? (pairToJson p) = some p := by
  have hfst := nat64?_nat (h p.1 (by simp))
  have hsnd := nat64?_nat (h p.2 (by simp))
  simp only [pairToJson, nats, List.map_cons, List.map_nil, pairOf?, hfst, hsnd]
  rfl

/-- A pair of indices read from a document fits the width of an index. -/
theorem pairOf?_gives : Gives (pairOf? nat64? nat64?) fun p => Fit [p.1, p.2] := by
  intro j p h
  match j with
  | .array [a, b] =>
      simp only [pairOf?, Option.bind_eq_bind, Option.bind_eq_some_iff, Option.pure_def,
        Option.some.injEq] at h
      obtain ⟨m, hm, n, hn, rfl⟩ := h
      simp only [Fit, List.forall_mem_cons]
      exact ⟨nat64?_gives a m hm, nat64?_gives b n hn, nofun⟩

/-! ### Fields -/

namespace Members

@[simp] theorem get?_cons (n : String) (j : Json) (ms : Members) (name : String) :
    get? ((n, j) :: ms) name = if name == n then some j else get? ms name := by
  rw [get?, List.lookup_cons]
  cases name == n <;> rfl

@[simp] theorem get?_nil (name : String) : get? [] name = none := rfl

@[simp] theorem get?_append (ms ns : Members) (name : String) :
    get? (ms ++ ns) name = (get? ms name).or (get? ns name) := List.lookup_append

@[simp] theorem get?_optMember (n : String) (j? : Option Json) (name : String) :
    get? (optMember n j?) name = if name == n then j? else none := by
  cases j? with
  | none => simp [optMember]
  | some j => exact get?_cons n j [] name

end Members

namespace Fields

variable {α : Type} {f : Json → Option α} {P : α → Prop} {fields : Fields} {position : Nat}
  {name : String}

@[simp] theorem ofJson?_object (count : Nat) (ms : Members) :
    Fields.ofJson? count (.object ms) = some (named ms) := rfl

/-- A required member of an object is the member of that name, if it can be read. -/
@[simp] theorem required_named (ms : Members) :
    (named ms).required position name f = (Members.get? ms name).bind f := rfl

/-- A member that may be left out is read back when its values are not null. -/
theorem nullable_of_get? {g : α → Json} {a? : Option α} {ms : Members}
    (hfound : Members.get? ms name = a?.map g) (hread : ∀ a ∈ a?, f (g a) = some a)
    (hnull : ∀ a, (g a).isNull = false) : (named ms).nullable position name f = some a? := by
  simp only [nullable, Members.getD, hfound]
  cases a? with
  | none => rfl
  | some a => simp [hnull a, hread a rfl]

/-- A member that must be there. -/
theorem required_gives (hf : Gives f P) {a : α} (h : fields.required position name f = some a) :
    P a := by
  cases fields with
  | named ms =>
      obtain ⟨j, -, hj⟩ := Option.bind_eq_some_iff.mp h
      exact hf j a hj
  | positional items =>
      obtain ⟨j, -, hj⟩ := Option.bind_eq_some_iff.mp h
      exact hf j a hj

/-- A member that may be null or missing. -/
theorem nullable_gives (hf : Gives f P) {a? : Option α}
    (h : fields.nullable position name f = some a?) : ∀ a ∈ a?, P a := by
  have hread : ∀ j : Json, (if j.isNull then some none else (f j).map some) = some a? →
      ∀ a ∈ a?, P a := by
    intro j hj a ha
    split at hj
    · cases hj
      cases ha
    · obtain ⟨b, hb, rfl⟩ := Option.map_eq_some_iff.mp hj
      exact hf j a (hb.trans ha)
  cases fields with
  | named ms => exact hread _ h
  | positional items =>
      obtain ⟨j, -, hj⟩ := Option.bind_eq_some_iff.mp h
      exact hread j hj

/-- A member that is replaced by a standard value. -/
theorem defaulted_gives (hf : Gives f P) {value a : α} (hvalue : P value)
    (h : fields.defaulted position name f value = some a) : P a := by
  simp only [defaulted] at h
  split at h
  · exact hf _ a h
  · cases h
    exact hvalue

end Fields

end Json

open Json (Gives Fit Fields)

/-! ## Snapshots -/

namespace IndexSet

/-- A set of indices is told by its members in order. -/
theorem ofList_toList (s : IndexSet) : ofList s.toList = s :=
  ext_toList (toList_insertAll s.increasing)

theorem ofJson?_toJson {s : IndexSet} (h : Fit s.toList) : ofJson? s.toJson = some s := by
  rw [ofJson?, toJson, Json.listOf?_nats h, Option.map_some, ofList_toList]

theorem ofJson?_gives : Gives ofJson? fun s => Fit s.toList := by
  intro j s h
  obtain ⟨is, his, rfl⟩ := Option.map_eq_some_iff.mp h
  exact fun i hi => Json.nats_gives j is his i (mem_ofList.mp hi)

/-- There is one empty set of indices, so a set that is left out is read back. -/
theorem eq_empty_of_isEmpty {s : IndexSet} (h : s.isEmpty) : s = empty :=
  ext_toList (List.isEmpty_iff.mp h)

end IndexSet

namespace Snapshot

/-- The indices of the marked rows. -/
def indices (s : Snapshot) : List Nat := s.highlighted.toList ++ s.dimmed.toList

/-- A snapshot that a document holds as it is. -/
def Plain (s : Snapshot) : Prop := s.withoutIds = s ∧ Fit s.indices

/-- Marked rows are read back, whether they are written or, being none, left out. -/
theorem defaulted_marks {ms : Json.Members} {position : Nat} {name : String} {s : IndexSet}
    (h : Fit s.toList) (hfound : Json.Members.get? ms name = marks? s) :
    (Fields.named ms).defaulted position name IndexSet.ofJson? .empty = some s := by
  simp only [Fields.defaulted, hfound, marks?]
  by_cases hs : s.isEmpty
  · rw [if_pos hs, IndexSet.eq_empty_of_isEmpty hs]
  · rw [if_neg hs]
    exact IndexSet.ofJson?_toJson h

/-- A written snapshot is read back without its identities. -/
theorem ofJson?_toJson {s : Snapshot} (h : Fit s.indices) :
    ofJson? s.toJson = some s.withoutIds := by
  obtain ⟨hlit, hdim⟩ := Json.fit_append.mp h
  have hrows : (Json.list .object s.rows).listOf? Json.object? = some s.rows :=
    Json.listOf?_list_self fun _ _ => rfl
  have hhighlighted : (Fields.named s.members).defaulted 3 "highlightedRows" IndexSet.ofJson? .empty
      = some s.highlighted := defaulted_marks hlit (by simp [members])
  have hdimmed : (Fields.named s.members).defaulted 4 "dimmedRows" IndexSet.ofJson? .empty
      = some s.dimmed := defaulted_marks hdim (by simp [members])
  simp only [toJson, ofJson?, Fields.ofJson?_object, Option.bind_eq_bind, Option.bind_some,
    hhighlighted, hdimmed]
  simp [members, Json.string?, Json.listOf?_strings, hrows, withoutIds]

theorem ofJson?_gives : Gives ofJson? Plain := by
  intro j s h
  simp only [ofJson?, Option.bind_eq_bind, Option.bind_eq_some_iff, Option.pure_def,
    Option.some.injEq] at h
  obtain ⟨fields, -, name, -, columns, -, rows, -, lit, hlit, dim, hdim, rfl⟩ := h
  exact ⟨rfl, Json.fit_append.mpr
    ⟨Fields.defaulted_gives IndexSet.ofJson?_gives Json.fit_nil hlit,
      Fields.defaulted_gives IndexSet.ofJson?_gives Json.fit_nil hdim⟩⟩

end Snapshot

/-! ## The records of the steps -/

def JoinStep.indices (s : JoinStep) : List Nat :=
  (s.matched.flatMap fun p => [p.1, p.2]) ++ s.unmatchedLeft ++ s.unmatchedRight
    ++ s.left.indices ++ s.right.indices ++ s.result.indices

def FilterStep.indices (s : FilterStep) : List Nat :=
  s.kept ++ s.filteredOut ++ s.input.indices ++ s.result.indices

def GroupStep.indices (s : GroupStep) : List Nat :=
  s.groups.flatMap Group.rows ++ s.input.indices ++ s.result.indices

def LimitStep.indices (s : LimitStep) : List Nat :=
  s.limit.toList ++ s.offset.toList ++ s.input.indices ++ s.result.indices

/-- The indices that a step is told by, those of its snapshots among them. -/
def Step.indices : Step → List Nat
  | scan s => s.result.indices
  | join s => s.indices
  | filter s => s.indices
  | groupBy s => s.indices
  | having s => s.indices
  | project s => s.input.indices ++ s.result.indices
  | orderBy s => s.input.indices ++ s.result.indices
  | limit s => s.indices

/-- A step that a document holds as it is. -/
def Step.Plain (s : Step) : Prop := s.withoutIds = s ∧ Fit s.indices

section Written

variable {kind : String}

theorem ScanStep.ofJson?_members {s : ScanStep} (h : Fit s.result.indices) :
    ofJson? (.object (("type", .string kind) :: s.members))
      = some { s with result := s.result.withoutIds } := by
  simp [ofJson?, members, Json.string?, Snapshot.ofJson?_toJson h]

theorem JoinStep.ofJson?_members {s : JoinStep} (h : Fit s.indices) :
    ofJson? (.object (("type", .string kind) :: s.members)) = some { s with
      left := s.left.withoutIds, right := s.right.withoutIds, result := s.result.withoutIds } := by
  simp only [indices, Json.fit_append, Json.fit_flatMap] at h
  obtain ⟨⟨⟨⟨⟨hmatched, hunleft⟩, hunright⟩, hleft⟩, hright⟩, hresult⟩ := h
  have hpairs : (Json.list pairToJson s.matched).listOf? (Json.pairOf? Json.nat64? Json.nat64?)
      = some s.matched :=
    Json.listOf?_list_self fun p hp => Json.pairOf?_pairToJson (hmatched p hp)
  have hcondition : (Fields.named (("type", .string kind) :: s.members)).nullable 2 "condition"
      Json.string? = some s.condition :=
    Fields.nullable_of_get? (by simp [members]; rfl) (fun _ _ => rfl) (fun _ => rfl)
  simp only [ofJson?, Fields.ofJson?_object, Option.bind_eq_bind, Option.bind_some, hcondition]
  simp [members, Json.string?, hpairs, Json.listOf?_nats hunleft, Json.listOf?_nats hunright,
    Snapshot.ofJson?_toJson hleft, Snapshot.ofJson?_toJson hright, Snapshot.ofJson?_toJson hresult]

theorem FilterStep.ofJson?_members {s : FilterStep} (h : Fit s.indices) :
    ofJson? (.object (("type", .string kind) :: s.members))
      = some { s with input := s.input.withoutIds, result := s.result.withoutIds } := by
  simp only [indices, Json.fit_append] at h
  obtain ⟨⟨⟨hkept, hdropped⟩, hinput⟩, hresult⟩ := h
  simp [ofJson?, members, Json.string?, Json.listOf?_nats hkept, Json.listOf?_nats hdropped,
    Snapshot.ofJson?_toJson hinput, Snapshot.ofJson?_toJson hresult]

theorem Group.ofJson?_toJson {g : Group} (h : Fit g.rows) : ofJson? g.toJson = some g := by
  simp [ofJson?, toJson, Json.string?, Json.array?, Json.listOf?_nats h]

theorem GroupStep.ofJson?_members {s : GroupStep} (h : Fit s.indices) :
    ofJson? (.object (("type", .string kind) :: s.members))
      = some { s with input := s.input.withoutIds, result := s.result.withoutIds } := by
  simp only [indices, Json.fit_append, Json.fit_flatMap] at h
  obtain ⟨⟨hrows, hinput⟩, hresult⟩ := h
  have hgroups : (Json.list Group.toJson s.groups).listOf? Group.ofJson? = some s.groups :=
    Json.listOf?_list_self fun g hg => Group.ofJson?_toJson (hrows g hg)
  simp [ofJson?, members, Json.string?, Json.listOf?_strings, hgroups,
    Snapshot.ofJson?_toJson hinput, Snapshot.ofJson?_toJson hresult]

/-- A column has no indices, so it is read back in all cases. -/
theorem ProjectedColumn.ofJson?_toJson (c : ProjectedColumn) : ofJson? c.toJson = some c := by
  have halias : ∀ ms, Json.Members.get? ms "alias" = c.alias?.map .string →
      (Fields.named ms).nullable 1 "alias" Json.string? = some c.alias? :=
    fun ms hms => Fields.nullable_of_get? hms (fun _ _ => rfl) (fun _ => rfl)
  have hsource : ∀ ms, Json.Members.get? ms "source" = c.source.map .string →
      (Fields.named ms).nullable 3 "source" Json.string? = some c.source :=
    fun ms hms => Fields.nullable_of_get? hms (fun _ _ => rfl) (fun _ => rfl)
  simp only [toJson, ofJson?, Fields.ofJson?_object, Option.bind_eq_bind, Option.bind_some]
  rw [halias _ (by simp), hsource _ (by simp)]
  simp [Json.string?]

theorem ProjectStep.ofJson?_members {s : ProjectStep}
    (h : Fit (s.input.indices ++ s.result.indices)) :
    ofJson? (.object (("type", .string kind) :: s.members))
      = some { s with input := s.input.withoutIds, result := s.result.withoutIds } := by
  obtain ⟨hinput, hresult⟩ := Json.fit_append.mp h
  have hcolumns : (Json.list ProjectedColumn.toJson s.columns).listOf? ProjectedColumn.ofJson?
      = some s.columns :=
    Json.listOf?_list_self fun c _ => c.ofJson?_toJson
  simp [ofJson?, members, Json.string?, hcolumns, Snapshot.ofJson?_toJson hinput,
    Snapshot.ofJson?_toJson hresult]

theorem SortTerm.ofJson?_toJson (t : SortTerm) : ofJson? t.toJson = some t := by
  simp [ofJson?, toJson, Json.string?]

theorem OrderStep.ofJson?_members {s : OrderStep}
    (h : Fit (s.input.indices ++ s.result.indices)) :
    ofJson? (.object (("type", .string kind) :: s.members))
      = some { s with input := s.input.withoutIds, result := s.result.withoutIds } := by
  obtain ⟨hinput, hresult⟩ := Json.fit_append.mp h
  have hterms : (Json.list SortTerm.toJson s.terms).listOf? SortTerm.ofJson? = some s.terms :=
    Json.listOf?_list_self fun t _ => t.ofJson?_toJson
  simp [ofJson?, members, Json.string?, hterms, Snapshot.ofJson?_toJson hinput,
    Snapshot.ofJson?_toJson hresult]

theorem LimitStep.ofJson?_members {s : LimitStep} (h : Fit s.indices) :
    ofJson? (.object (("type", .string kind) :: s.members))
      = some { s with input := s.input.withoutIds, result := s.result.withoutIds } := by
  simp only [indices, Json.fit_append] at h
  obtain ⟨⟨⟨hlim, hoff⟩, hinput⟩, hresult⟩ := h
  have hread : ∀ {n? : Option Nat}, Fit n?.toList → ∀ n ∈ n?, (Json.nat n).nat64? = some n :=
    fun hfit n hn => Json.nat64?_nat (hfit n (by simpa using hn))
  have hlimit : (Fields.named (("type", .string kind) :: s.members)).nullable 1 "limit"
      Json.nat64? = some s.limit :=
    Fields.nullable_of_get? (by simp [members]) (hread hlim) (fun _ => rfl)
  have hoffset : (Fields.named (("type", .string kind) :: s.members)).nullable 2 "offset"
      Json.nat64? = some s.offset :=
    Fields.nullable_of_get? (by simp [members]) (hread hoff) (fun _ => rfl)
  simp only [ofJson?, Fields.ofJson?_object, Option.bind_eq_bind, Option.bind_some, hlimit, hoffset]
  simp [members, Json.string?, Snapshot.ofJson?_toJson hinput, Snapshot.ofJson?_toJson hresult]

end Written

theorem ScanStep.ofJson?_gives : Gives ofJson? fun s => (Step.scan s).Plain := by
  intro j s h
  simp only [ofJson?, Option.bind_eq_bind, Option.bind_eq_some_iff, Option.pure_def,
    Option.some.injEq] at h
  obtain ⟨fields, -, description, -, table, -, result, hresult, rfl⟩ := h
  have hplain := Fields.required_gives Snapshot.ofJson?_gives hresult
  exact ⟨by simp only [Step.withoutIds, hplain.1], hplain.2⟩

theorem JoinStep.ofJson?_gives : Gives ofJson? fun s => (Step.join s).Plain := by
  intro j s h
  simp only [ofJson?, Option.bind_eq_bind, Option.bind_eq_some_iff, Option.pure_def,
    Option.some.injEq] at h
  obtain ⟨fields, -, description, -, joinType, -, condition, -, left, hleft, right, hright,
    matched, hmatched, unmatchedLeft, hunleft, unmatchedRight, hunright, result, hresult, rfl⟩ := h
  have hleft := Fields.required_gives Snapshot.ofJson?_gives hleft
  have hright := Fields.required_gives Snapshot.ofJson?_gives hright
  have hresult := Fields.required_gives Snapshot.ofJson?_gives hresult
  have hpairs := Fields.required_gives (Json.listOf?_gives Json.pairOf?_gives) hmatched
  refine ⟨by simp only [Step.withoutIds, hleft.1, hright.1, hresult.1], ?_⟩
  simp only [Step.indices, JoinStep.indices, Json.fit_append, Json.fit_flatMap]
  exact ⟨⟨⟨⟨⟨hpairs, Fields.required_gives Json.nats_gives hunleft⟩,
    Fields.required_gives Json.nats_gives hunright⟩, hleft.2⟩, hright.2⟩, hresult.2⟩

theorem FilterStep.ofJson?_gives :
    Gives ofJson? fun s => (Step.filter s).Plain ∧ (Step.having s).Plain := by
  intro j s h
  simp only [ofJson?, Option.bind_eq_bind, Option.bind_eq_some_iff, Option.pure_def,
    Option.some.injEq] at h
  obtain ⟨fields, -, description, -, condition, -, input, hinput, kept, hkept, filteredOut,
    hdropped, result, hresult, rfl⟩ := h
  have hinput := Fields.required_gives Snapshot.ofJson?_gives hinput
  have hresult := Fields.required_gives Snapshot.ofJson?_gives hresult
  have hfit : Fit (kept ++ filteredOut ++ input.indices ++ result.indices) := by
    simp only [Json.fit_append]
    exact ⟨⟨⟨Fields.required_gives Json.nats_gives hkept,
      Fields.required_gives Json.nats_gives hdropped⟩, hinput.2⟩, hresult.2⟩
  exact ⟨⟨by simp only [Step.withoutIds, hinput.1, hresult.1], hfit⟩,
    ⟨by simp only [Step.withoutIds, hinput.1, hresult.1], hfit⟩⟩

theorem Group.ofJson?_gives : Gives ofJson? fun g => Fit g.rows := by
  intro j g h
  simp only [ofJson?, Option.bind_eq_bind, Option.bind_eq_some_iff, Option.pure_def,
    Option.some.injEq] at h
  obtain ⟨fields, -, key, -, keyValues, -, rows, hrows, rfl⟩ := h
  exact Fields.required_gives Json.nats_gives hrows

theorem GroupStep.ofJson?_gives : Gives ofJson? fun s => (Step.groupBy s).Plain := by
  intro j s h
  simp only [ofJson?, Option.bind_eq_bind, Option.bind_eq_some_iff, Option.pure_def,
    Option.some.injEq] at h
  obtain ⟨fields, -, description, -, columns, -, aggregates, -, input, hinput, groups, hgroups,
    result, hresult, rfl⟩ := h
  have hinput := Fields.required_gives Snapshot.ofJson?_gives hinput
  have hresult := Fields.required_gives Snapshot.ofJson?_gives hresult
  have hrows := Fields.required_gives (Json.listOf?_gives Group.ofJson?_gives) hgroups
  refine ⟨by simp only [Step.withoutIds, hinput.1, hresult.1], ?_⟩
  simp only [Step.indices, GroupStep.indices, Json.fit_append, Json.fit_flatMap]
  exact ⟨⟨hrows, hinput.2⟩, hresult.2⟩

theorem ProjectStep.ofJson?_gives : Gives ofJson? fun s => (Step.project s).Plain := by
  intro j s h
  simp only [ofJson?, Option.bind_eq_bind, Option.bind_eq_some_iff, Option.pure_def,
    Option.some.injEq] at h
  obtain ⟨fields, -, description, -, columns, -, input, hinput, result, hresult, rfl⟩ := h
  have hinput := Fields.required_gives Snapshot.ofJson?_gives hinput
  have hresult := Fields.required_gives Snapshot.ofJson?_gives hresult
  exact ⟨by simp only [Step.withoutIds, hinput.1, hresult.1],
    Json.fit_append.mpr ⟨hinput.2, hresult.2⟩⟩

theorem OrderStep.ofJson?_gives : Gives ofJson? fun s => (Step.orderBy s).Plain := by
  intro j s h
  simp only [ofJson?, Option.bind_eq_bind, Option.bind_eq_some_iff, Option.pure_def,
    Option.some.injEq] at h
  obtain ⟨fields, -, description, -, terms, -, input, hinput, result, hresult, rfl⟩ := h
  have hinput := Fields.required_gives Snapshot.ofJson?_gives hinput
  have hresult := Fields.required_gives Snapshot.ofJson?_gives hresult
  exact ⟨by simp only [Step.withoutIds, hinput.1, hresult.1],
    Json.fit_append.mpr ⟨hinput.2, hresult.2⟩⟩

theorem LimitStep.ofJson?_gives : Gives ofJson? fun s => (Step.limit s).Plain := by
  intro j s h
  simp only [ofJson?, Option.bind_eq_bind, Option.bind_eq_some_iff, Option.pure_def,
    Option.some.injEq] at h
  obtain ⟨fields, -, description, -, limit, hlimit, offset, hoffset, input, hinput, result,
    hresult, rfl⟩ := h
  have hinput := Fields.required_gives Snapshot.ofJson?_gives hinput
  have hresult := Fields.required_gives Snapshot.ofJson?_gives hresult
  have hfit : ∀ {n? : Option Nat}, (∀ n ∈ n?, n < 2 ^ (64 : Nat)) → Fit n?.toList :=
    fun h n hn => h n (by simpa using hn)
  refine ⟨by simp only [Step.withoutIds, hinput.1, hresult.1], ?_⟩
  simp only [Step.indices, LimitStep.indices, Json.fit_append]
  exact ⟨⟨⟨hfit (Fields.nullable_gives Json.nat64?_gives hlimit),
    hfit (Fields.nullable_gives Json.nat64?_gives hoffset)⟩, hinput.2⟩, hresult.2⟩

/-! ## Steps -/

namespace Step

/-- A written step is read back without its identities. -/
theorem ofJson?_toJson {s : Step} (h : Fit s.indices) : ofJson? s.toJson = some s.withoutIds := by
  simp only [toJson, ofJson?, Json.Members.get?_cons, beq_self_eq_true, if_true, Option.bind_some,
    Json.string?]
  cases s with
  | scan s => exact congrArg (Option.map scan) (ScanStep.ofJson?_members h)
  | join s => exact congrArg (Option.map join) (JoinStep.ofJson?_members h)
  | filter s => exact congrArg (Option.map filter) (FilterStep.ofJson?_members h)
  | groupBy s => exact congrArg (Option.map groupBy) (GroupStep.ofJson?_members h)
  | having s => exact congrArg (Option.map having) (FilterStep.ofJson?_members h)
  | project s => exact congrArg (Option.map project) (ProjectStep.ofJson?_members h)
  | orderBy s => exact congrArg (Option.map orderBy) (OrderStep.ofJson?_members h)
  | limit s => exact congrArg (Option.map limit) (LimitStep.ofJson?_members h)

/-- A step of any kind is plain when it was read; a filter and HAVING share their record. -/
theorem ofKind?_gives (kind : String) : Gives (ofKind? kind) Plain := by
  intro j s h
  simp only [ofKind?] at h
  split at h
  case h_9 => cases h
  all_goals obtain ⟨s, hs, rfl⟩ := Option.map_eq_some_iff.mp h
  · exact ScanStep.ofJson?_gives j s hs
  · exact JoinStep.ofJson?_gives j s hs
  · exact (FilterStep.ofJson?_gives j s hs).1
  · exact GroupStep.ofJson?_gives j s hs
  · exact (FilterStep.ofJson?_gives j s hs).2
  · exact ProjectStep.ofJson?_gives j s hs
  · exact OrderStep.ofJson?_gives j s hs
  · exact LimitStep.ofJson?_gives j s hs

theorem ofJson?_gives : Gives ofJson? Plain := by
  intro j s h
  match j with
  | .object ms =>
      obtain ⟨kind, -, hkind⟩ := Option.bind_eq_some_iff.mp h
      exact ofKind?_gives kind _ s hkind
  | .array (k :: fields) =>
      obtain ⟨kind, -, hkind⟩ := Option.bind_eq_some_iff.mp h
      exact ofKind?_gives kind _ s hkind

end Step

/-! ## Outcomes -/

namespace Json

/-- What is found under a name is in range with the members. -/
theorem membersInRange_get? {ms : Members} {name : String} {j : Json} (h : membersInRange ms)
    (hj : Members.get? ms name = some j) : j.numbersInRange := by
  induction ms with
  | nil => cases hj
  | cons m rest ih =>
      obtain ⟨hm, hrest⟩ := Bool.and_eq_true_iff.mp h
      rw [Members.get?_cons] at hj
      split at hj
      · cases hj
        exact hm
      · exact ih hrest hj

/-- So is what stands at a place. -/
theorem itemsInRange_getElem? {items : List Json} {i : Nat} {j : Json} (h : itemsInRange items)
    (hj : items[i]? = some j) : j.numbersInRange := by
  induction items generalizing i with
  | nil => cases hj
  | cons item rest ih =>
      obtain ⟨hitem, hrest⟩ := Bool.and_eq_true_iff.mp h
      cases i with
      | zero =>
          cases hj
          exact hitem
      | succ i => exact ih hrest hj

/-- A time that is read is finite. -/
theorem double?_isFinite {j : Json} {x : Double} (h : j.numbersInRange)
    (hx : j.double? = some x) : x.isFinite := by
  match j with
  | .number n =>
      cases hx
      exact Number.toDouble_isFinite h

/-- The fields of a document whose numbers are in range hold such documents. -/
theorem Fields.required_double {j : Json} {count position : Nat} {name : String} {fields : Fields}
    {x : Double} (h : j.numbersInRange) (hfields : Fields.ofJson? count j = some fields)
    (hx : fields.required position name double? = some x) : x.isFinite := by
  cases j with
  | object ms =>
      cases hfields
      obtain ⟨i, hi, hread⟩ := Option.bind_eq_some_iff.mp hx
      exact double?_isFinite (membersInRange_get? h hi) hread
  | array items =>
      obtain ⟨-, rfl⟩ : _ ∧ _ := by simpa [Fields.ofJson?] using hfields
      obtain ⟨i, hi, hread⟩ := Option.bind_eq_some_iff.mp hx
      exact double?_isFinite (itemsInRange_getElem? h hi) hread
  | null => cases hfields
  | bool b => cases hfields
  | number n => cases hfields
  | string s => cases hfields

end Json

namespace Outcome

def indices (o : Outcome) : List Nat := o.steps.flatMap Step.indices ++ o.finalResult.indices

/-- The outcome without what is not written. -/
def withoutIds (o : Outcome) : Outcome :=
  { o with steps := o.steps.map Step.withoutIds, finalResult := o.finalResult.withoutIds }

/-- A written outcome is read back without its identities. -/
theorem ofJson?_toJson {o : Outcome} (h : Fit o.indices) (htime : o.executionTime.isFinite) :
    ofJson? o.toJson = some o.withoutIds := by
  simp only [indices, Json.fit_append, Json.fit_flatMap] at h
  have hsteps : (Json.list Step.toJson o.steps).listOf? Step.ofJson?
      = some (o.steps.map Step.withoutIds) :=
    Json.listOf?_list fun s hs => Step.ofJson?_toJson (h.1 s hs)
  have herror : ∀ ms, Json.Members.get? ms "error" = o.error.map .string →
      (Fields.named ms).nullable 2 "error" Json.string? = some o.error :=
    fun ms hms => Fields.nullable_of_get? hms (fun _ _ => rfl) (fun _ => rfl)
  simp only [toJson, ofJson?, Fields.ofJson?_object, Option.bind_eq_bind, Option.bind_some]
  rw [herror _ (by simp)]
  simp [hsteps, Snapshot.ofJson?_toJson h.2, Json.double?_float htime, withoutIds]

/-- What is read from a document is an outcome that a document holds as it is. -/
theorem plain_of_ofJson? {j : Json} {o : Outcome} (hj : j.numbersInRange)
    (h : ofJson? j = some o) : o.withoutIds = o ∧ Fit o.indices ∧ o.executionTime.isFinite := by
  simp only [ofJson?, Option.bind_eq_bind, Option.bind_eq_some_iff, Option.pure_def,
    Option.some.injEq] at h
  obtain ⟨fields, hfields, steps, hsteps, result, hresult, error, -, time, htime, rfl⟩ := h
  have hsteps := Fields.required_gives (Json.listOf?_gives Step.ofJson?_gives) hsteps
  have hresult := Fields.required_gives Snapshot.ofJson?_gives hresult
  refine ⟨?_, ?_, Fields.required_double hj hfields htime⟩
  · simp only [withoutIds, hresult.1]
    rw [List.map_congr_left fun s hs => (hsteps s hs).1, List.map_id']
  · simp only [indices, Json.fit_append, Json.fit_flatMap]
    exact ⟨fun s hs => (hsteps s hs).2, hresult.2⟩

end Outcome

/-- **READING BACK**: a written step or outcome is read as itself without the identities
    of its rows, and what any document was read as is read again from its own document. -/
theorem documents_read_back :
    (∀ s : Step, Fit s.indices → Step.ofJson? s.toJson = some s.withoutIds) ∧
    (∀ o : Outcome, Fit o.indices → o.executionTime.isFinite →
      Outcome.ofJson? o.toJson = some o.withoutIds) ∧
    (∀ (j : Json) (s : Step), Step.ofJson? j = some s → Step.ofJson? s.toJson = some s) ∧
    (∀ (j : Json) (o : Outcome), j.numbersInRange → Outcome.ofJson? j = some o →
      Outcome.ofJson? o.toJson = some o) := by
  refine ⟨fun _ h => Step.ofJson?_toJson h, fun _ h htime => Outcome.ofJson?_toJson h htime, ?_, ?_⟩
  · intro j s h
    obtain ⟨hsame, hfit⟩ := Step.ofJson?_gives j s h
    rw [Step.ofJson?_toJson hfit, hsame]
  · intro j o hj h
    obtain ⟨hsame, hfit, htime⟩ := Outcome.plain_of_ofJson? hj h
    rw [Outcome.ofJson?_toJson hfit htime, hsame]

/-- A table with a marked row and identities, in a step, in an outcome, and in a
    document by position with a whole number of milliseconds. -/
theorem documents_read_back_limit :
    let table : Snapshot :=
      { name := "t", columns := ["a"], rows := [[("a", .int 1)], [("a", .float (.ofInt 1))]],
        highlighted := .ofList [1], rowIds := [[some 1], [some 2]] }
    let step : Step := .limit ⟨"Keep one row", some 1, none, table, table.withoutIds⟩
    let outcome : Outcome := ⟨[step], table, none, .ofInt 7⟩
    let document : Json := .array [.array [step.toJson], table.toJson, .null, .int 7]
    Step.ofJson? step.toJson = some step.withoutIds ∧
      Outcome.ofJson? outcome.toJson = some outcome.withoutIds ∧
      Step.ofJson? step.withoutIds.toJson = some step.withoutIds ∧
      Outcome.ofJson? document = some outcome.withoutIds ∧
      Outcome.ofJson? outcome.withoutIds.toJson = some outcome.withoutIds := by
  intro table step outcome document
  have hread : Step.ofJson? step.toJson = some step.withoutIds :=
    documents_read_back.1 step (by decide)
  have hdocument : Outcome.ofJson? document = some outcome.withoutIds := rfl
  refine ⟨hread, documents_read_back.2.1 outcome (by decide) (by decide +kernel),
    documents_read_back.2.2.1 _ _ hread, hdocument,
    documents_read_back.2.2.2 document _ (by decide +kernel) hdocument⟩

end QueryReplay
