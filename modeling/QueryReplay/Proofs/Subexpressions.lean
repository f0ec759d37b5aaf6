import Mathlib.Data.List.Induction
import Mathlib.Data.List.Lex
import QueryReplay.Sql.Expr

/-! # Subexpressions — the places inside an expression

    An expression is put together from parts, and these from parts of their own.  Whatever
    stands inside it stands at a place: the way there from the whole, as the numbers of the
    parts that are entered.  Of two places of which neither is inside the other the one with
    the smaller number, where they part, is the one to the left.  The route:

    * the forms of expressions are gone through for their parts only (`Expr.parts`), and what
      holds of an expression if it holds of its parts holds of all (`Expr.ind_parts`);
    * what stands at places is one list when it is read from left to right
      (`InOrder.unique`);
    * the lists of several expressions one behind the other are the list of all of them
      (`inOrder_among`). -/

namespace QueryReplay.Sql

/-! ## Places -/

/-- A place inside an expression: the numbers of the parts that are entered on the way. -/
abbrev Path := List Nat

namespace Expr

/-- The expressions that an expression is put together from, from left to right. -/
def parts : Expr → List Expr
  | .literal _ => []
  | .column _ => []
  | .binary _ left right => [left, right]
  | .unary _ operand => [operand]
  | .call _ args _ _ _ => args
  | .isNull subject _ => [subject]
  | .inList subject items _ => subject :: items
  | .between subject low high _ => [subject, low, high]
  | .case operand branches otherwise =>
    operand.toList ++ (branches.flatMap (fun b => [b.1, b.2]) ++ otherwise.toList)

/-- What stands at a place. -/
def at? : Expr → Path → Option Expr
  | e, [] => some e
  | e, i :: p => e.parts[i]?.bind fun part => part.at? p

/-- A part is smaller than the whole. -/
theorem sizeOf_part {e part : Expr} (h : part ∈ e.parts) : sizeOf part < sizeOf e := by
  cases e with
  | literal v => exact nomatch h
  | column c => exact nomatch h
  | binary op left right =>
      simp only [parts, List.mem_cons, List.not_mem_nil, or_false] at h
      rw [binary.sizeOf_spec]
      rcases h with rfl | rfl <;> omega
  | unary op operand =>
      obtain rfl := List.mem_singleton.mp h
      rw [unary.sizeOf_spec]
      omega
  | call name args distinct star text =>
      have := List.sizeOf_lt_of_mem (show part ∈ args from h)
      rw [call.sizeOf_spec]
      omega
  | isNull subject negated =>
      obtain rfl := List.mem_singleton.mp h
      rw [isNull.sizeOf_spec]
      omega
  | inList subject items negated =>
      rw [inList.sizeOf_spec]
      rcases List.mem_cons.mp h with rfl | h
      · omega
      · have := List.sizeOf_lt_of_mem h
        omega
  | between subject low high negated =>
      simp only [parts, List.mem_cons, List.not_mem_nil, or_false] at h
      rw [between.sizeOf_spec]
      rcases h with rfl | rfl | rfl <;> omega
  | case operand branches otherwise =>
      simp only [parts, List.mem_append, Option.mem_toList, List.mem_flatMap, List.mem_cons,
        List.not_mem_nil, or_false] at h
      rw [case.sizeOf_spec]
      rcases h with rfl | ⟨⟨condition, result⟩, hb, h⟩ | rfl
      · rw [Option.some.sizeOf_spec]
        omega
      · have := List.sizeOf_lt_of_mem hb
        rw [Prod.mk.sizeOf_spec] at this
        rcases h with rfl | rfl <;> omega
      · rw [Option.some.sizeOf_spec]
        omega

/-- A property of expressions is proved from what holds of their parts. -/
theorem ind_parts {P : Expr → Prop} (h : ∀ e, (∀ part ∈ e.parts, P part) → P e) (e : Expr) : P e :=
  h e fun part _ => ind_parts h part
termination_by sizeOf e
decreasing_by exact sizeOf_part (by assumption)

end Expr

/-! ## From left to right -/

section InOrder

variable {α : Type} {R R' : Path → α → Prop} {l l' : List α}

/-- The place is further to the left, or the other one is inside of it. -/
abbrev Path.Before (p q : Path) : Prop := List.Lex (· < ·) p q

/-- The list of what stands at places, each place once, from left to right. -/
def InOrder (R : Path → α → Prop) (l : List α) : Prop :=
  ∃ entries : List (Path × α), (entries.Pairwise fun x y => x.1.Before y.1)
    ∧ (∀ p a, (p, a) ∈ entries ↔ R p a) ∧ entries.map Prod.snd = l

theorem InOrder.congr (h : InOrder R l) (heq : ∀ p a, R p a ↔ R' p a) : InOrder R' l := by
  obtain ⟨entries, hordered, hentries, hvalues⟩ := h
  exact ⟨entries, hordered, fun p a => (hentries p a).trans (heq p a), hvalues⟩

/-- What stands at some place is listed, and nothing else. -/
theorem InOrder.mem_iff (h : InOrder R l) {a : α} : a ∈ l ↔ ∃ p, R p a := by
  obtain ⟨entries, -, hentries, rfl⟩ := h
  rw [List.mem_map]
  constructor
  · rintro ⟨⟨p, b⟩, hmem, rfl⟩
    exact ⟨p, (hentries p b).mp hmem⟩
  · rintro ⟨p, hp⟩
    exact ⟨(p, a), (hentries p a).mpr hp, rfl⟩

/-- What stands at places is read from left to right in one way only. -/
theorem InOrder.unique (h : InOrder R l) (h' : InOrder R l') : l = l' := by
  obtain ⟨entries, hordered, hentries, rfl⟩ := h
  obtain ⟨entries', hordered', hentries', rfl⟩ := h'
  have hasymm : ∀ p q : Path, p.Before q → ¬q.Before p := Std.Asymm.asymm
  have hnodup : ∀ {entries : List (Path × α)},
      (entries.Pairwise fun x y => x.1.Before y.1) → entries.Nodup := by
    intro entries hordered
    refine hordered.imp fun {x y} hbefore heq => ?_
    subst heq
    exact hasymm _ _ hbefore hbefore
  have hperm : entries.Perm entries' := by
    refine (List.perm_ext_iff_of_nodup (hnodup hordered) (hnodup hordered')).mpr fun x => ?_
    exact (hentries x.1 x.2).trans (hentries' x.1 x.2).symm
  refine congrArg (List.map Prod.snd) (hperm.eq_of_pairwise ?_ hordered hordered')
  exact fun x y _ _ hxy hyx => absurd hyx (hasymm _ _ hxy)

end InOrder

/-! ## Several expressions -/

section Among

variable {α : Type} {R : Expr → Path → α → Prop} {es : List Expr}

/-- What stands at a place in one of several expressions; the first number of the place tells
    in which. -/
def Among (R : Expr → Path → α → Prop) (es : List Expr) : Path → α → Prop
  | [], _ => False
  | i :: p, a => ∃ e, es[i]? = some e ∧ R e p a

theorem among_concat {e : Expr} {i : Nat} {p : Path} {a : α} :
    Among R (es ++ [e]) (i :: p) a ↔ Among R es (i :: p) a ∨ i = es.length ∧ R e p a := by
  constructor
  · rintro ⟨f, hf, ha⟩
    by_cases hi : i < es.length
    · rw [List.getElem?_append_left hi] at hf
      exact .inl ⟨f, hf, ha⟩
    · obtain rfl : i = es.length := by
        have := (List.getElem?_eq_some_iff.mp hf).1
        rw [List.length_append, List.length_singleton] at this
        omega
      rw [List.getElem?_concat_length] at hf
      exact .inr ⟨rfl, Option.some.inj hf ▸ ha⟩
  · rintro (⟨f, hf, ha⟩ | ⟨rfl, ha⟩)
    · exact ⟨f, List.getElem?_append_left (List.getElem?_eq_some_iff.mp hf).1 ▸ hf, ha⟩
    · exact ⟨e, List.getElem?_concat_length, ha⟩

/-- What stands in several expressions is what stands in each, one behind the other. -/
theorem inOrder_among {g : Expr → List α} (h : ∀ e ∈ es, InOrder (R e) (g e)) :
    InOrder (Among R es) (es.flatMap g) := by
  -- one more expression at the end leaves the numbers of those in front of it as they are
  induction es using List.reverseRecOn with
  | nil =>
      refine ⟨[], .nil, fun p a => ?_, rfl⟩
      cases p <;> simp [Among]
  | append_singleton es e ih =>
      obtain ⟨front, hfront, hmem, hvalues⟩ := ih fun f hf => h f (List.mem_append_left _ hf)
      obtain ⟨last, hlast, hmemLast, hvaluesLast⟩ := h e (by simp)
      refine ⟨front ++ last.map fun x => (es.length :: x.1, x.2), ?_, ?_, ?_⟩
      · refine List.pairwise_append.mpr ⟨hfront, List.pairwise_map.mpr (hlast.imp .cons), ?_⟩
        rintro ⟨_ | ⟨i, p⟩, a⟩ hx y hy
        · exact ((hmem _ _).mp hx).elim
        · obtain ⟨f, hf, -⟩ := (hmem _ _).mp hx
          obtain ⟨⟨q, b⟩, -, rfl⟩ := List.mem_map.mp hy
          exact .rel (List.getElem?_eq_some_iff.mp hf).1
      · rintro (_ | ⟨i, p⟩) a
        · simp [hmem, Among]
        · rw [List.mem_append, hmem, among_concat, List.mem_map]
          refine or_congr Iff.rfl ⟨?_, ?_⟩
          · rintro ⟨⟨q, b⟩, hq, heq⟩
            obtain ⟨hplace, rfl⟩ := Prod.mk.inj heq
            obtain ⟨rfl, rfl⟩ := List.cons.inj hplace
            exact ⟨rfl, (hmemLast q b).mp hq⟩
          · rintro ⟨rfl, ha⟩
            exact ⟨(p, a), (hmemLast p a).mpr ha, rfl⟩
      · rw [List.map_append, hvalues, List.flatMap_append, List.flatMap_singleton, List.map_map,
          ← hvaluesLast]
        rfl

end Among

end QueryReplay.Sql
