import QueryReplay.Proofs.Exchange

/-! # Parallel — the parsers on two lists abreast

    Every parser that is run on two lists abreast fails on both, or takes
    corresponding values off both and leaves lists abreast (`Parallel`).  It is
    shown for single tokens first, where nothing but the kind of a text literal
    is seen, then for the combinators, and from these for the parsers of
    expressions (`expr_parallel`) and of statements (`select_parallel`). -/

namespace QueryReplay.Sql

open QueryReplay.Sql.Parser QueryReplay.Sql.StatementParser QueryReplay.Sql.ExprParser

/-! ## Corresponding values -/

namespace Corresponds

variable {α β : Type} [Written α] [Written β] {T : String → String → Prop}
  {S : Span → Span → Prop}

/-- Values without texts and places correspond if they have one skeleton. -/
theorem of_plain {v v' : α} (h : skeleton v = skeleton v') (ht : texts v = []) (ht' : texts v' = [])
    (hs : spans v = []) (hs' : spans v' = []) : Corresponds T S v v' :=
  ⟨h, by rw [ht, ht']; exact .nil, by rw [hs, hs']; exact .nil⟩

theorem nil : Corresponds T S ([] : List α) [] := of_plain rfl rfl rfl rfl rfl

/-- Lists correspond member by member. -/
theorem cons {v v' : α} {vs vs' : List α} (h : Corresponds T S v v') (hs : Corresponds T S vs vs') :
    Corresponds T S (v :: vs) (v' :: vs') where
  sameSkeleton := congrArg₂ List.cons h.sameSkeleton hs.sameSkeleton
  sameTexts := by
    show List.Forall₂ T ((v :: vs).flatMap _) ((v' :: vs').flatMap _)
    rw [List.flatMap_cons, List.flatMap_cons]
    exact List.rel_append h.sameTexts hs.sameTexts
  sameSpans := by
    show List.Forall₂ S ((v :: vs).flatMap _) ((v' :: vs').flatMap _)
    rw [List.flatMap_cons, List.flatMap_cons]
    exact List.rel_append h.sameSpans hs.sameSpans

theorem none : Corresponds T S (Option.none : Option α) Option.none := of_plain rfl rfl rfl rfl rfl

theorem some {v v' : α} (h : Corresponds T S v v') :
    Corresponds T S (Option.some v) (Option.some v') where
  sameSkeleton := congrArg Option.some h.sameSkeleton
  sameTexts := by
    show List.Forall₂ T ([v].flatMap _) ([v'].flatMap _)
    simpa only [List.flatMap_cons, List.flatMap_nil, List.append_nil] using h.sameTexts
  sameSpans := by
    show List.Forall₂ S ([v].flatMap _) ([v'].flatMap _)
    simpa only [List.flatMap_cons, List.flatMap_nil, List.append_nil] using h.sameSpans

/-- Pairs correspond side by side. -/
theorem pair {v v' : α} {w w' : β} (hv : Corresponds T S v v') (hw : Corresponds T S w w') :
    Corresponds T S (v, w) (v', w') where
  sameSkeleton := congrArg₂ Prod.mk hv.sameSkeleton hw.sameSkeleton
  sameTexts := List.rel_append hv.sameTexts hw.sameTexts
  sameSpans := List.rel_append hv.sameSpans hw.sameSpans

/-! ### Expressions -/

section Expressions

variable {T : String → String → Prop} {S : Span → Span → Prop} {e e' l l' r r' : Expr}
  {es es' : List Expr}

/-- Literals correspond if they differ in a text at most. -/
theorem literal {v v' : Literal} (h : v.retext (fun _ => "") = v'.retext fun _ => "")  :
    Corresponds T S (Expr.literal v) (.literal v') where
  sameSkeleton := congrArg Expr.literal h
  sameTexts := .nil
  sameSpans := .nil

/-- A column is written in one way only. -/
theorem column (c : ColumnRef) : Corresponds T S (Expr.column c) (.column c) :=
  of_plain rfl rfl rfl rfl rfl

theorem binary (op : BinaryOp) (hl : Corresponds T S l l') (hr : Corresponds T S r r') :
    Corresponds T S (Expr.binary op l r) (.binary op l' r') where
  sameSkeleton := congrArg₂ (Expr.binary op) hl.sameSkeleton hr.sameSkeleton
  sameTexts := List.rel_append hl.sameTexts hr.sameTexts
  sameSpans := .nil

theorem unary (op : UnaryOp) (h : Corresponds T S e e') :
    Corresponds T S (Expr.unary op e) (.unary op e') where
  sameSkeleton := congrArg (Expr.unary op) h.sameSkeleton
  sameTexts := h.sameTexts
  sameSpans := .nil

/-- Calls correspond if their arguments and their own texts do. -/
theorem call (name : String) (distinct star : Bool) {text text' : String}
    (h : Corresponds T S es es') (htext : T text text') :
    Corresponds T S (Expr.call name es distinct star text)
      (.call name es' distinct star text') where
  sameSkeleton := by
    show Expr.retext _ _ (.call name es distinct star text)
      = .retext _ _ (.call name es' distinct star text')
    rw [Expr.retext_call, Expr.retext_call]
    exact congrArg (Expr.call name · distinct star "") h.sameSkeleton
  sameTexts := by
    show List.Forall₂ T (callLeaves.ofExpr (.call name es distinct star text))
      (callLeaves.ofExpr (.call name es' distinct star text'))
    rw [Leaves.ofExpr_call, Leaves.ofExpr_call]
    exact .cons htext h.sameTexts
  sameSpans := .nil

theorem isNull (negated : Bool) (h : Corresponds T S e e') :
    Corresponds T S (Expr.isNull e negated) (.isNull e' negated) where
  sameSkeleton := congrArg (Expr.isNull · negated) h.sameSkeleton
  sameTexts := h.sameTexts
  sameSpans := .nil

theorem inList (negated : Bool) (h : Corresponds T S e e') (hs : Corresponds T S es es') :
    Corresponds T S (Expr.inList e es negated) (.inList e' es' negated) where
  sameSkeleton := by
    show Expr.retext _ _ (.inList e es negated) = .retext _ _ (.inList e' es' negated)
    rw [Expr.retext_inList, Expr.retext_inList]
    exact congrArg₂ (Expr.inList · · negated) h.sameSkeleton hs.sameSkeleton
  sameTexts := by
    show List.Forall₂ T (callLeaves.ofExpr (.inList e es negated))
      (callLeaves.ofExpr (.inList e' es' negated))
    rw [Leaves.ofExpr_inList, Leaves.ofExpr_inList]
    exact List.rel_append h.sameTexts hs.sameTexts
  sameSpans := .nil

theorem between (negated : Bool) (h : Corresponds T S e e') (hl : Corresponds T S l l')
    (hr : Corresponds T S r r') :
    Corresponds T S (Expr.between e l r negated) (.between e' l' r' negated) where
  sameSkeleton := by
    show Expr.between (skeleton e) (skeleton l) (skeleton r) negated
      = .between (skeleton e') (skeleton l') (skeleton r') negated
    rw [h.sameSkeleton, hl.sameSkeleton, hr.sameSkeleton]
  sameTexts := List.rel_append h.sameTexts (List.rel_append hl.sameTexts hr.sameTexts)
  sameSpans := .nil

theorem case {operand operand' otherwise otherwise' : Option Expr}
    {branches branches' : List (Expr × Expr)} (h : Corresponds T S operand operand')
    (hs : Corresponds T S branches branches') (ho : Corresponds T S otherwise otherwise') :
    Corresponds T S (Expr.case operand branches otherwise)
      (.case operand' branches' otherwise') where
  sameSkeleton := by
    show Expr.retext _ _ (.case operand branches otherwise)
      = .retext _ _ (.case operand' branches' otherwise')
    rw [Expr.retext_case, Expr.retext_case]
    exact congr (congrArg₂ Expr.case h.sameSkeleton hs.sameSkeleton) ho.sameSkeleton
  sameTexts := by
    show List.Forall₂ T (callLeaves.ofExpr (.case operand branches otherwise))
      (callLeaves.ofExpr (.case operand' branches' otherwise'))
    rw [Leaves.ofExpr_case, Leaves.ofExpr_case]
    exact List.rel_append h.sameTexts (List.rel_append hs.sameTexts ho.sameTexts)
  sameSpans := .nil

/-- Operators of one level, grouped from the left. -/
theorem foldl {more more' : List (BinaryOp × Expr)} (h : Corresponds T S e e')
    (hs : Corresponds T S more more') :
    Corresponds T S (more.foldl (fun left (op, right) => .binary op left right) e)
      (more'.foldl (fun left (op, right) => .binary op left right) e') := by
  have hskeleton : ∀ (more : List (BinaryOp × Expr)) (e : Expr),
      skeleton (more.foldl (fun left (op, right) => .binary op left right) e)
        = (skeleton more).foldl (fun left (op, right) => .binary op left right) (skeleton e) := by
    intro more
    induction more with
    | nil => intro e; rfl
    | cons m more ih => intro e; exact ih _
  have htexts : ∀ (more : List (BinaryOp × Expr)) (e : Expr),
      texts (more.foldl (fun left (op, right) => .binary op left right) e)
        = texts e ++ texts more := by
    intro more
    induction more with
    | nil => intro e; exact (List.append_nil _).symm
    | cons m more ih =>
        intro e
        refine (ih _).trans ?_
        show (texts e ++ texts m.2) ++ _ = texts e ++ (m :: more).flatMap _
        rw [List.append_assoc, List.flatMap_cons]
        rfl
  refine ⟨?_, ?_, .nil⟩
  · rw [hskeleton, hskeleton, h.sameSkeleton, hs.sameSkeleton]
  · rw [htexts, htexts]
    exact List.rel_append h.sameTexts hs.sameTexts

end Expressions

end Corresponds

/-! ## Single tokens -/

namespace Exchange

variable {x : Exchange} {ts ts' rest rest' : List Token}

/-- One token, or the one literal and the other. -/
def SameToken (x : Exchange) (t t' : Token) : Prop := t = t' ∨ t = x.left ∧ t' = x.right

/-- Nothing but the lexeme of a text literal tells the one from the other. -/
theorem SameToken.apply {t t' : Token} (h : x.SameToken t t') {γ : Type} {f : Token → γ}
    (hf : ∀ l l' g, f ⟨.text, l, g⟩ = f ⟨.text, l', g⟩) : f t = f t' := by
  rcases h with rfl | ⟨rfl, rfl⟩
  · rfl
  · exact hf _ _ _

theorem SameToken.kind {t t' : Token} (h : x.SameToken t t') : t.kind = t'.kind :=
  h.apply fun _ _ _ => rfl

/-- Names are the same in both. -/
theorem SameToken.identifier {t t' : Token} (h : x.SameToken t t') :
    t.identifier? = t'.identifier? :=
  h.apply fun _ _ _ => rfl

/-- Lists abreast are both empty, or begin with the same token or the two literals. -/
theorem Abreast.uncons (h : x.Abreast ts ts') : ts = [] ∧ ts' = [] ∨ ∃ t t' rest rest',
    ts = t :: rest ∧ ts' = t' :: rest' ∧ x.SameToken t t' ∧ x.Onward ts ts' rest rest' := by
  cases h with
  | @before front hfront =>
      cases front with
      | nil =>
          exact .inr ⟨x.left, x.right, x.back, x.back, rfl, rfl, .inr ⟨rfl, rfl⟩,
            .behind (List.suffix_refl _), List.suffix_cons _ _, List.suffix_cons _ _⟩
      | cons t front =>
          rw [byteSize_cons] at hfront
          exact .inr ⟨t, t, _, _, rfl, rfl, .inl rfl, .before (by omega),
            List.suffix_cons _ _, List.suffix_cons _ _⟩
  | behind hrest =>
      cases ts with
      | nil => exact .inl ⟨rfl, rfl⟩
      | cons t ts =>
          exact .inr ⟨t, t, ts, ts, rfl, rfl, .inl rfl,
            .behind ((List.suffix_cons t ts).trans hrest), List.suffix_cons _ _,
            List.suffix_cons _ _⟩

theorem ofKind_parallel (k : TokenKind) (h : x.Abreast ts ts') :
    Together (x.Onward ts ts') (ofKind k ts) (ofKind k ts') := by
  rcases h.uncons with ⟨rfl, rfl⟩ | ⟨t, t', rest, rest', rfl, rfl, hsame, hrest⟩
  · exact .fail
  · show Together _ (if t.kind == k then some rest else none)
      (if t'.kind == k then some rest' else none)
    rw [hsame.kind]
    by_cases hk : (t'.kind == k) = true
    · rw [if_pos hk, if_pos hk]
      exact .done hrest
    · rw [if_neg hk, if_neg hk]
      exact .fail

/-- A keyword stands in both or in neither, as only text literals differ. -/
theorem keyword_parallel (k : Keyword) (h : x.Abreast ts ts') :
    Together (x.Onward ts ts') (keyword k ts) (keyword k ts') := by
  rw [keyword_eq, keyword_eq]
  exact ofKind_parallel _ h

/-- So does a symbol. -/
theorem symbol_parallel (s : Symbol) (h : x.Abreast ts ts') :
    Together (x.Onward ts ts') (symbol s ts) (symbol s ts') := by
  rw [symbol_eq, symbol_eq]
  exact ofKind_parallel _ h

/-- An optional keyword is there in both or in neither. -/
theorem optKeyword_parallel (k : Keyword) (h : x.Abreast ts ts') :
    (optKeyword k ts).1 = (optKeyword k ts').1
      ∧ x.Onward ts ts' (optKeyword k ts).2 (optKeyword k ts').2 := by
  have hread := keyword_parallel k h
  unfold optKeyword
  generalize keyword k ts = a at hread ⊢
  generalize keyword k ts' = b at hread ⊢
  cases hread with
  | fail => exact ⟨rfl, h.onward⟩
  | done hrest => exact ⟨rfl, hrest⟩

/-! ## Combinators -/

/-- Corresponding values were taken, and lists abreast are left. -/
structure Step {α : Type} [Written α] (x : Exchange) (ts ts' : List Token) (t t' : Taken α) :
    Prop where
  value : Corresponds x.SameText x.SameSpan t.value t'.value
  onward : x.Onward ts ts' t.rest t'.rest
  open_eq : t.open? = t'.open?

/-- The parsers fail together on lists abreast, or take corresponding values. -/
def Parallel {α : Type} [Written α] (x : Exchange) (p p' : Parser α) : Prop :=
  ∀ ts ts', x.Abreast ts ts' → Together (x.Step ts ts') (p ts) (p' ts')

section Combinators

variable {α β : Type} [Written α] [Written β] {p q p' q' : Parser α}

/-- What was taken behind something else. -/
theorem Step.behind {t t' : Taken α} (h : x.Step rest rest' t t') (hon : x.Onward ts ts' rest rest') :
    x.Step ts ts' t t' :=
  ⟨h.value, hon.trans h.onward, h.open_eq⟩

/-- The texts of what was taken. -/
theorem Step.text {t t' : Taken α} (hts : x.Abreast ts ts') (h : x.Step ts ts' t t') :
    x.SameText (t.text ts) (t'.text ts') := by
  have htext := (place hts h.onward).text t.open?
  rw [Taken.text, Taken.text, ← h.open_eq]
  exact htext

/-- What is made of corresponding values corresponds. -/
theorem Parallel.map (h : x.Parallel p p') {f f' : α → β}
    (hf : ∀ v v', Corresponds x.SameText x.SameSpan v v' →
      Corresponds x.SameText x.SameSpan (f v) (f' v')) :
    x.Parallel (p.map f) (p'.map f') := fun ts ts' hts =>
  (h ts ts' hts).map fun _ _ ht => ⟨hf _ _ ht.value, ht.onward, ht.open_eq⟩

/-- Alternatives: the first fails on both lists or on none. -/
theorem Parallel.orElse (hp : x.Parallel p p') (hq : x.Parallel q q') :
    x.Parallel (p.orElse q) (p'.orElse q') := by
  intro ts ts' hts
  have hread := hp ts ts' hts
  unfold Parser.orElse
  generalize p ts = a at hread ⊢
  generalize p' ts' = b at hread ⊢
  cases hread with
  | fail => exact hq ts ts' hts
  | done h => exact .done h

/-- Repetitions take corresponding values. -/
theorem Parallel.manyUpTo (h : x.Parallel p p') : ∀ (fuel : Nat) (gone gone' : List α) (o : Bool)
    (ts ts' : List Token), x.Abreast ts ts' → ∃ more more',
      (manyUpTo p fuel gone o ts).value = gone.reverse ++ more
        ∧ (manyUpTo p' fuel gone' o ts').value = gone'.reverse ++ more'
        ∧ Corresponds x.SameText x.SameSpan more more'
        ∧ x.Onward ts ts' (manyUpTo p fuel gone o ts).rest (manyUpTo p' fuel gone' o ts').rest
        ∧ (manyUpTo p fuel gone o ts).open? = (manyUpTo p' fuel gone' o ts').open? := by
  -- on the fuel, which is the same on both sides: a part is read in both or in neither
  intro fuel
  induction fuel with
  | zero =>
      intro gone gone' o ts ts' hts
      exact ⟨[], [], (List.append_nil _).symm, (List.append_nil _).symm, .nil, hts.onward, rfl⟩
  | succ fuel ih =>
      intro gone gone' o ts ts' hts
      have hread := h ts ts' hts
      rw [Parser.manyUpTo, Parser.manyUpTo]
      generalize p ts = a at hread ⊢
      generalize p' ts' = b at hread ⊢
      cases hread with
      | fail =>
          exact ⟨[], [], (List.append_nil _).symm, (List.append_nil _).symm, .nil, hts.onward, rfl⟩
      | @done t t' ht =>
          obtain ⟨more, more', hmore, hmore', hvalues, hrest, hopen⟩ :=
            ih (t.value :: gone) (t'.value :: gone') t.open? t.rest t'.rest ht.onward.abreast
          dsimp only
          rw [← ht.open_eq]
          refine ⟨t.value :: more, t'.value :: more', ?_, ?_, ht.value.cons hvalues,
            ht.onward.trans hrest, hopen⟩
          · rw [hmore, List.reverse_cons, List.append_assoc]
            rfl
          · rw [hmore', List.reverse_cons, List.append_assoc]
            rfl

/-- A repetition takes as many parts off both. -/
theorem Parallel.many (h : x.Parallel p p') (hts : x.Abreast ts ts') :
    x.Step ts ts' (many p ts) (many p' ts') := by
  obtain ⟨more, more', hmore, hmore', hvalues, hrest, hopen⟩ :=
    h.manyUpTo ts.length [] [] true ts ts' hts
  rw [Parser.many, Parser.many, ← hts.length]
  refine ⟨?_, hrest, hopen⟩
  rw [hmore, hmore']
  exact hvalues

/-- Lists of corresponding parts correspond. -/
theorem Parallel.commaList (h : x.Parallel p p') : x.Parallel (commaList p) (commaList p') := by
  have hafter : x.Parallel (afterComma p) (afterComma p') := by
    intro ts ts' hts
    have hcomma := symbol_parallel .comma hts
    unfold afterComma
    generalize symbol .comma ts = a at hcomma ⊢
    generalize symbol .comma ts' = b at hcomma ⊢
    cases hcomma with
    | fail => exact .fail
    | done hrest => exact (h _ _ hrest.abreast).mono fun _ _ ht => ht.behind hrest
  intro ts ts' hts
  have hread := h ts ts' hts
  unfold Parser.commaList
  generalize p ts = a at hread ⊢
  generalize p' ts' = b at hread ⊢
  cases hread with
  | fail => exact .fail
  | @done t t' ht =>
      have hmore := hafter.many ht.onward.abreast
      exact .done ⟨ht.value.cons hmore.value, ht.onward.trans hmore.onward, hmore.open_eq⟩

/-- What is there or not is there in both or in neither. -/
theorem Parallel.optional (h : x.Parallel p p') (hts : x.Abreast ts ts') :
    Corresponds x.SameText x.SameSpan (ExprParser.optional p ts).1 (ExprParser.optional p' ts').1
      ∧ x.Onward ts ts' (ExprParser.optional p ts).2 (ExprParser.optional p' ts').2 := by
  have hread := h ts ts' hts
  unfold ExprParser.optional
  generalize p ts = a at hread ⊢
  generalize p' ts' = b at hread ⊢
  cases hread with
  | fail => exact ⟨.none, hts.onward⟩
  | done ht => exact ⟨ht.value.some, ht.onward⟩

end Combinators

/-! ## Primaries -/

/-- Here the texts are seen to differ: a text literal may have any text in each of the two. -/
theorem literal_parallel : x.Parallel ExprParser.literal ExprParser.literal := by
  intro ts ts' hts
  rcases hts.uncons with ⟨rfl, rfl⟩ | ⟨t, t', rest, rest', rfl, rfl, hsame, hrest⟩
  · exact .fail
  · show Together _ ((literal? t).map fun v => (⟨.literal v, rest, false⟩ : Taken Expr))
      ((literal? t').map fun v => (⟨.literal v, rest', false⟩ : Taken Expr))
    rcases hsame with rfl | ⟨rfl, rfl⟩
    · cases literal? t with
      | none => exact .fail
      | some v => exact .done ⟨.literal rfl, hrest, rfl⟩
    · exact .done ⟨.literal rfl, hrest, rfl⟩

/-- The point and the name behind it, if they are there. -/
theorem qualifiedRest_parallel {t t' : Token} (ht : x.SameToken t t') (hts : x.Abreast ts ts') :
    Together (fun a a' => a.1 = a'.1 ∧ x.Onward ts ts' a.2 a'.2)
      (qualifiedRest? t ts) (qualifiedRest? t' ts') := by
  rcases hts.uncons with ⟨rfl, rfl⟩ | ⟨point, point', rest, rest', rfl, rfl, hpoint, hrest⟩
  · exact .fail
  rcases hrest.abreast.uncons with ⟨rfl, rfl⟩ | ⟨u, u', us, us', rfl, rfl, hu, hus⟩
  · exact .fail
  have hgap : t.gap = t'.gap := by
    rcases ht with rfl | ⟨rfl, rfl⟩ <;> rfl
  have hpointGap : point.gap = point'.gap := by
    rcases hpoint with rfl | ⟨rfl, rfl⟩ <;> rfl
  have hdot : point.isSymbol .dot = point'.isSymbol .dot := by
    rw [Token.isSymbol, Token.isSymbol, hpoint.kind]
  rw [qualifiedRest?, qualifiedRest?, hgap, hpointGap, hdot, hu.identifier]
  split
  · cases u'.identifier? with
    | none => exact .fail
    | some name => exact .done ⟨rfl, hrest.trans hus⟩
  · exact .fail

theorem column_parallel : x.Parallel column column := by
  intro ts ts' hts
  rcases hts.uncons with ⟨rfl, rfl⟩ | ⟨t, t', rest, rest', rfl, rfl, hsame, hrest⟩
  · exact .fail
  unfold column
  dsimp only
  rw [hsame.identifier]
  cases t'.identifier? with
  | none => exact .fail
  | some first =>
      have hread := qualifiedRest_parallel hsame hrest.abreast
      dsimp only
      generalize qualifiedRest? t rest = a at hread ⊢
      generalize qualifiedRest? t' rest' = b at hread ⊢
      cases hread with
      | fail => exact .done ⟨.column _, hrest, rfl⟩
      | @done y y' h =>
          obtain ⟨second, rest⟩ := y
          obtain ⟨second', rest'⟩ := y'
          obtain ⟨rfl, hbehind⟩ := h
          exact .done ⟨.column _, hrest.trans hbehind, rfl⟩

section Nested

variable {nested nested' : Parser Expr} (h : x.Parallel nested nested')
include h

/-- What stands between the parentheses of a call. -/
theorem arguments_parallel (hts : x.Abreast ts ts') :
    Corresponds x.SameText x.SameSpan (arguments nested ts).1.args (arguments nested' ts').1.args
      ∧ (arguments nested ts).1.distinct = (arguments nested' ts').1.distinct
      ∧ (arguments nested ts).1.star = (arguments nested' ts').1.star
      ∧ x.Onward ts ts' (arguments nested ts).2 (arguments nested' ts').2 := by
  have hstar := symbol_parallel .star hts
  unfold arguments
  generalize symbol .star ts = a at hstar ⊢
  generalize symbol .star ts' = b at hstar ⊢
  cases hstar with
  | done hrest => exact ⟨.nil, rfl, rfl, hrest⟩
  | fail =>
      obtain ⟨hdistinct, hrest⟩ := optKeyword_parallel .distinct hts
      generalize optKeyword .distinct ts = a at hdistinct hrest ⊢
      generalize optKeyword .distinct ts' = b at hdistinct hrest ⊢
      obtain ⟨distinct, rest⟩ := a
      obtain ⟨distinct', rest'⟩ := b
      obtain rfl : distinct = distinct' := hdistinct
      have hlist := h.commaList rest rest' hrest.abreast
      dsimp only
      generalize Parser.commaList nested rest = a at hlist ⊢
      generalize Parser.commaList nested' rest' = b at hlist ⊢
      cases hlist with
      | fail => exact ⟨.nil, rfl, rfl, hts.onward⟩
      | done ht => exact ⟨ht.value, rfl, rfl, hrest.trans ht.onward⟩

/-- The text of a call is the source of its tokens, so it differs where a literal in it does. -/
theorem call_parallel : x.Parallel (ExprParser.call nested) (ExprParser.call nested') := by
  intro ts ts' hts
  rcases hts.uncons with ⟨rfl, rfl⟩ | ⟨t, t', rest, rest', rfl, rfl, hsame, hrest⟩
  · exact .fail
  have hname : t.functionName? = t'.functionName? := hsame.apply fun _ _ _ => rfl
  unfold ExprParser.call
  dsimp only
  rw [hname]
  cases t'.functionName? with
  | none => exact .fail
  | some name =>
      refine (symbol_parallel .openParen hrest.abreast).bind ?_
      intro inside inside' hinside
      obtain ⟨hargs, hdistinct, hstar, hafter⟩ := arguments_parallel h hinside.abreast
      refine (symbol_parallel .closeParen hafter.abreast).bind ?_
      intro after after' hclose
      have hon := ((hrest.trans hinside).trans hafter).trans hclose
      have hvalue : Corresponds x.SameText x.SameSpan
          (Expr.call name (arguments nested inside).1.args (arguments nested inside).1.distinct
            (arguments nested inside).1.star (sourceOf false (tokensBefore (t :: rest) after)))
          (.call name (arguments nested' inside').1.args (arguments nested' inside').1.distinct
            (arguments nested' inside').1.star
            (sourceOf false (tokensBefore (t' :: rest') after'))) := by
        rw [hdistinct, hstar]
        exact .call name _ _ hargs ((place hts hon).source false)
      exact .done ⟨hvalue, hon, rfl⟩

theorem parenthesized_parallel : x.Parallel (parenthesized nested) (parenthesized nested') := by
  intro ts ts' hts
  refine (symbol_parallel .openParen hts).bind ?_
  intro inside inside' hinside
  refine (h inside inside' hinside.abreast).bind ?_
  intro e e' he
  refine (symbol_parallel .closeParen he.onward.abreast).bind ?_
  intro after after' hafter
  exact .done ⟨he.value, (hinside.trans he.onward).trans hafter, rfl⟩

/-- A keyword and the expression behind it. -/
theorem afterKeyword_parallel (k : Keyword) :
    x.Parallel (afterKeyword k nested) (afterKeyword k nested') := by
  intro ts ts' hts
  have hread := keyword_parallel k hts
  unfold afterKeyword
  generalize keyword k ts = a at hread ⊢
  generalize keyword k ts' = b at hread ⊢
  cases hread with
  | fail => exact .fail
  | done hrest => exact (h _ _ hrest.abreast).mono fun _ _ ht => ht.behind hrest

theorem branch_parallel : x.Parallel (branch nested) (branch nested') := by
  intro ts ts' hts
  refine (afterKeyword_parallel h .when ts ts' hts).bind ?_
  intro condition condition' hcondition
  refine (afterKeyword_parallel h .then _ _ hcondition.onward.abreast).bind ?_
  intro result result' hresult
  exact .done ⟨hcondition.value.pair hresult.value, hcondition.onward.trans hresult.onward,
    hresult.open_eq⟩

/-- Operand, branches and ELSE are there in both or in neither. -/
theorem case_parallel : x.Parallel (ExprParser.case nested) (ExprParser.case nested') := by
  intro ts ts' hts
  refine (keyword_parallel .case hts).bind ?_
  intro rest rest' hrest
  obtain ⟨hsubject, hbranches⟩ := h.optional hrest.abreast
  refine (branch_parallel h _ _ hbranches.abreast).bind ?_
  intro first first' hfirst
  have hmore := (branch_parallel h).many hfirst.onward.abreast
  obtain ⟨hother, hend⟩ := (afterKeyword_parallel h .else).optional hmore.onward.abreast
  refine (keyword_parallel .end hend.abreast).bind ?_
  intro after after' hafter
  have hon := ((((hrest.trans hbranches).trans hfirst.onward).trans hmore.onward).trans hend).trans
    hafter
  exact .done ⟨hsubject.case (hfirst.value.cons hmore.value) hother, hon, rfl⟩

theorem primary_parallel : x.Parallel (primary nested) (primary nested') :=
  literal_parallel.orElse ((case_parallel h).orElse ((call_parallel h).orElse
    (column_parallel.orElse (parenthesized_parallel h))))

/-! ## Operators -/

theorem signed_parallel : x.Parallel (signed nested) (signed nested') := by
  intro ts ts' hts
  have hminus := symbol_parallel .minus hts
  unfold signed
  generalize symbol .minus ts = a at hminus ⊢
  generalize symbol .minus ts' = b at hminus ⊢
  cases hminus with
  | fail => exact primary_parallel h ts ts' hts
  | done hrest =>
      refine (((primary_parallel h).map fun _ _ hv => hv.unary .neg) _ _ hrest.abreast).mono ?_
      exact fun _ _ ht => ht.behind hrest

omit h in
/-- Which operator a token is depends on its kind. -/
theorem operator_parallel {op? : Token → Option BinaryOp} (hop : IsOperator op?)
    {operand operand' : Parser Expr} (h : x.Parallel operand operand') :
    x.Parallel (operatorAndOperand op? operand) (operatorAndOperand op? operand') := by
  intro ts ts' hts
  rcases hts.uncons with ⟨rfl, rfl⟩ | ⟨t, t', rest, rest', rfl, rfl, hsame, hrest⟩
  · exact .fail
  rw [operator_cons, operator_cons, hop.congr t' t hsame.kind]
  cases op? t' with
  | none => exact .fail
  | some op =>
      have hpair : x.Parallel (operand.map fun e => (op, e)) (operand'.map fun e => (op, e)) :=
        h.map fun v v' hv => Corresponds.pair (.of_plain rfl rfl rfl rfl rfl) hv
      exact (hpair rest rest' hrest.abreast).mono fun _ _ ht => ht.behind hrest

omit h in
/-- A chain takes the same operators in both. -/
theorem chain_parallel {op? : Token → Option BinaryOp} (hop : IsOperator op?)
    {operand operand' : Parser Expr} (h : x.Parallel operand operand') :
    x.Parallel (chain op? operand) (chain op? operand') := by
  intro ts ts' hts
  have hread := h ts ts' hts
  unfold ExprParser.chain
  generalize operand ts = a at hread ⊢
  generalize operand' ts' = b at hread ⊢
  cases hread with
  | fail => exact .fail
  | done ht =>
      have hmore := (operator_parallel hop h).many ht.onward.abreast
      exact .done ⟨ht.value.foldl hmore.value, ht.onward.trans hmore.onward, hmore.open_eq⟩

theorem additive_parallel : x.Parallel (additive nested) (additive nested') :=
  chain_parallel isOperator_additive
    (chain_parallel isOperator_multiplicative (signed_parallel h))

/-! ## Predicates -/

omit h in
/-- IS NULL reads no operand. -/
theorem isNullTail_parallel {e e' : Expr} (he : Corresponds x.SameText x.SameSpan e e') :
    x.Parallel (isNullTail e) (isNullTail e') := by
  intro ts ts' hts
  refine (keyword_parallel .is hts).bind ?_
  intro rest rest' hrest
  obtain ⟨hnot, hbehind⟩ := optKeyword_parallel .not hrest.abreast
  refine (keyword_parallel .null hbehind.abreast).bind ?_
  intro after after' hafter
  have hvalue : Corresponds x.SameText x.SameSpan (Expr.isNull e (optKeyword .not rest).1)
      (.isNull e' (optKeyword .not rest').1) := by
    rw [hnot]
    exact he.isNull _
  exact .done ⟨hvalue, (hrest.trans hbehind).trans hafter, rfl⟩

/-- The members of IN stand in parentheses and correspond one by one. -/
theorem inTail_parallel {e e' : Expr} (he : Corresponds x.SameText x.SameSpan e e') :
    x.Parallel (inTail nested e) (inTail nested' e') := by
  intro ts ts' hts
  obtain ⟨hnot, hrest⟩ := optKeyword_parallel .not hts
  refine (keyword_parallel .in hrest.abreast).bind ?_
  intro behind behind' hbehind
  refine (symbol_parallel .openParen hbehind.abreast).bind ?_
  intro inside inside' hinside
  refine (h.commaList inside inside' hinside.abreast).bind ?_
  intro items items' hitems
  refine (symbol_parallel .closeParen hitems.onward.abreast).bind ?_
  intro after after' hafter
  have hon := (((hrest.trans hbehind).trans hinside).trans hitems.onward).trans hafter
  have hvalue : Corresponds x.SameText x.SameSpan
      (Expr.inList e items.value (optKeyword .not ts).1)
      (.inList e' items'.value (optKeyword .not ts').1) := by
    rw [hnot]
    exact he.inList _ hitems.value
  exact .done ⟨hvalue, hon, rfl⟩

/-- BETWEEN reads its upper bound from where the AND behind the lower one is. -/
theorem betweenTail_parallel {e e' : Expr} (he : Corresponds x.SameText x.SameSpan e e') :
    x.Parallel (betweenTail nested e) (betweenTail nested' e') := by
  intro ts ts' hts
  obtain ⟨hnot, hrest⟩ := optKeyword_parallel .not hts
  refine (keyword_parallel .between hrest.abreast).bind ?_
  intro behind behind' hbehind
  refine (additive_parallel h behind behind' hbehind.abreast).bind ?_
  intro low low' hlow
  refine (keyword_parallel .and hlow.onward.abreast).bind ?_
  intro inside inside' hinside
  refine (additive_parallel h inside inside' hinside.abreast).bind ?_
  intro high high' hhigh
  have hon := (((hrest.trans hbehind).trans hlow.onward).trans hinside).trans hhigh.onward
  have hvalue : Corresponds x.SameText x.SameSpan
      (Expr.between e low.value high.value (optKeyword .not ts).1)
      (.between e' low'.value high'.value (optKeyword .not ts').1) := by
    rw [hnot]
    exact he.between _ hlow.value hhigh.value
  exact .done ⟨hvalue, hon, hhigh.open_eq⟩

/-- NOT LIKE is the negation of a comparison, in both or in neither. -/
theorem likeTail_parallel {e e' : Expr} (he : Corresponds x.SameText x.SameSpan e e') :
    x.Parallel (likeTail nested e) (likeTail nested' e') := by
  intro ts ts' hts
  obtain ⟨hnot, hrest⟩ := optKeyword_parallel .not hts
  refine (keyword_parallel .like hrest.abreast).bind ?_
  intro behind behind' hbehind
  refine (additive_parallel h behind behind' hbehind.abreast).bind ?_
  intro pattern pattern' hpattern
  have hlike := he.binary .like hpattern.value
  have hvalue : Corresponds x.SameText x.SameSpan
      (if (optKeyword .not ts).1 then Expr.unary .not (.binary .like e pattern.value)
        else .binary .like e pattern.value)
      (if (optKeyword .not ts').1 then Expr.unary .not (.binary .like e' pattern'.value)
        else .binary .like e' pattern'.value) := by
    rw [hnot]
    split
    · exact hlike.unary .not
    · exact hlike
  exact .done ⟨hvalue, (hrest.trans hbehind).trans hpattern.onward, hpattern.open_eq⟩

/-- A comparison with corresponding right sides. -/
theorem comparisonTail_parallel {e e' : Expr} (he : Corresponds x.SameText x.SameSpan e e') :
    x.Parallel (comparisonTail nested e) (comparisonTail nested' e') := by
  refine (operator_parallel isOperator_comparison (additive_parallel h)).map ?_
  rintro ⟨op, right⟩ ⟨op', right'⟩ hv
  obtain rfl : op = op' := congrArg Prod.fst hv.sameSkeleton
  exact he.binary op ⟨congrArg Prod.snd hv.sameSkeleton, hv.sameTexts, .nil⟩

/-- What is read behind two corresponding subjects. -/
theorem predicateTail_parallel {e e' : Expr} (he : Corresponds x.SameText x.SameSpan e e') :
    x.Parallel (predicateTail nested e) (predicateTail nested' e') :=
  (isNullTail_parallel he).orElse ((inTail_parallel h he).orElse ((betweenTail_parallel h he).orElse
    ((likeTail_parallel h he).orElse (comparisonTail_parallel h he))))

/-- The tails of a predicate begin with the same words in both. -/
theorem predicate_parallel : x.Parallel (predicate nested) (predicate nested') := by
  intro ts ts' hts
  rw [predicate_eq, predicate_eq]
  refine (additive_parallel h ts ts' hts).bind ?_
  intro subject subject' hsubject
  have htail := predicateTail_parallel h hsubject.value _ _ hsubject.onward.abreast
  generalize predicateTail nested subject.value subject.rest = a at htail ⊢
  generalize predicateTail nested' subject'.value subject'.rest = b at htail ⊢
  cases htail with
  | fail => exact .done ⟨hsubject.value, hsubject.onward, rfl⟩
  | done ht => exact .done (ht.behind hsubject.onward)

/-! ## Connectives -/

/-- As many NOTs stand in front in both. -/
theorem negation_parallel : x.Parallel (negation nested) (negation nested') := by
  intro ts
  induction ts with
  | nil =>
      intro ts' hts
      have hpredicate := predicate_parallel h [] ts' hts
      rcases hts.uncons with ⟨-, rfl⟩ | ⟨_, _, _, _, hnil, _⟩
      · exact hpredicate
      · exact nomatch hnil
  | cons t rest ih =>
      intro ts' hts
      have hpredicate := predicate_parallel h (t :: rest) ts' hts
      rcases hts.uncons with ⟨hnil, -⟩ | ⟨u, t', us, rest', heq, rfl, hsame, hrest⟩
      · exact nomatch hnil
      obtain ⟨rfl, rfl⟩ := List.cons.inj heq
      have hnot : t.isKeyword .not = t'.isKeyword .not := by
        rw [Token.isKeyword, Token.isKeyword, hsame.kind]
      rw [negation, negation, hnot]
      split
      · have hread := ih rest' hrest.abreast
        generalize negation nested rest = a at hread ⊢
        generalize negation nested' rest' = b at hread ⊢
        cases hread with
        | fail => exact hpredicate
        | done he => exact .done ⟨he.value.unary .not, hrest.trans he.onward, he.open_eq⟩
      · exact hpredicate

/-- A level of expressions is parallel if the one below it is. This is the step of
`expr_parallel`. -/
theorem disjunction_parallel : x.Parallel (disjunction nested) (disjunction nested') :=
  chain_parallel (isOperator_keyword rfl rfl)
    (chain_parallel (isOperator_keyword rfl rfl) (negation_parallel h))

end Nested

/-- Expressions on lists abreast fail together or correspond. -/
theorem expr_parallel (depth : Nat) : x.Parallel (expr depth) (expr depth) := by
  induction depth with
  | zero => exact fun _ _ _ => .fail
  | succ depth ih => exact disjunction_parallel ih

end Exchange

end QueryReplay.Sql
