import Mathlib.Data.List.TakeWhile
import QueryReplay.Proofs.Slices
import QueryReplay.Sql.Token

/-! # Gaps — blanks and comments between tokens

    A gap is a run of blanks and comments, and it may end inside a line comment
    that no newline closes.  Such an open gap swallows whatever is put behind
    it; all others can be followed by anything that does not go on as a gap.
    The facts that cutting and joining texts needs:

    * `gap` reads exactly the gap in front of a text (`gap_append`), and what it
      reads is one (`gap_split`);
    * closed gaps can be put together (`Gap.append`);
    * a gap without its trailing blanks is a gap, perhaps an open one, and then
      swallows what is put in front of those blanks (`Gap.trim`). -/

namespace QueryReplay.Sql.Lexer

open QueryReplay.Text

/-! ## Block comments -/

/-- The characters of a block comment behind its opening, through the first end. -/
inductive Block : List Char → Prop
  | close : Block ['*', '/']
  | char {c : Char} {body : List Char} (h : ∀ more, c :: body ≠ '*' :: '/' :: more) :
      Block body → Block (c :: body)

theorem blockEnd_char {c : Char} {rest : List Char} (h : ∀ more, c :: rest ≠ '*' :: '/' :: more) :
    blockEnd? (c :: rest) = (blockEnd? rest).map fun (body, rest) => (c :: body, rest) := by
  rw [blockEnd?]
  intro more hc hrest
  exact h more (by rw [hc, hrest])

/-- The end that is found closes a block comment. -/
theorem blockEnd_split : ∀ {cs body rest : List Char}, blockEnd? cs = some (body, rest) →
    cs = body ++ rest ∧ Block body := by
  intro cs
  induction cs with
  | nil => intro body rest h; exact nomatch h
  | cons c cs ih =>
      intro body rest h
      by_cases hend : ∃ more, c :: cs = '*' :: '/' :: more
      · obtain ⟨more, heq⟩ := hend
        rw [heq] at h ⊢
        obtain ⟨rfl, rfl⟩ := Prod.mk.inj (Option.some.inj h)
        exact ⟨rfl, .close⟩
      · have hne : ∀ more, c :: cs ≠ '*' :: '/' :: more := fun more heq => hend ⟨more, heq⟩
        rw [blockEnd_char hne] at h
        obtain ⟨⟨body', rest'⟩, hbody, heq⟩ := Option.map_eq_some_iff.mp h
        obtain ⟨rfl, rfl⟩ := Prod.mk.inj heq
        obtain ⟨rfl, hblock⟩ := ih hbody
        refine ⟨rfl, .char (fun more hmore => hne (more ++ rest') ?_) hblock⟩
        rw [← List.cons_append, hmore]
        rfl

theorem Block.length {body : List Char} (h : Block body) : 2 ≤ body.length := by
  cases h with
  | close => exact Nat.le_refl 2
  | char _ hbody =>
      cases hbody <;> simp

/-- What stands behind a block comment does not change where it ends. -/
theorem Block.append {body : List Char} (h : Block body) (rest : List Char) :
    blockEnd? (body ++ rest) = some (body, rest) := by
  induction h with
  | close => rfl
  | char hne hbody ih =>
      rename_i c body
      have hne' : ∀ more, c :: (body ++ rest) ≠ '*' :: '/' :: more := by
        intro more heq
        cases body with
        | nil => exact absurd hbody.length (by decide)
        | cons d body =>
            obtain ⟨rfl, htail⟩ := List.cons.inj heq
            obtain ⟨rfl, -⟩ := List.cons.inj htail
            exact hne body rfl
      rw [List.cons_append, blockEnd_char hne', ih]
      rfl

/-- A block comment ends in a slash, so trimming does not reach into it. -/
theorem Block.ends {body : List Char} (h : Block body) : ∃ front, body = front ++ ['/'] := by
  induction h with
  | close => exact ⟨['*'], rfl⟩
  | char _ _ ih =>
      obtain ⟨front, rfl⟩ := ih
      exact ⟨_ :: front, rfl⟩

/-! ## Gaps -/

/-- A run of blanks and comments; the flag tells whether it ends inside a line
    comment. -/
inductive Gap : Bool → List Char → Prop
  | nil : Gap false []
  | blank {o : Bool} {c : Char} {g : List Char} (h : isGapBlank c = true) : Gap o g → Gap o (c :: g)
  | line {o : Bool} {body g : List Char} (h : ∀ c ∈ body, c ≠ '\n') :
      Gap o g → Gap o ('-' :: '-' :: (body ++ '\n' :: g))
  | block {o : Bool} {body g : List Char} (h : Block body) :
      Gap o g → Gap o ('/' :: '*' :: (body ++ g))
  | last {body : List Char} (h : ∀ c ∈ body, c ≠ '\n') : Gap true ('-' :: '-' :: body)

/-- Whether a text goes on as a gap. -/
def startsGap : List Char → Bool
  | '-' :: '-' :: _ => true
  | '/' :: '*' :: rest => (blockEnd? rest).isSome
  | c :: _ => isGapBlank c
  | [] => false

/-- No gap begins here, and the reader takes nothing. -/
theorem gap_none {r : List Char} (h : startsGap r = false) (fuel : Nat) : gap fuel r = ([], r) := by
  cases fuel with
  | zero => rfl
  | succ fuel =>
      unfold gap
      split
      · rfl
      · exact nomatch h
      · rename_i rest
        have hnone : blockEnd? rest = none := by
          have hsome : (blockEnd? rest).isSome = false := h
          exact Option.isSome_eq_false_iff.mp hsome |> Option.isNone_iff_eq_none.mp
        rw [hnone]
      · rename_i c rest hdash hslash
        have hblank : isGapBlank c = false := by
          unfold startsGap at h
          split at h
          · exact nomatch h
          · rename_i heq
            exact absurd (List.cons.inj heq).1 (fun hc => hslash _ hc (List.cons.inj heq).2)
          · rename_i heq
            obtain ⟨rfl, -⟩ := List.cons.inj heq
            exact h
          · rename_i heq
            exact nomatch heq
        rw [if_neg (by rw [hblank]; exact Bool.false_ne_true)]

theorem gap_blank {c : Char} (h : isGapBlank c = true) (fuel : Nat) (cs : List Char) :
    gap (fuel + 1) (c :: cs) = (c :: (gap fuel cs).1, (gap fuel cs).2) := by
  rw [gap]
  · rw [if_pos h]
  · rintro rest rfl -
    exact absurd h (by decide)
  · rintro rest rfl -
    exact absurd h (by decide)

theorem gap_openLine (fuel : Nat) (cs : List Char) : gap (fuel + 1) ('-' :: '-' :: cs)
    = ('-' :: '-' :: cs.takeWhile (· != '\n') ++ (gap fuel (cs.dropWhile (· != '\n'))).1,
      (gap fuel (cs.dropWhile (· != '\n'))).2) := rfl

theorem gap_line {body : List Char} (h : ∀ c ∈ body, c ≠ '\n') (fuel : Nat) (cs : List Char) :
    gap (fuel + 1) ('-' :: '-' :: (body ++ '\n' :: cs))
      = ('-' :: '-' :: (body ++ (gap fuel ('\n' :: cs)).1), (gap fuel ('\n' :: cs)).2) := by
  have hbody : ∀ c ∈ body, (c != '\n') = true := fun c hc => bne_iff_ne.mpr (h c hc)
  have htake : (body ++ '\n' :: cs).takeWhile (· != '\n') = body := by
    rw [List.takeWhile_append_of_pos hbody]
    exact List.append_nil body
  have hdrop : (body ++ '\n' :: cs).dropWhile (· != '\n') = '\n' :: cs := by
    rw [List.dropWhile_append_of_pos hbody]
    rfl
  rw [gap_openLine, htake, hdrop]
  rfl

theorem gap_last {body : List Char} (h : ∀ c ∈ body, c ≠ '\n') (fuel : Nat) :
    gap (fuel + 1) ('-' :: '-' :: body) = ('-' :: '-' :: body, []) := by
  have hbody : ∀ c ∈ body, (c != '\n') = true := fun c hc => bne_iff_ne.mpr (h c hc)
  have htake : body.takeWhile (· != '\n') = body := List.takeWhile_eq_self_iff.mpr hbody
  have hdrop : body.dropWhile (· != '\n') = [] := List.dropWhile_eq_nil_iff.mpr hbody
  rw [gap_openLine, htake, hdrop, gap_none rfl]
  show ('-' :: '-' :: body ++ [], ([] : List Char)) = _
  rw [List.append_nil]

theorem gap_block {body : List Char} (h : Block body) (fuel : Nat) (cs : List Char) :
    gap (fuel + 1) ('/' :: '*' :: (body ++ cs))
      = ('/' :: '*' :: (body ++ (gap fuel cs).1), (gap fuel cs).2) := by
  rw [gap, h.append cs]
  rfl

/-- The reader takes exactly the gap in front of a text that does not go on as
    one; behind an open gap there is no text. -/
theorem gap_append {o : Bool} {g r : List Char} (h : Gap o g) (hr : startsGap r = false)
    (ho : o = true → r = []) : ∀ fuel, (g ++ r).length ≤ fuel → gap fuel (g ++ r) = (g, r) := by
  induction h with
  | nil => intro fuel _; exact gap_none hr fuel
  | blank hc _ ih =>
      intro fuel hfuel
      obtain ⟨fuel, rfl⟩ : ∃ n, fuel = n + 1 := ⟨fuel - 1, by simp at hfuel; omega⟩
      rw [List.cons_append, gap_blank hc, ih ho fuel (by simp at hfuel ⊢; omega)]
  | line hbody _ ih =>
      intro fuel hfuel
      obtain ⟨fuel, rfl⟩ : ∃ n, fuel = n + 2 := ⟨fuel - 2, by simp at hfuel; omega⟩
      simp only [List.cons_append, List.append_assoc]
      rw [gap_line hbody, gap_blank (by decide), ih ho fuel (by simp at hfuel ⊢; omega)]
  | block hbody _ ih =>
      intro fuel hfuel
      obtain ⟨fuel, rfl⟩ : ∃ n, fuel = n + 1 := ⟨fuel - 1, by simp at hfuel; omega⟩
      simp only [List.cons_append, List.append_assoc]
      rw [gap_block hbody, ih ho fuel (by simp at hfuel ⊢; omega)]
  | last hbody =>
      intro fuel hfuel
      obtain ⟨fuel, rfl⟩ : ∃ n, fuel = n + 1 := ⟨fuel - 1, by simp at hfuel; omega⟩
      rw [ho rfl, List.append_nil, gap_last hbody]

/-- A text has no newline, or a first one. -/
theorem line_split (cs : List Char) : (∀ c ∈ cs, c ≠ '\n') ∨
    ∃ body after, cs = body ++ '\n' :: after ∧ ∀ c ∈ body, c ≠ '\n' := by
  induction cs with
  | nil => exact Or.inl fun _ h => absurd h List.not_mem_nil
  | cons c cs ih =>
      by_cases hc : c = '\n'
      · exact Or.inr ⟨[], cs, by rw [hc]; rfl, fun _ h => absurd h List.not_mem_nil⟩
      · rcases ih with hnone | ⟨body, after, rfl, hbody⟩
        · refine Or.inl (fun d hd => ?_)
          rcases List.mem_cons.mp hd with rfl | hd
          · exact hc
          · exact hnone d hd
        · refine Or.inr ⟨c :: body, after, rfl, fun d hd => ?_⟩
          rcases List.mem_cons.mp hd with rfl | hd
          · exact hc
          · exact hbody d hd

/-- A gap in front of a text that begins with a newline begins with it, too. -/
theorem Gap.newline {o : Bool} {g r after : List Char} (h : Gap o g)
    (hsplit : '\n' :: after = g ++ r) (hr : startsGap r = false) :
    ∃ g', g = '\n' :: g' ∧ Gap o g' := by
  cases h with
  | nil =>
      rw [← show '\n' :: after = r from hsplit] at hr
      exact nomatch hr
  | blank _ hgap =>
      obtain ⟨rfl, -⟩ := List.cons.inj hsplit
      exact ⟨_, rfl, hgap⟩
  | line _ _ => exact absurd (List.cons.inj hsplit).1 (by decide)
  | block _ _ => exact absurd (List.cons.inj hsplit).1 (by decide)
  | last _ => exact absurd (List.cons.inj hsplit).1 (by decide)

/-- What the reader takes is a gap, and the rest does not go on as one. -/
theorem gap_split : ∀ (fuel : Nat) {cs g r : List Char}, cs.length ≤ fuel →
    gap fuel cs = (g, r) →
    cs = g ++ r ∧ startsGap r = false ∧ ∃ o, Gap o g ∧ (o = true → r = []) := by
  intro fuel
  induction fuel with
  | zero =>
      intro cs g r hlen h
      obtain rfl : cs = [] := List.length_eq_zero_iff.mp (Nat.le_zero.mp hlen)
      obtain ⟨rfl, rfl⟩ := Prod.mk.inj h
      exact ⟨rfl, rfl, false, .nil, fun h => nomatch h⟩
  | succ fuel ih =>
      intro cs g r hlen h
      -- by what the gap begins with: a line comment, closed by a newline or open to the end, a
      -- block comment, a blank
      by_cases hstart : startsGap cs = true
      · unfold startsGap at hstart
        split at hstart
        · rename_i rest
          rcases line_split rest with hbody | ⟨body, after, rfl, hbody⟩
          · rw [gap_last hbody] at h
            obtain ⟨rfl, rfl⟩ := Prod.mk.inj h
            exact ⟨(List.append_nil _).symm, rfl, true, .last hbody, fun _ => rfl⟩
          · rcases hread : gap fuel ('\n' :: after) with ⟨more, r'⟩
            rw [gap_line hbody, hread] at h
            obtain ⟨rfl, rfl⟩ := Prod.mk.inj h
            obtain ⟨hsplit, hr, o, hgap, ho⟩ := ih (by simp at hlen ⊢; omega) hread
            obtain ⟨g, rfl, hrest⟩ := hgap.newline hsplit hr
            refine ⟨?_, hr, o, .line hbody hrest, ho⟩
            rw [hsplit]
            simp only [List.cons_append, List.append_assoc]
        · rename_i rest
          obtain ⟨⟨body, after⟩, hblock⟩ := Option.isSome_iff_exists.mp hstart
          obtain ⟨rfl, hbody⟩ := blockEnd_split hblock
          rw [gap_block hbody] at h
          obtain ⟨rfl, rfl⟩ := Prod.mk.inj h
          obtain ⟨hsplit, hr, o, hgap, ho⟩ := @ih after _ _ (by simp at hlen; omega) rfl
          refine ⟨?_, hr, o, .block hbody hgap, ho⟩
          simp only [List.cons_append, List.append_assoc]
          rw [← hsplit]
        · rename_i c rest _ _
          rw [gap_blank hstart] at h
          obtain ⟨rfl, rfl⟩ := Prod.mk.inj h
          obtain ⟨hsplit, hr, o, hgap, ho⟩ := @ih rest _ _ (by simp at hlen; omega) rfl
          refine ⟨?_, hr, o, .blank hstart hgap, ho⟩
          rw [List.cons_append, ← hsplit]
        · exact nomatch hstart
      · have hstart : startsGap cs = false := Bool.eq_false_iff.mpr hstart
        rw [gap_none hstart] at h
        obtain ⟨rfl, rfl⟩ := Prod.mk.inj h
        exact ⟨rfl, hstart, false, .nil, fun h => nomatch h⟩

/-! ## Putting gaps together -/

/-- A gap behind a closed one. -/
theorem Gap.append {o : Bool} {g h : List Char} (hg : Gap false g) (hh : Gap o h) :
    Gap o (g ++ h) := by
  generalize hb : false = b at hg
  induction hg with
  | nil => exact hh
  | blank hc _ ih => exact .blank hc (ih hb)
  | line hbody _ ih =>
      rw [List.cons_append, List.cons_append, List.append_assoc]
      exact .line hbody (ih hb)
  | block hbody _ ih =>
      rw [List.cons_append, List.cons_append, List.append_assoc]
      exact .block hbody (ih hb)
  | last _ => exact nomatch hb

/-- An open gap swallows what is put behind it, up to a newline. -/
theorem Gap.swallow {g cs : List Char} (hg : Gap true g) (hcs : ∀ c ∈ cs, c ≠ '\n') :
    Gap true (g ++ cs) := by
  generalize hb : true = b at hg
  induction hg with
  | nil => exact nomatch hb
  | blank hc _ ih => exact .blank hc (ih hb)
  | line hbody _ ih =>
      rw [List.cons_append, List.cons_append, List.append_assoc]
      exact .line hbody (ih hb)
  | block hbody _ ih =>
      rw [List.cons_append, List.cons_append, List.append_assoc]
      exact .block hbody (ih hb)
  | last hbody =>
      refine .last (fun c hc => ?_)
      rcases List.mem_append.mp hc with hc | hc
      · exact hbody c hc
      · exact hcs c hc

/-- Whether a gap ends inside a line comment: it would swallow a letter. -/
def endsOpen (g : List Char) : Bool := (gap (g.length + 1) (g ++ ['x'])).2.isEmpty

theorem endsOpen_eq {o : Bool} {g : List Char} (h : Gap o g) : endsOpen g = o := by
  have hlen : (g ++ ['x']).length ≤ g.length + 1 := by simp
  cases o with
  | false =>
      rw [endsOpen, gap_append h (by decide) (fun ho => nomatch ho) _ hlen]
      rfl
  | true =>
      have hswallow : Gap true (g ++ ['x']) := h.swallow (by simp)
      have hread := gap_append (r := []) hswallow rfl (fun _ => rfl) (g.length + 1) (by simp)
      rw [List.append_nil] at hread
      rw [endsOpen, hread]
      rfl

/-! ## Trimming gaps -/

theorem isBlank_of_isGapBlank {c : Char} (h : isGapBlank c = true) : isBlank c = true := by
  simp only [isGapBlank, Bool.or_eq_true, beq_iff_eq] at h
  rcases h with ((rfl | rfl) | rfl) | rfl <;> decide

/-- Nothing but blanks between tokens. -/
theorem gap_of_blanks {w : List Char} (h : ∀ c ∈ w, isGapBlank c = true) : Gap false w := by
  induction w with
  | nil => exact .nil
  | cons c w ih =>
      exact .blank (h c List.mem_cons_self) (ih fun d hd => h d (List.mem_cons_of_mem c hd))

/-- A gap cut in two.  Either the front is closed and the back a gap of its own, or
    the front is open and swallows what is put between it and the back. -/
inductive Halves (w : Bool) (front back : List Char) : Bool → Prop
  | closed (hfront : Gap false front) (hback : Gap w back) : Halves w front back false
  | swallow (hfront : Gap true front)
      (h : ∀ cs : List Char, (∀ c ∈ cs, c ≠ '\n') → Gap w (front ++ (cs ++ back))) :
      Halves w front back true

theorem Halves.front_gap {w o : Bool} {front back : List Char} (h : Halves w front back o) :
    Gap o front := by
  cases h with
  | closed hfront _ => exact hfront
  | swallow hfront _ => exact hfront

/-- The halves of a gap with something in front that makes gaps of gaps. -/
theorem Halves.behind {w o : Bool} {front back more : List Char} (h : Halves w front back o)
    (hmore : ∀ {o : Bool} {g : List Char}, Gap o g → Gap o (more ++ g)) :
    Halves w (more ++ front) back o := by
  cases h with
  | closed hfront hback => exact .closed (hmore hfront) hback
  | swallow hfront h =>
      refine .swallow (hmore hfront) (fun cs hcs => ?_)
      rw [List.append_assoc]
      exact hmore (h cs hcs)

section Trailing

variable {p : Char → Bool} (hblank : ∀ c, isGapBlank c = true → p c = true) (hdash : p '-' = false)
  (hslash : p '/' = false)

/-- A line comment without some of its end swallows what is put behind it. -/
theorem halves_line (p : Char → Bool) {w : Bool} {body back : List Char}
    (hbody : ∀ c ∈ body, c ≠ '\n')
    (hback : ∀ cs : List Char, (∀ c ∈ cs, c ≠ '\n') → Gap w ('-' :: '-' :: (cs ++ back))) :
    ∃ dropped, body = dropTrailing p body ++ dropped
      ∧ Halves w ('-' :: '-' :: dropTrailing p body) (dropped ++ back) true := by
  obtain ⟨dropped, hsplit, -, -⟩ := dropTrailing_split p body
  have hfront : ∀ c ∈ dropTrailing p body, c ≠ '\n' :=
    fun c hc => hbody c (hsplit ▸ List.mem_append_left dropped hc)
  refine ⟨dropped, hsplit, .swallow (.last hfront) (fun cs hcs => ?_)⟩
  have hline : ∀ c ∈ dropTrailing p body ++ (cs ++ dropped), c ≠ '\n' := by
    intro c hc
    rcases List.mem_append.mp hc with hc | hc
    · exact hfront c hc
    · rcases List.mem_append.mp hc with hc | hc
      · exact hcs c hc
      · exact hbody c (hsplit ▸ List.mem_append_right _ hc)
  have hgap := hback _ hline
  simp only [List.append_assoc] at hgap
  exact hgap

include hblank hdash hslash

/-- A gap is cut in two by taking characters off its end, all blanks among them
    and nothing that begins or ends a comment. -/
theorem Gap.dropTrailing {w : Bool} {g : List Char} (h : Gap w g) :
    ∃ o back, g = Text.dropTrailing p g ++ back ∧ Halves w (Text.dropTrailing p g) back o := by
  -- Where the rest of the gap drops away, what is in front of it loses characters too; else it
  -- stays as it is and the rest is split.
  induction h with
  | nil => exact ⟨false, [], rfl, .closed .nil .nil⟩
  | @blank w c g hc hg ih =>
      obtain ⟨o, back, hsplit, hhalves⟩ := ih
      by_cases hnil : Text.dropTrailing p g = []
      · have hall : Text.dropTrailing p (c :: g) = [] := by
          rw [← List.singleton_append, dropTrailing_append_nil [c] hnil]
          exact dropTrailing_append_of_all [] (fun d hd => List.mem_singleton.mp hd ▸ hblank c hc)
        rw [hall]
        exact ⟨false, c :: g, rfl, .closed .nil (.blank hc hg)⟩
      · rw [← List.singleton_append, dropTrailing_append [c] hnil]
        exact ⟨o, back, by rw [List.append_assoc, ← hsplit], hhalves.behind (.blank hc)⟩
  | @line w body g hbody hg ih =>
      obtain ⟨o, back, hsplit, hhalves⟩ := ih
      by_cases hnil : Text.dropTrailing p g = []
      · -- the newline goes with the rest, and the comment is open
        have hnewline : Text.dropTrailing p ('\n' :: g) = [] := by
          rw [← List.singleton_append, dropTrailing_append_nil _ hnil]
          exact dropTrailing_append_of_all [] (fun d hd =>
            List.mem_singleton.mp hd ▸ hblank '\n' (by decide))
        have hline : Text.dropTrailing p ('-' :: '-' :: (body ++ '\n' :: g))
            = '-' :: '-' :: Text.dropTrailing p body := by
          rw [show '-' :: '-' :: (body ++ '\n' :: g) = ['-'] ++ ['-'] ++ body ++ '\n' :: g by simp,
            dropTrailing_append_nil _ hnewline, dropTrailing_behind ['-'] hdash]
          rfl
        obtain ⟨dropped, hbodySplit, hhalves⟩ := halves_line p hbody fun cs hcs => Gap.line hcs hg
        rw [hline]
        refine ⟨true, dropped ++ '\n' :: g, ?_, hhalves⟩
        rw [List.cons_append, List.cons_append, ← List.append_assoc, ← hbodySplit]
      · have hfront : '-' :: '-' :: (body ++ '\n' :: g) = ('-' :: '-' :: (body ++ ['\n'])) ++ g := by
          simp
        rw [hfront, dropTrailing_append _ hnil]
        refine ⟨o, back, by rw [List.append_assoc, ← hsplit], hhalves.behind (fun hgap => ?_)⟩
        rw [List.cons_append, List.cons_append, List.append_assoc]
        exact .line hbody hgap
  -- a closed comment ends in a slash, which is not dropped
  | @block w body g hbody hg ih =>
      obtain ⟨o, back, hsplit, hhalves⟩ := ih
      have hblock : Text.dropTrailing p ('/' :: '*' :: (body ++ g))
          = '/' :: '*' :: body ++ Text.dropTrailing p g := by
        obtain ⟨front, rfl⟩ := hbody.ends
        exact dropTrailing_behind ('/' :: '*' :: front) hslash g
      rw [hblock]
      refine ⟨o, back, ?_, hhalves.behind (.block hbody)⟩
      rw [List.append_assoc, ← hsplit]
      rfl
  -- the comment stays open, also when blanks at its end are dropped
  | @last body hbody =>
      have hline : Text.dropTrailing p ('-' :: '-' :: body) = '-' :: '-' :: Text.dropTrailing p body :=
        dropTrailing_behind ['-'] hdash body
      obtain ⟨dropped, hbodySplit, hhalves⟩ := @halves_line p true body [] hbody fun cs hcs => by
        rw [List.append_nil]
        exact .last hcs
      rw [List.append_nil] at hhalves
      rw [hline]
      refine ⟨true, dropped, ?_, hhalves⟩
      rw [List.cons_append, List.cons_append, ← hbodySplit]

end Trailing

/-- A gap is cut in two by taking off its trailing blanks. -/
theorem Gap.trim {w : Bool} {g : List Char} (h : Gap w g) :
    ∃ o back, g = Text.dropTrailing isBlank g ++ back
      ∧ Halves w (Text.dropTrailing isBlank g) back o :=
  h.dropTrailing (fun _ => isBlank_of_isGapBlank) (by decide) (by decide)

end QueryReplay.Sql.Lexer
