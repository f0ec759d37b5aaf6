import QueryReplay.Proofs.Cutting
import QueryReplay.Proofs.Literals
import QueryReplay.Proofs.Skeletons

/-! # Exchange — one text literal in the place of another

    Two token lists are the same but for one text literal.  The parsers are run
    on both, and keep abreast: what is left of the one list and of the other
    begins with the same tokens in front of the two literals, or is the same
    list behind them (`Abreast`).  No parser looks at more of a text literal
    than that it is one, so the runs fail together or build values that
    correspond.  What is kept of the
    wording is told by where a part begins and ends: a text around the literal
    holds it, all others are equal (`Place.text`), and an offset behind the
    literal is as far behind its end in both (`Place.span`). -/

namespace QueryReplay.Sql

open QueryReplay.Sql.Parser QueryReplay.Sql.StatementParser QueryReplay.Sql.ExprParser
open QueryReplay.Text (bytes trimEnd dropTrailing isBlank)
open Lexer (chars Lexeme)

/-! ## What is the same -/

/-- Equal texts, or texts that are equal around the one literal and the other. -/
def SameAround (here there : String) (u v : String) : Prop :=
  u = v ∨ ∃ before behind,
    u = before ++ inMarks here ++ behind ∧ v = before ++ inMarks there ++ behind

/-- The same offset in front of the literals, which begin at `offset`, or as far
    behind the one as behind the other. -/
def SameOffset (offset : Nat) (here there : String) (i j : Nat) : Prop :=
  i = j ∧ i ≤ offset ∨ ∃ d, i = offset + (inMarks here).utf8ByteSize + d
    ∧ j = offset + (inMarks there).utf8ByteSize + d

def SamePlace (offset : Nat) (here there : String) (a b : Span) : Prop :=
  SameOffset offset here there a.start b.start ∧ SameOffset offset here there a.stop b.stop

/-! ## Two lists -/

/-- Two text literals with one gap in front of the same tokens, behind the same
    number of bytes. -/
structure Exchange where
  here : String
  there : String
  gap : String
  back : List Token
  offset : Nat

namespace Exchange

section Lists

variable (x : Exchange)

def left : Token := ⟨.text, inMarks x.here, x.gap⟩

def right : Token := ⟨.text, inMarks x.there, x.gap⟩

/-- The sizes of the two texts. -/
def size : Nat := x.offset + byteSize (x.left :: x.back)

def size' : Nat := x.offset + byteSize (x.right :: x.back)

abbrev SameText : String → String → Prop := SameAround x.here x.there

abbrev SameSpan : Span → Span → Prop := SamePlace x.offset x.here x.there

/-- The same tokens in front of the two literals, or the same list behind them. -/
inductive Abreast : List Token → List Token → Prop
  | before {front : List Token} (h : byteSize front ≤ x.offset) :
      Abreast (front ++ x.left :: x.back) (front ++ x.right :: x.back)
  | behind {rest : List Token} (h : rest <:+ x.back) : Abreast rest rest

/-- What is left of lists that were abreast is abreast. -/
structure Onward (ts ts' rest rest' : List Token) : Prop where
  abreast : x.Abreast rest rest'
  left : rest <:+ ts
  right : rest' <:+ ts'

end Lists

variable {x : Exchange} {ts ts' rest rest' us us' : List Token}

/-- Going on twice. -/
theorem Onward.trans (h : x.Onward ts ts' us us') (h' : x.Onward us us' rest rest') :
    x.Onward ts ts' rest rest' :=
  ⟨h'.abreast, h'.left.trans h.left, h'.right.trans h.right⟩

theorem Abreast.onward (h : x.Abreast ts ts') : x.Onward ts ts' ts ts' :=
  ⟨h, List.suffix_refl ts, List.suffix_refl ts'⟩

/-- Lists abreast are equally long. -/
theorem Abreast.length (h : x.Abreast ts ts') : ts.length = ts'.length := by
  cases h with
  | before _ => simp only [List.length_append, List.length_cons]
  | behind _ => rfl

/-! ## Texts and places -/

/-- The text around a token is its lexeme between two texts that do not depend on it. -/
theorem sourceOf_around (o : Bool) (gap : String) (front more : List Token) :
    ∃ v, ∀ kind lexeme, (sourceOf o (front ++ ⟨kind, lexeme, gap⟩ :: more)).toList
      = chars front ++ (lexeme.toList ++ v) := by
  rcases List.eq_nil_or_concat more with rfl | ⟨init, u, rfl⟩
  · exact ⟨if o then gap.toList else [], fun kind lexeme => sourceOf_eq o front ⟨kind, lexeme, gap⟩⟩
  · refine ⟨gap.toList ++ (chars init ++ (u.lexeme.toList ++ if o then u.gap.toList else [])),
      fun kind lexeme => ?_⟩
    rw [List.concat_eq_append, ← List.cons_append, ← List.append_assoc, sourceOf_eq,
      Lexer.chars_append, Lexer.chars_cons]
    simp only [List.append_assoc]

/-- Trimming a text around a literal does not reach into the literal. -/
theorem trimEnd_around (s : String) (u v : List Char) :
    (trimEnd (String.ofList (u ++ ((inMarks s).toList ++ v)))).toList
      = u ++ ((inMarks s).toList ++ dropTrailing isBlank v) := by
  rw [trimEnd, String.toList_ofList, String.toList_ofList, inMarks_toList]
  have hassoc : ∀ w : List Char, u ++ ('\'' :: (s.toList ++ ['\'']) ++ w)
      = (u ++ '\'' :: s.toList) ++ ['\''] ++ w := by
    intro w
    simp only [List.cons_append, List.append_assoc, List.nil_append]
  rw [hassoc, hassoc, Text.dropTrailing_behind _ (by decide)]

/-- Where a part stands that was taken off lists abreast. -/
inductive Place (x : Exchange) (ts ts' rest rest' : List Token) : Prop
  /-- In front of the literal. -/
  | before (used : List Token) (start : Nat) (hused : tokensBefore ts rest = used)
      (hused' : tokensBefore ts' rest' = used) (hstart : x.size - byteSize ts = start)
      (hstart' : x.size' - byteSize ts' = start) (hstop : start + byteSize used ≤ x.offset)
  /-- Around the literal. -/
  | around (front more : List Token) (start : Nat)
      (hused : tokensBefore ts rest = front ++ x.left :: more)
      (hused' : tokensBefore ts' rest' = front ++ x.right :: more)
      (hstart : x.size - byteSize ts = start) (hstart' : x.size' - byteSize ts' = start)
      (hstop : start + byteSize front = x.offset)
  /-- Behind the literal. -/
  | behind (used : List Token) (d : Nat) (hused : tokensBefore ts rest = used)
      (hused' : tokensBefore ts' rest' = used)
      (hstart : x.size - byteSize ts = x.offset + (inMarks x.here).utf8ByteSize + d)
      (hstart' : x.size' - byteSize ts' = x.offset + (inMarks x.there).utf8ByteSize + d)

theorem byteSize_cons (t : Token) (ts : List Token) :
    byteSize (t :: ts) = t.lexeme.utf8ByteSize + t.gap.utf8ByteSize + byteSize ts := by
  rw [byteSize, List.map_cons, List.sum_cons, Token.source, String.utf8ByteSize_append]
  rfl

/-- The bytes of the one text, counted up to the end. -/
theorem size_eq : x.size
    = x.offset + ((inMarks x.here).utf8ByteSize + x.gap.utf8ByteSize + byteSize x.back) := by
  rw [size, byteSize_cons]
  rfl

/-- The bytes of the other. -/
theorem size'_eq : x.size'
    = x.offset + ((inMarks x.there).utf8ByteSize + x.gap.utf8ByteSize + byteSize x.back) := by
  rw [size', byteSize_cons]
  rfl

theorem byteSize_left (front : List Token) : byteSize (front ++ x.left :: x.back)
    = byteSize front
      + ((inMarks x.here).utf8ByteSize + x.gap.utf8ByteSize + byteSize x.back) := by
  rw [byteSize_append, byteSize_cons]
  rfl

theorem byteSize_right (front : List Token) : byteSize (front ++ x.right :: x.back)
    = byteSize front
      + ((inMarks x.there).utf8ByteSize + x.gap.utf8ByteSize + byteSize x.back) := by
  rw [byteSize_append, byteSize_cons]
  rfl

/-- A part stands in front of the literal, around it or behind it. -/
theorem place (h : x.Abreast ts ts') (hon : x.Onward ts ts' rest rest') :
    Place x ts ts' rest rest' := by
  obtain ⟨hrest, hleft, hright⟩ := hon
  have hsize := @size_eq x
  have hsize' := @size'_eq x
  -- From in front of the exchanged token the rest is still in front or behind it; from behind it
  -- all that is taken is common, and offsets are told from the end.
  cases h with
  | @before front hfront =>
      have hts := @byteSize_left x front
      have hts' := @byteSize_right x front
      cases hrest with
      | @before front' hfront' =>
          obtain ⟨used, hused⟩ := hleft
          rw [← List.append_assoc] at hused
          obtain rfl := List.append_cancel_right hused
          rw [byteSize_append] at hfront
          refine .before used (x.offset - byteSize (used ++ front')) ?_ ?_ ?_ ?_ ?_
          · rw [List.append_assoc, tokensBefore_append]
          · rw [List.append_assoc, tokensBefore_append]
          · omega
          · omega
          · rw [byteSize_append]
            omega
      | behind hrest =>
          obtain ⟨more, hmore⟩ := hrest
          refine .around front more (x.offset - byteSize front) ?_ ?_ ?_ ?_ ?_
          · rw [← hmore, ← List.cons_append, ← List.append_assoc, tokensBefore_append]
          · rw [← hmore, ← List.cons_append, ← List.append_assoc, tokensBefore_append]
          · omega
          · omega
          · omega
  | behind hts =>
      have hbytes : byteSize ts ≤ byteSize x.back := by
        obtain ⟨more, hmore⟩ := hts
        rw [← hmore, byteSize_append]
        exact Nat.le_add_left _ _
      cases hrest with
      | @before front' _ =>
          have hlen := (hleft.trans hts).length_le
          simp only [List.length_append, List.length_cons] at hlen
          omega
      | behind _ =>
          refine .behind _ (x.gap.utf8ByteSize + (byteSize x.back - byteSize ts)) rfl rfl ?_ ?_
          · omega
          · omega

/-- Texts of tokens are no longer than the tokens. -/
theorem trimEnd_sourceOf_le (o : Bool) (used : List Token) :
    (trimEnd (sourceOf o used)).utf8ByteSize ≤ byteSize used := by
  obtain ⟨blanks, hblanks, -⟩ := Text.dropTrailing_split isBlank (sourceOf o used).toList
  have htrim : (trimEnd (sourceOf o used)).utf8ByteSize ≤ bytes (sourceOf o used).toList := by
    rw [trimEnd, Text.utf8ByteSize_ofList]
    conv_rhs => rw [hblanks, Text.bytes_append]
    exact Nat.le_add_right _ _
  refine Nat.le_trans htrim ?_
  rcases List.eq_nil_or_concat used with rfl | ⟨front, t, rfl⟩
  · exact Nat.le_refl 0
  · rw [List.concat_eq_append, sourceOf_eq, byteSize_eq, Lexer.chars_append, Lexer.chars_cons,
      Lexer.chars_nil, List.append_nil]
    simp only [Text.bytes_append]
    cases o with
    | true => exact Nat.le_refl _
    | false => exact Nat.add_le_add_left (Nat.add_le_add_left (Nat.zero_le _) _) _

/-- What is written around the literal, with the one and with the other. -/
theorem text_around (o : Bool) (front more : List Token) : ∃ u v : String,
    u.utf8ByteSize = byteSize front
      ∧ trimEnd (sourceOf o (front ++ x.left :: more)) = u ++ inMarks x.here ++ v
      ∧ trimEnd (sourceOf o (front ++ x.right :: more)) = u ++ inMarks x.there ++ v := by
  obtain ⟨v, hv⟩ := sourceOf_around o x.gap front more
  have htext : ∀ s, trimEnd (sourceOf o (front ++ ⟨.text, inMarks s, x.gap⟩ :: more))
      = String.ofList (chars front) ++ inMarks s ++ String.ofList (dropTrailing isBlank v) := by
    intro s
    rw [← String.ofList_toList (s := sourceOf o (front ++ ⟨.text, inMarks s, x.gap⟩ :: more)), hv]
    refine String.toList_inj.mp ?_
    rw [trimEnd_around]
    simp only [String.toList_append, String.toList_ofList, List.append_assoc]
  refine ⟨_, _, ?_, htext x.here, htext x.there⟩
  rw [Text.utf8ByteSize_ofList, byteSize_eq]

namespace Place

variable (h : Place x ts ts' rest rest')
include h

/-- The text of a part, without trimming. -/
theorem source (o : Bool) :
    x.SameText (sourceOf o (tokensBefore ts rest)) (sourceOf o (tokensBefore ts' rest')) := by
  cases h with
  | before used start hused hused' _ _ _ => exact .inl (by rw [hused, hused'])
  | around front more start hused hused' _ _ _ =>
      obtain ⟨v, hv⟩ := sourceOf_around o x.gap front more
      refine .inr ⟨String.ofList (chars front), String.ofList v, ?_, ?_⟩
      · rw [hused]
        refine String.toList_inj.mp ((hv _ _).trans ?_)
        simp only [String.toList_append, String.toList_ofList, List.append_assoc]
      · rw [hused']
        refine String.toList_inj.mp ((hv _ _).trans ?_)
        simp only [String.toList_append, String.toList_ofList, List.append_assoc]
  | behind used d hused hused' _ _ => exact .inl (by rw [hused, hused'])

/-- The text of a part. -/
theorem text (o : Bool) : x.SameText (trimEnd (sourceOf o (tokensBefore ts rest)))
    (trimEnd (sourceOf o (tokensBefore ts' rest'))) := by
  cases h with
  | before used start hused hused' _ _ _ => exact .inl (by rw [hused, hused'])
  | around front more start hused hused' _ _ _ =>
      obtain ⟨u, v, -, hleft, hright⟩ := @text_around x o front more
      rw [hused, hused']
      exact .inr ⟨u, v, hleft, hright⟩
  | behind used d hused hused' _ _ => exact .inl (by rw [hused, hused'])

/-- The place of a part. -/
theorem span {α β : Type} {t : Taken α} {t' : Taken β} (hrest : t.rest = rest)
    (hrest' : t'.rest = rest') (hopen : t.open? = t'.open?) :
    x.SameSpan (spanOf x.size ts t) (spanOf x.size' ts' t') := by
  subst hrest hrest'
  show SameOffset x.offset x.here x.there (x.size - byteSize ts) (x.size' - byteSize ts')
    ∧ SameOffset x.offset x.here x.there (x.size - byteSize ts + (t.text ts).utf8ByteSize)
        (x.size' - byteSize ts' + (t'.text ts').utf8ByteSize)
  unfold Taken.text
  rw [hopen]
  cases h with
  | before used start hused hused' hstart hstart' hstop =>
      have hle := trimEnd_sourceOf_le t'.open? used
      rw [hstart, hstart', hused, hused']
      exact ⟨.inl ⟨rfl, by omega⟩, .inl ⟨rfl, by omega⟩⟩
  | around front more start hused hused' hstart hstart' hstop =>
      obtain ⟨u, v, hu, hleft, hright⟩ := @text_around x t'.open? front more
      rw [hstart, hstart', hused, hused', hleft, hright]
      simp only [String.utf8ByteSize_append]
      exact ⟨.inl ⟨rfl, by omega⟩, .inr ⟨v.utf8ByteSize, by omega, by omega⟩⟩
  | behind used d hused hused' hstart hstart' =>
      rw [hstart, hstart', hused, hused']
      exact ⟨.inr ⟨d, rfl, rfl⟩, .inr ⟨_, Nat.add_assoc _ _ _, Nat.add_assoc _ _ _⟩⟩

end Place

end Exchange

end QueryReplay.Sql
