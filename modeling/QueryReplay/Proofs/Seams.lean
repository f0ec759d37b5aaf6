import QueryReplay.Proofs.Spelling

/-! # Seams — texts cut off and put together between tokens

    What is known of token lists (`Spelled.cut`, `Seam.replaceLast`), told of
    texts: a text can be cut off behind a token, with or without a part of the
    gap there, and another text can be put behind it when the gap between them
    is closed and the tokens there do not join. -/

namespace QueryReplay.Sql

open QueryReplay.Text (isBlank dropTrailing trimEnd)
open Lexer (chars Spelled Gap Lexeme Apart IsFinal joins startsGap isGapBlank isWordChar isWordStart)

/-! ## Texts and their tokens -/

section Stream

variable {sql lead : String} {tokens : List Token}
  (h : TokenStream.ofString? sql = some ⟨lead, tokens⟩)
include h

theorem toList_of_stream : sql.toList = lead.toList ++ chars tokens := (Lexer.ofString_iff.mp h).1

theorem spelled_of_stream : Spelled tokens := (Lexer.ofString_iff.mp h).2.2.2

end Stream

/-- A list that is left of a spelled one is spelled. -/
theorem Lexer.Spelled.behind {front rest : List Token} (h : Spelled (front ++ rest)) :
    Spelled rest := by
  induction front with
  | nil => exact h
  | cons u front ih => exact ih h.2.2.2.2

theorem lexeme_of_spelled {front rest : List Token} {t : Token}
    (h : Spelled (front ++ t :: rest)) : Lexeme t.kind t.lexeme.toList :=
  h.behind.1

theorem gap_of_spelled {front rest : List Token} {t : Token} (h : Spelled (front ++ t :: rest)) :
    ∃ o, Gap o t.gap.toList ∧ (o = true → rest = []) :=
  h.behind.2.1

/-- So is a list that others were put behind. -/
theorem Lexer.Spelled.front {front rest : List Token} (h : Spelled (front ++ rest)) :
    Spelled front := by
  rcases List.eq_nil_or_concat front with rfl | ⟨init, t, rfl⟩
  · exact trivial
  · rw [List.concat_eq_append] at h ⊢
    rw [List.append_assoc, List.singleton_append] at h
    obtain ⟨o, hgap, -⟩ := gap_of_spelled h
    have hcut := h.cut (List.append_nil _).symm hgap
    rw [String.ofList_toList] at hcut
    exact hcut

/-! ## Cutting off -/

/-- The token with its gap cut off somewhere. -/
theorem stream_cut {sql lead : String} {front rest : List Token} {t : Token}
    (h : TokenStream.ofString? sql = some ⟨lead, front ++ t :: rest⟩) {o : Bool}
    {gap back : List Char} (hsplit : t.gap.toList = gap ++ back) (hgap : Gap o gap) :
    TokenStream.ofString?
        (String.ofList (lead.toList ++ (chars front ++ (t.lexeme.toList ++ gap))))
      = some ⟨lead, front ++ [{ t with gap := String.ofList gap }]⟩ := by
  obtain ⟨-, hstart, ⟨o', hlead, hopen⟩, hspelled⟩ := Lexer.ofString_iff.mp h
  have hchars : chars (front ++ [{ t with gap := String.ofList gap }])
      = chars front ++ (t.lexeme.toList ++ gap) := by
    rw [Lexer.chars_append, Lexer.chars_cons, String.toList_ofList, Lexer.chars_nil,
      List.append_nil]
  refine Lexer.ofString_iff.mpr ⟨?_, ?_, ⟨o', hlead, fun ho => ?_⟩, hspelled.cut hsplit hgap⟩
  · rw [String.toList_ofList, hchars]
  · refine @Lexer.not_startsGap_of_append _ (back ++ chars rest) ?_
    rw [Lexer.chars_append, Lexer.chars_cons, hsplit] at hstart
    rw [hchars]
    simp only [List.append_assoc] at hstart ⊢
    exact hstart
  · exact absurd (List.append_eq_nil_iff.mp (hopen ho)).2 (List.cons_ne_nil t rest)

/-- The characters behind a token without trailing blanks. -/
theorem trimEnd_behind {t : Token} (h : Lexeme t.kind t.lexeme.toList) (before gap : List Char) :
    trimEnd (String.ofList (before ++ (t.lexeme.toList ++ gap)))
      = String.ofList (before ++ (t.lexeme.toList ++ dropTrailing isBlank gap)) := by
  obtain ⟨front, c, hlexeme, hc⟩ := h.ends
  rw [trimEnd, String.toList_ofList, hlexeme]
  have hassoc : ∀ g : List Char, before ++ (front ++ [c] ++ g) = before ++ front ++ [c] ++ g := by
    intro g
    simp only [List.append_assoc]
  rw [hassoc, hassoc, Text.dropTrailing_behind _ hc]

/-- A text cut behind a token, without trailing blanks. -/
theorem stream_trimmed {sql lead : String} {front rest : List Token} {t : Token}
    (h : TokenStream.ofString? sql = some ⟨lead, front ++ t :: rest⟩) :
    ∃ gap, TokenStream.ofString? (trimEnd (String.ofList (lead.toList ++ chars (front ++ [t]))))
      = some ⟨lead, front ++ [{ t with gap }]⟩ := by
  have hspelled := spelled_of_stream h
  obtain ⟨o, hgap, -⟩ := gap_of_spelled hspelled
  obtain ⟨o', back, hsplit, hhalves⟩ := hgap.trim
  refine ⟨String.ofList (dropTrailing isBlank t.gap.toList), ?_⟩
  rw [Lexer.chars_append, Lexer.chars_cons, Lexer.chars_nil, List.append_nil, ← List.append_assoc,
    trimEnd_behind (lexeme_of_spelled hspelled), List.append_assoc]
  exact stream_cut h hsplit hhalves.front_gap

/-! ## Putting together -/

/-- A blank joins nothing. -/
theorem joins_blank {c : Char} (h : isGapBlank c = true) (k : TokenKind) (lexeme cs : List Char) :
    joins k lexeme (c :: cs) = false := by
  simp only [isGapBlank, Bool.or_eq_true, beq_iff_eq] at h
  rcases h with ((rfl | rfl) | rfl) | rfl
  all_goals
    cases k with
    | symbol s =>
        show Lexer.joinsSymbol lexeme _ = false
        unfold Lexer.joinsSymbol
        split <;> first | rfl | (rename_i heq; obtain ⟨rfl, -⟩ := List.cons.inj heq; decide)
    | _ => rfl

/-- A comma and a closing parenthesis join nothing, either. -/
theorem joins_mark {c : Char} (h : c = ',' ∨ c = ')') (k : TokenKind) (lexeme cs : List Char) :
    joins k lexeme (c :: cs) = false := by
  rcases h with rfl | rfl
  all_goals
    cases k with
    | symbol s =>
        show Lexer.joinsSymbol lexeme _ = false
        unfold Lexer.joinsSymbol
        split <;> first | rfl | (rename_i heq; obtain ⟨rfl, -⟩ := List.cons.inj heq; decide)
    | _ => rfl

/-- A gap that joins nothing does so in front of anything. -/
theorem Lexer.Gap.not_joins {o : Bool} {g : List Char} (h : Gap o g) (hne : g ≠ [])
    {k : TokenKind} {lexeme : List Char} (hjoins : joins k lexeme g = false) (cs : List Char) :
    joins k lexeme (g ++ cs) = false := by
  refine Lexer.not_joins_append hjoins hne (fun hpoint => ?_) cs
  rw [hpoint] at h
  cases h with
  | blank hc _ => exact absurd hc (by decide)

/-- A gap begins with no character of a word. -/
theorem Lexer.Gap.head_wordChar {o : Bool} {g : List Char} (h : Gap o g) :
    g.head?.any isWordChar = false := by
  cases h with
  | nil => rfl
  | @blank _ c g hc _ =>
      show isWordChar c = false
      cases hword : isWordChar c with
      | false => rfl
      | true =>
          have hblank := Lexer.isBlank_of_isGapBlank hc
          rw [Lexer.isBlank_of_isWordChar hword] at hblank
          exact nomatch hblank
  | line _ _ => rfl
  | block _ _ => rfl
  | last _ => rfl

/-- Keywords and plain names are words. -/
theorem Lexer.Lexeme.isWord {kind : TokenKind} {cs : List Char} (h : Lexeme kind cs)
    (hk : kind = .name ∨ ∃ k, kind = .keyword k) :
    ∃ c rest, cs = c :: rest ∧ isWordStart c = true ∧ (∀ d ∈ rest, isWordChar d = true)
      ∧ kind = Lexer.wordKind cs := by
  cases h with
  | word hstart hrest => exact ⟨_, _, rfl, hstart, hrest, rfl⟩
  | _ => rcases hk with hk | ⟨k, hk⟩ <;> exact nomatch hk

/-- Nothing but a name in quotes has their kind. -/
theorem Lexer.Lexeme.inQuotes {kind : TokenKind} {cs : List Char} (h : Lexeme kind cs)
    (hk : kind = .quoted) : ∃ body, cs = '"' :: (body ++ ['"']) ∧ ∀ c ∈ body, c ≠ '"' := by
  cases h with
  | quoted hbody => exact ⟨_, rfl, hbody⟩
  | word _ _ =>
      unfold Lexer.wordKind at hk
      split at hk <;> exact nomatch hk
  | _ => exact nomatch hk

theorem Lexer.Lexeme.keyword {k : Keyword} {kind : TokenKind} {cs : List Char}
    (h : Lexeme kind cs) (hk : kind = .keyword k) :
    ∃ c rest, cs = c :: rest ∧ isWordStart c = true ∧ ∀ d ∈ rest, isWordChar d = true := by
  obtain ⟨c, rest, hcs, hstart, hrest, -⟩ := h.isWord (.inr ⟨k, hk⟩)
  exact ⟨c, rest, hcs, hstart, hrest⟩

/-- What begins with the characters of the last token of a text, in the place of
    that token and the gap behind it. -/
theorem stream_replaceLast {sql lead : String} {ts us : List Token} {t t' : Token}
    (h : TokenStream.ofString? sql = some ⟨lead, ts ++ [t]⟩) (hfinal : IsFinal t)
    (hapart : (ts ++ [t]).IsChain Apart) (hus : Spelled (t' :: us)) {more : List Char}
    (hlexeme : t'.lexeme.toList = t.lexeme.toList ++ more) :
    TokenStream.ofString? (String.ofList (lead.toList ++ chars (ts ++ t' :: us)))
      = some ⟨lead, ts ++ t' :: us⟩ := by
  obtain ⟨-, hfront, ⟨o, hlead, hopen⟩, hspelled⟩ := Lexer.ofString_iff.mp h
  have hseam := Lexer.seam_of_spelled hspelled hfinal hapart
  refine Lexer.ofString_iff.mpr ⟨String.toList_ofList, ?_, ⟨o, hlead, fun ho => ?_⟩,
    hseam.replaceLast hus hlexeme⟩
  · have hbare : startsGap (chars (ts ++ [Lexer.bareToken t])) = false := by
      refine @Lexer.not_startsGap_of_append _ t.gap.toList ?_
      rw [← hfront, Lexer.chars_replaceLast (show t.lexeme.toList = t.lexeme.toList ++ [] by simp)]
      simp
    rw [Lexer.chars_replaceLast hlexeme]
    exact Lexer.not_startsGap_seam hseam.spelled hfinal hseam.bareApart hbare _
  · exact absurd (List.append_eq_nil_iff.mp (hopen ho)).2 (List.cons_ne_nil t [])

/-- A text put behind another one, with more of a gap between them. -/
theorem stream_behind {sql lead : String} {ts us : List Token} {t : Token}
    (h : TokenStream.ofString? sql = some ⟨lead, ts ++ [t]⟩) (hfinal : IsFinal t)
    (hapart : (ts ++ [t]).IsChain Apart) (hus : Spelled us) (hstart : startsGap (chars us) = false)
    {more : List Char} {o : Bool} (hgap : Gap o (t.gap.toList ++ more)) (hopen : o = true → us = [])
    (hjoins : joins t.kind t.lexeme.toList (t.gap.toList ++ more ++ chars us) = false) :
    TokenStream.ofString? (sql ++ String.ofList (more ++ chars us))
      = some ⟨lead, ts ++ { t with gap := String.ofList (t.gap.toList ++ more) } :: us⟩ := by
  obtain ⟨htext, -, -, hspelled⟩ := Lexer.ofString_iff.mp h
  have hseam : Spelled ({ t with gap := String.ofList (t.gap.toList ++ more) } :: us) := by
    have hlexeme : Lexeme t.kind t.lexeme.toList := lexeme_of_spelled hspelled
    refine ⟨hlexeme, ⟨o, ?_, hopen⟩, hstart, ?_, hus⟩
    · rw [String.toList_ofList]
      exact hgap
    · rw [String.toList_ofList]
      exact hjoins
  have hstream := stream_replaceLast h hfinal hapart hseam
    (show t.lexeme.toList = t.lexeme.toList ++ [] by simp)
  have hwhole : sql ++ String.ofList (more ++ chars us) = String.ofList (lead.toList
      ++ chars (ts ++ { t with gap := String.ofList (t.gap.toList ++ more) } :: us)) := by
    rw [← String.ofList_toList (s := sql), ← String.ofList_append, htext, Lexer.chars_append,
      Lexer.chars_append, Lexer.chars_cons, Lexer.chars_cons, Lexer.chars_nil,
      String.toList_ofList]
    simp only [List.append_assoc, List.append_nil]
  rw [hwhole]
  exact hstream

/-- A text put right behind another one. -/
theorem stream_append {sql lead : String} {ts us : List Token} {t : Token}
    (h : TokenStream.ofString? sql = some ⟨lead, ts ++ [t]⟩) (hus : Spelled us)
    (hstart : startsGap (chars us) = false) (hfinal : IsFinal t)
    (hapart : (ts ++ [t]).IsChain Apart) (hgap : Gap false t.gap.toList)
    (hjoins : joins t.kind t.lexeme.toList (t.gap.toList ++ chars us) = false) :
    TokenStream.ofString? (sql ++ String.ofList (chars us)) = some ⟨lead, ts ++ t :: us⟩ := by
  have hstream := @stream_behind sql lead ts us t h hfinal hapart hus hstart [] false
    (by rw [List.append_nil]; exact hgap) nofun (by rw [List.append_nil]; exact hjoins)
  rw [List.append_nil, String.ofList_toList, List.nil_append] at hstream
  exact hstream

/-- Behind the gap of the last token nothing joins it that would not without a gap. -/
theorem not_joins_behind {text lead : String} {ts : List Token} {t : Token} {o : Bool} {cs : List Char}
    (h : TokenStream.ofString? text = some ⟨lead, ts ++ [t]⟩) (hgap : Gap o t.gap.toList)
    (hcs : t.gap.toList = [] → joins t.kind t.lexeme.toList cs = false) :
    joins t.kind t.lexeme.toList (t.gap.toList ++ cs) = false := by
  cases hchars : t.gap.toList with
  | nil => exact hcs hchars
  | cons c gap =>
      have hjoins := (spelled_of_stream h).behind.2.2.2.1
      rw [Lexer.chars_nil, List.append_nil] at hjoins
      rw [← hchars]
      exact hgap.not_joins (hchars ▸ List.cons_ne_nil c gap) hjoins cs

/-- A text put behind another one, with a comma and a blank between them. -/
theorem stream_comma {text more lead lead' : String} {ts us : List Token} {t : Token}
    (h : TokenStream.ofString? text = some ⟨lead, ts ++ [t]⟩) (hfinal : IsFinal t)
    (hapart : (ts ++ [t]).IsChain Apart) (hgap : Gap false t.gap.toList)
    (hmore : TokenStream.ofString? more = some ⟨lead', us⟩) :
    TokenStream.ofString? (text ++ ", " ++ more) = some ⟨lead,
      ts ++ t :: ⟨.symbol .comma, ",", String.ofList (' ' :: lead'.toList)⟩ :: us⟩ := by
  obtain ⟨htext, hstart, ⟨o, hlead, hopen⟩, hspelled⟩ := Lexer.ofString_iff.mp hmore
  -- the comma with the blank and whatever gap the other text begins with
  obtain ⟨c, hc, hkind, hlexeme, hblank⟩ : ∃ c : Token,
      c = ⟨.symbol .comma, ",", String.ofList (' ' :: lead'.toList)⟩ ∧ c.kind = .symbol .comma
        ∧ c.lexeme.toList = [','] ∧ c.gap.toList = ' ' :: lead'.toList :=
    ⟨_, rfl, rfl, show (",").toList = [','] by decide, String.toList_ofList⟩
  have hchars : chars (c :: us) = ',' :: ' ' :: more.toList := by
    rw [Lexer.chars_cons, hlexeme, hblank, htext]
    rfl
  have hus : Spelled (c :: us) := by
    refine ⟨?_, ⟨o, ?_, hopen⟩, hstart, ?_, hspelled⟩
    · rw [hkind, hlexeme]
      exact .symbol (by decide)
    · rw [hblank]
      exact .blank rfl hlead
    · rw [hblank]
      exact joins_blank rfl _ _ _
  have hjoins : joins t.kind t.lexeme.toList (t.gap.toList ++ chars (c :: us)) = false :=
    not_joins_behind h hgap fun _ => by rw [hchars]; exact joins_mark (.inl rfl) _ _ _
  have hstream := stream_append h hus
    (by rw [hchars]; exact Lexer.startsGap_cons _ (by decide) (by decide) (by decide)) hfinal hapart
    hgap hjoins
  have hwhole : text ++ ", " ++ more = text ++ String.ofList (chars (c :: us)) := by
    rw [hchars, String.append_assoc, ← String.toList_inj, String.toList_append, String.toList_append,
      String.toList_append, String.toList_ofList, String.toList_ofList]
    rfl
  rw [hwhole, ← hc]
  exact hstream

end QueryReplay.Sql
