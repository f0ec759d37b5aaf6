import Mathlib.Data.List.Infix
import QueryReplay.Json.Skip

/-! # Passing over — what is left behind a value

    A document value can be read, or it can be passed over when nobody asks for it.
    The second reader looks at the form alone, so it takes more strings, with escapes that
    stand for no character; a string that is read it passes over, up to the same place
    (`Skip.string_of_read`).  Whatever is passed over, what is left is an end of the
    characters (`Skip.value_suffix`), one lemma for each part of a value. -/

namespace QueryReplay.Json

open Read (skipGap codeUnit? escape? unicodeEscape? hexValue? keyword?)

namespace Skip

/-! ## Strings -/

/-- A code unit is four digits, and passed over as such. -/
theorem string_unit {cs rest : List Char} {n : Nat} (h : codeUnit? cs = some (n, rest)) :
    string ('\\' :: 'u' :: cs) = string rest := by
  match cs, h with
  | a :: b :: c :: d :: rest', h =>
      obtain ⟨va, ha, h⟩ := Option.bind_eq_some_iff.mp h
      obtain ⟨vb, hb, h⟩ := Option.bind_eq_some_iff.mp h
      obtain ⟨vc, hc, h⟩ := Option.bind_eq_some_iff.mp h
      obtain ⟨vd, hd, h⟩ := Option.bind_eq_some_iff.mp h
      cases h
      rw [string, if_pos (by simp [ha, hb, hc, hd])]

/-- An escape that stands for a character is one or two code units. -/
theorem string_unicode {cs rest : List Char} {c : Char} (h : unicodeEscape? cs = some (c, rest)) :
    string ('\\' :: 'u' :: cs) = string rest := by
  obtain ⟨⟨high, behind⟩, hhigh, h⟩ := Option.bind_eq_some_iff.mp h
  rw [string_unit hhigh]
  dsimp only at h
  split at h
  · split at h
    · obtain ⟨⟨low, behind'⟩, hlow, h⟩ := Option.bind_eq_some_iff.mp h
      obtain ⟨-, h⟩ := Option.ite_none_right_eq_some.mp h
      obtain rfl := (Prod.mk.inj (Option.some.inj h)).2
      exact string_unit hlow
    · exact nomatch h
  · obtain ⟨-, h⟩ := Option.ite_none_left_eq_some.mp h
    obtain rfl := (Prod.mk.inj (Option.some.inj h)).2
    rfl

/-- The escapes of one letter. -/
theorem isPlainEscape_iff {c : Char} :
    isPlainEscape c = true ↔ c ∈ ['"', '\\', '/', 'b', 'f', 'n', 'r', 't'] := by
  unfold isPlainEscape
  simp

/-- An escape of one letter is passed over with the character in front of it. -/
theorem string_plain {e : Char} (he : isPlainEscape e = true) (cs : List Char) :
    string ('\\' :: e :: cs) = string cs := by
  have hu : e ≠ 'u' := by
    rintro rfl
    exact absurd (isPlainEscape_iff.mp he) (by decide)
  rw [string]
  · rw [if_pos he]
  · exact fun _ _ _ _ _ heq => absurd heq hu

/-- Whatever escape can be read can be passed over. -/
theorem string_escape {cs rest : List Char} {c : Char} (h : escape? cs = some (c, rest)) :
    string ('\\' :: cs) = string rest := by
  unfold escape? at h
  split at h
  case h_9 => exact string_unicode h
  case h_10 => exact nomatch h
  all_goals
    obtain rfl := (Prod.mk.inj (Option.some.inj h)).2
    exact string_plain (isPlainEscape_iff.mpr (by decide)) _

/-- A string literal is passed over up to where it is read. -/
theorem string_of_stringBody {fuel : Nat} {done cs s rest : List Char}
    (h : Read.stringBody fuel done cs = some (s, rest)) : string cs = some rest := by
  induction fuel generalizing done cs with
  | zero => exact nomatch h
  | succ fuel ih =>
      unfold Read.stringBody at h
      split at h
      · exact nomatch h
      · next rest' =>
          obtain rfl := (Prod.mk.inj (Option.some.inj h)).2
          rfl
      · split at h
        · next hescape => rw [string_escape hescape, ih h]
        · exact nomatch h
      · next c cs' hquote hslash =>
          obtain ⟨hcontrol, h⟩ := Option.ite_none_left_eq_some.mp h
          rw [← ih h, string]
          · rw [if_neg]
            rw [Bool.or_eq_true, decide_eq_true_eq, beq_iff_eq]
            rintro (hlow | rfl)
            · exact hcontrol hlow
            · exact hslash rfl
          · exact hquote
          · exact fun _ _ _ _ _ heq _ => hslash heq
          · exact fun _ _ heq _ => hslash heq

theorem string_of_read {cs rest : List Char} {s : String} (h : Read.string cs = some (s, rest)) :
    string cs = some rest := by
  obtain ⟨⟨body, behind⟩, hbody, heq⟩ := Option.map_eq_some_iff.mp h
  cases heq
  exact string_of_stringBody hbody

/-! ## What is left -/

/-- Behind a string there is an end of the characters. -/
theorem string_suffix {cs rest : List Char} (h : string cs = some rest) : rest <:+ cs := by
  fun_induction string cs with
  | case1 => exact nomatch h
  | case2 rest' =>
      cases h
      exact List.suffix_cons _ _
  | case3 a b c d rest' _ ih =>
      exact (ih h).trans (List.suffix_append ['\\', 'u', a, b, c, d] rest')
  | case4 => exact nomatch h
  | case5 c rest' _ _ ih => exact (ih h).trans (List.suffix_append ['\\', c] rest')
  | case6 => exact nomatch h
  | case7 => exact nomatch h
  | case8 c rest' _ _ _ _ ih => exact (ih h).trans (List.suffix_cons _ _)

/-- Behind digits, which may be none. -/
theorem digits_suffix {cs rest : List Char} (h : digits cs = some rest) : rest <:+ cs := by
  cases cs with
  | nil => exact nomatch h
  | cons c cs =>
      obtain ⟨-, h⟩ := Option.ite_none_right_eq_some.mp h
      cases h
      exact (List.dropWhile_suffix _).trans (List.suffix_cons _ _)

/-- Behind the whole part of a number. -/
theorem integer_suffix {cs rest : List Char} (h : integer cs = some rest) : rest <:+ cs := by
  unfold integer at h
  split at h
  · obtain ⟨-, h⟩ := Option.ite_none_left_eq_some.mp h
    cases h
    exact List.suffix_cons _ _
  · exact digits_suffix h

/-- Behind a point and its digits, if they are there. -/
theorem fraction_suffix {cs rest : List Char} (h : fraction cs = some rest) : rest <:+ cs := by
  unfold fraction at h
  split at h
  · exact (digits_suffix h).trans (List.suffix_cons _ _)
  · cases h
    exact List.suffix_refl _

/-- Behind an exponent, if it is there. -/
theorem exponent_suffix {cs rest : List Char} (h : exponent cs = some rest) : rest <:+ cs := by
  unfold exponent at h
  dsimp only at h
  split at h
  case h_3 =>
    cases h
    exact List.suffix_refl _
  all_goals
    refine List.IsSuffix.trans ?_ (List.suffix_cons _ _)
    split at h
    · exact (digits_suffix h).trans (List.suffix_cons _ _)
    · exact (digits_suffix h).trans (List.suffix_cons _ _)
    · exact digits_suffix h

/-- Behind a number, as the three parts of it stand behind one another. -/
theorem number_suffix {cs rest : List Char} (h : number cs = some rest) : rest <:+ cs := by
  obtain ⟨whole, hwhole, h⟩ := Option.bind_eq_some_iff.mp h
  obtain ⟨places, hplaces, h⟩ := Option.bind_eq_some_iff.mp h
  have hunsigned := ((exponent_suffix h).trans (fraction_suffix hplaces)).trans
    (integer_suffix hwhole)
  split at hunsigned
  · exact hunsigned.trans (List.suffix_cons _ _)
  · exact hunsigned

theorem keyword_suffix {word cs rest : List Char} (h : keyword? word cs = some rest) :
    rest <:+ cs := by
  obtain ⟨-, h⟩ := Option.ite_none_right_eq_some.mp h
  cases h
  exact List.drop_suffix _ _

theorem skipGap_suffix (cs : List Char) : skipGap cs <:+ cs := List.dropWhile_suffix _

/-- What stands behind a mark that follows blanks. -/
theorem behind_suffix {cs rest : List Char} {mark : Char} (h : skipGap cs = mark :: rest) :
    rest <:+ cs :=
  (List.suffix_cons mark rest).trans (h ▸ skipGap_suffix cs)

section Lists

variable {value : List Char → Option (List Char)}

/-- Behind an array, if this holds of what is behind its items. -/
theorem items_suffix (hvalue : ∀ cs rest, value cs = some rest → rest <:+ cs) {fuel : Nat}
    {cs rest : List Char} (h : items value fuel cs = some rest) : rest <:+ cs := by
  induction fuel generalizing cs with
  | zero => exact nomatch h
  | succ fuel ih =>
      obtain ⟨behind, hread, h⟩ := Option.bind_eq_some_iff.mp h
      have hbehind := (hvalue _ _ hread).trans (skipGap_suffix cs)
      split at h
      · next hcomma => exact ((ih h).trans (behind_suffix hcomma)).trans hbehind
      · next hclose =>
          cases h
          exact (behind_suffix hclose).trans hbehind
      · exact nomatch h

/-- Behind an object, if this holds of what is behind the values in it. -/
theorem members_suffix (hvalue : ∀ cs rest, value cs = some rest → rest <:+ cs) {fuel : Nat}
    {cs rest : List Char} (h : members value fuel cs = some rest) : rest <:+ cs := by
  induction fuel generalizing cs with
  | zero => exact nomatch h
  | succ fuel ih =>
      unfold members at h
      split at h
      · next hquote =>
          obtain ⟨named, hname, h⟩ := Option.bind_eq_some_iff.mp h
          have hnamed := (string_suffix hname).trans (behind_suffix hquote)
          split at h
          · next hcolon =>
              obtain ⟨behind, hread, h⟩ := Option.bind_eq_some_iff.mp h
              have hbehind := (((hvalue _ _ hread).trans (skipGap_suffix _)).trans
                (behind_suffix hcolon)).trans hnamed
              split at h
              · next hcomma => exact ((ih h).trans (behind_suffix hcomma)).trans hbehind
              · next hclose =>
                  cases h
                  exact (behind_suffix hclose).trans hbehind
              · exact nomatch h
          · exact nomatch h
      · exact nomatch h

end Lists

/-- What is left behind a value is the end of the text. -/
theorem value_suffix (depth : Nat) {cs rest : List Char} (h : value depth cs = some rest) :
    rest <:+ cs := by
  induction depth generalizing cs rest with
  | zero => exact nomatch h
  | succ depth ih =>
      unfold value at h
      split at h
      · exact (string_suffix h).trans (List.suffix_cons _ _)
      · split at h
        · next hclose =>
            cases h
            exact (behind_suffix hclose).trans (List.suffix_cons _ _)
        · exact (items_suffix (fun _ _ h => ih h) h).trans (List.suffix_cons _ _)
      · split at h
        · next hclose =>
            cases h
            exact (behind_suffix hclose).trans (List.suffix_cons _ _)
        · exact (members_suffix (fun _ _ h => ih h) h).trans (List.suffix_cons _ _)
      · exact (keyword_suffix h).trans (List.suffix_cons _ _)
      · exact (keyword_suffix h).trans (List.suffix_cons _ _)
      · exact (keyword_suffix h).trans (List.suffix_cons _ _)
      · exact number_suffix h

end Skip

end QueryReplay.Json
