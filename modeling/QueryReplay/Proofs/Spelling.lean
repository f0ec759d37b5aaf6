import Mathlib.Data.List.Chain
import QueryReplay.Proofs.Gaps
import QueryReplay.Proofs.Lexemes

/-! # Spelling — which token lists a text can be cut into

    Cutting a text into tokens can be undone: the tokens with their gaps are the
    text.  Which lists of tokens come out of a text is a local matter, told token
    by token (`Spelled`).  The route:

    * `tokens?` gives exactly the spelled lists (`spelled_of_tokens`,
      `tokens_of_spelled`), and so does `ofString?` behind a leading gap
      (`ofString_iff`);
    * a spelled list that is cut off, with a shorter gap at its end, is spelled
      (`Spelled.cut`);
    * a spelled list behind another one is spelled when what stands at the seam
      is spelled (`Seam.replaceLast`). -/

namespace QueryReplay.Sql.Lexer

open QueryReplay.Text

/-! ## Lexemes and gaps -/

/-- A lexeme has a first character. -/
theorem Lexeme.ne_nil {k : TokenKind} {cs : List Char} (h : Lexeme k cs) : cs ≠ [] := by
  cases h with
  | quoted _ => exact List.cons_ne_nil _ _
  | text _ => exact List.cons_ne_nil _ _
  | word _ _ => exact List.cons_ne_nil _ _
  | whole _ _ => exact List.cons_ne_nil _ _
  | fraction _ _ _ =>
      exact fun h => List.cons_ne_nil _ _ (List.append_eq_nil_iff.mp h).2
  | symbol hs =>
      have hnothing : joinsSymbol cs [] = false := by
        unfold joinsSymbol
        split <;> simp_all
      obtain ⟨c, rest, rfl, -⟩ := symbol_starts hs hnothing
      exact List.cons_ne_nil _ _

/-- A character that begins a lexeme other than a sign or a slash begins no gap. -/
theorem startsGap_cons {c : Char} (cs : List Char) (hdash : c ≠ '-') (hslash : c ≠ '/')
    (hblank : isGapBlank c = false) : startsGap (c :: cs) = false := by
  unfold startsGap
  split
  · rename_i heq
    exact absurd (List.cons.inj heq).1 hdash
  · rename_i heq
    exact absurd (List.cons.inj heq).1 hslash
  · rename_i heq
    obtain ⟨rfl, -⟩ := List.cons.inj heq
    exact hblank
  · rename_i heq
    exact nomatch heq

theorem toNat_of_isWordChar {c : Char} (h : isWordChar c = true) :
    48 ≤ c.toNat ∧ c.toNat ≤ 122 := by
  simp only [isWordChar, Char.isAlphanum, isAlpha_eq, Char.isDigit, Bool.or_eq_true, Bool.and_eq_true, decide_eq_true_eq, beq_iff_eq, ge_iff_le,
    UInt32.le_iff_toNat_le] at h
  rcases h with ((h | h) | h) | rfl
  · simp at h
    omega
  · simp at h
    omega
  · simp at h
    omega
  · decide

theorem isBlank_of_isWordChar {c : Char} (h : isWordChar c = true) : isBlank c = false := by
  have hrange := toNat_of_isWordChar h
  simp only [isBlank, Bool.or_eq_false_iff, Bool.and_eq_false_iff, decide_eq_false_iff_not,
    beq_eq_false_iff_ne]
  omega

/-- A word or number begins no gap. -/
theorem startsGap_wordChar {c : Char} (h : isWordChar c = true) (cs : List Char) :
    startsGap (c :: cs) = false := by
  have hrange := toNat_of_isWordChar h
  refine startsGap_cons cs ?_ ?_ ?_
  · rintro rfl
    exact absurd hrange.1 (by decide)
  · rintro rfl
    exact absurd hrange.1 (by decide)
  · cases hblank : isGapBlank c with
    | false => rfl
    | true =>
        have hb := isBlank_of_isGapBlank hblank
        rw [isBlank_of_isWordChar h] at hb
        exact nomatch hb

/-- A minus begins a gap only as the first of two dashes. -/
theorem head_of_startsGap_minus {after : List Char} (h : startsGap ('-' :: after) = true) :
    after.head? = some '-' := by
  unfold startsGap at h
  split at h
  · rename_i heq
    rw [(List.cons.inj heq).2]
    rfl
  · rename_i heq
    exact absurd (List.cons.inj heq).1 (by decide)
  · rename_i heq
    obtain ⟨rfl, -⟩ := List.cons.inj heq
    exact absurd h (by decide)
  · rename_i heq
    exact nomatch heq

/-- A slash begins one only with a comment that is closed. -/
theorem block_of_startsGap_slash {after : List Char} (h : startsGap ('/' :: after) = true) :
    ∃ rest, after = '*' :: rest ∧ (blockEnd? rest).isSome = true := by
  unfold startsGap at h
  split at h
  · rename_i heq
    exact absurd (List.cons.inj heq).1 (by decide)
  · rename_i rest heq
    exact ⟨rest, (List.cons.inj heq).2, h⟩
  · rename_i heq
    obtain ⟨rfl, -⟩ := List.cons.inj heq
    exact absurd h (by decide)
  · rename_i heq
    exact nomatch heq

/-- A lexeme and what stands behind it begin a gap only as a comment. -/
theorem startsGap_lexeme {k : TokenKind} {lexeme after : List Char} (h : Lexeme k lexeme)
    (hgap : startsGap (lexeme ++ after) = true) :
    (k = .symbol .minus ∧ after.head? = some '-')
      ∨ (k = .symbol .slash ∧ ∃ rest, after = '*' :: rest ∧ (blockEnd? rest).isSome = true) := by
  -- All lexemes but the minus and the slash begin with what begins no gap.
  have hno : ∀ {c : Char} {cs : List Char} {P : Prop}, startsGap (c :: cs) = true →
      startsGap (c :: cs) = false → P := by
    intro c cs P htrue hfalse
    rw [hfalse] at htrue
    exact nomatch htrue
  cases h with
  | quoted _ => exact hno hgap (startsGap_cons _ (by decide) (by decide) (by decide))
  | text _ => exact hno hgap (startsGap_cons _ (by decide) (by decide) (by decide))
  | word hstart _ => exact hno hgap (startsGap_wordChar (isWordChar_of_isWordStart hstart) _)
  | whole hd _ => exact hno hgap (startsGap_wordChar (isWordChar_of_isDigit hd) _)
  | @fraction digits places p hdigits _ _ =>
      cases digits with
      | nil => exact hno hgap (startsGap_cons _ (by decide) (by decide) (by decide))
      | cons d digits =>
          exact hno hgap
            (startsGap_wordChar (isWordChar_of_isDigit (hdigits d List.mem_cons_self)) _)
  | symbol hs =>
      simp only [symbols, List.mem_cons, Prod.mk.injEq, List.not_mem_nil, or_false] at hs
      rcases hs with ⟨rfl, rfl⟩ | ⟨rfl, rfl⟩ | ⟨rfl, rfl⟩ | ⟨rfl, rfl⟩ | ⟨rfl, rfl⟩ | ⟨rfl, rfl⟩ |
        ⟨rfl, rfl⟩ | ⟨rfl, rfl⟩ | ⟨rfl, rfl⟩ | ⟨rfl, rfl⟩ | ⟨rfl, rfl⟩ | ⟨rfl, rfl⟩ | ⟨rfl, rfl⟩ |
        ⟨rfl, rfl⟩ | ⟨rfl, rfl⟩ | ⟨rfl, rfl⟩ | ⟨rfl, rfl⟩ | ⟨rfl, rfl⟩
      -- of the symbols, in the order of the table, the two that may begin a comment and the
      -- others
      all_goals first
        | exact Or.inl ⟨rfl, head_of_startsGap_minus hgap⟩
        | exact Or.inr ⟨rfl, block_of_startsGap_slash hgap⟩
        | exact hno hgap (startsGap_cons _ (by decide) (by decide) (by decide))

theorem TextBody.ends {body : List Char} (h : TextBody body) : ∃ front, body = front ++ ['\''] := by
  induction h with
  | close => exact ⟨[], rfl⟩
  | doubled _ ih =>
      obtain ⟨front, rfl⟩ := ih
      exact ⟨'\'' :: '\'' :: front, rfl⟩
  | char _ _ ih =>
      obtain ⟨front, rfl⟩ := ih
      exact ⟨_ :: front, rfl⟩

/-- A lexeme does not end in a blank. -/
theorem Lexeme.ends {k : TokenKind} {lexeme : List Char} (h : Lexeme k lexeme) :
    ∃ front c, lexeme = front ++ [c] ∧ isBlank c = false := by
  have hrun : ∀ (front : List Char) (c : Char) (cs : List Char), isWordChar c = true →
      (∀ d ∈ cs, isWordChar d = true) →
      ∃ front' d, front ++ c :: cs = front' ++ [d] ∧ isBlank d = false := by
    intro front c cs hc hcs
    rcases List.eq_nil_or_concat (c :: cs) with hnil | ⟨init, d, heq⟩
    · exact nomatch hnil
    · rw [List.concat_eq_append] at heq
      refine ⟨front ++ init, d, by rw [heq, List.append_assoc], isBlank_of_isWordChar ?_⟩
      have hd : d ∈ c :: cs := heq ▸ List.mem_append_right init (List.mem_singleton_self d)
      rcases List.mem_cons.mp hd with rfl | hd
      · exact hc
      · exact hcs d hd
  cases h with
  | @quoted body _ =>
      exact ⟨'"' :: body, '"', rfl, by decide⟩
  | text hbody =>
      obtain ⟨front, rfl⟩ := hbody.ends
      exact ⟨'\'' :: front, '\'', rfl, by decide⟩
  | word hstart hrest => exact hrun [] _ _ (isWordChar_of_isWordStart hstart) hrest
  | whole hd hdigits =>
      exact hrun [] _ _ (isWordChar_of_isDigit hd) fun d hd => isWordChar_of_isDigit (hdigits d hd)
  | @fraction digits places p _ hp hplaces =>
      obtain ⟨front, d, heq, hd⟩ := hrun (digits ++ ['.']) p places (isWordChar_of_isDigit hp)
        fun d hd => isWordChar_of_isDigit (hplaces d hd)
      exact ⟨front, d, by rw [← heq, List.append_assoc]; rfl, hd⟩
  | symbol hs =>
      simp only [symbols, List.mem_cons, Prod.mk.injEq, List.not_mem_nil, or_false] at hs
      rcases hs with ⟨rfl, rfl⟩ | ⟨rfl, rfl⟩ | ⟨rfl, rfl⟩ | ⟨rfl, rfl⟩ | ⟨rfl, rfl⟩ | ⟨rfl, rfl⟩ |
        ⟨rfl, rfl⟩ | ⟨rfl, rfl⟩ | ⟨rfl, rfl⟩ | ⟨rfl, rfl⟩ | ⟨rfl, rfl⟩ | ⟨rfl, rfl⟩ | ⟨rfl, rfl⟩ |
        ⟨rfl, rfl⟩ | ⟨rfl, rfl⟩ | ⟨rfl, rfl⟩ | ⟨rfl, rfl⟩ | ⟨rfl, rfl⟩
      all_goals first
        | exact ⟨[], _, rfl, by decide⟩
        | exact ⟨[_], _, rfl, by decide⟩

/-! ## Token lists that a text can be cut into -/

/-- The characters of a token and of the gap behind it. -/
def tokenChars (t : Token) : List Char := t.lexeme.toList ++ t.gap.toList

/-- The characters of tokens with their gaps. -/
def chars (ts : List Token) : List Char := ts.flatMap tokenChars

@[simp] theorem chars_nil : chars [] = [] := rfl

theorem chars_cons (t : Token) (ts : List Token) :
    chars (t :: ts) = t.lexeme.toList ++ (t.gap.toList ++ chars ts) :=
  List.append_assoc _ _ _

theorem chars_append (ts us : List Token) : chars (ts ++ us) = chars ts ++ chars us :=
  List.flatMap_append

/-- Each token has the shape of its kind, is not joined by what is behind it,
    and has all of the gap behind it; an open gap ends the list. -/
def Spelled : List Token → Prop
  | [] => True
  | t :: rest =>
    Lexeme t.kind t.lexeme.toList
      ∧ (∃ o, Gap o t.gap.toList ∧ (o = true → rest = []))
      ∧ startsGap (chars rest) = false
      ∧ joins t.kind t.lexeme.toList (t.gap.toList ++ chars rest) = false
      ∧ Spelled rest

theorem chars_eq_nil {ts : List Token} (h : Spelled ts) (hnil : chars ts = []) : ts = [] := by
  cases ts with
  | nil => rfl
  | cons t rest =>
      rw [chars_cons] at hnil
      exact absurd (List.append_eq_nil_iff.mp hnil).1 h.1.ne_nil

/-- One step of the lexer: a token, its gap, and the tokens behind. -/
theorem tokens_succ {cs : List Char} (h : cs ≠ []) (fuel : Nat) :
    tokens? (fuel + 1) cs = (token? cs).bind fun (k, lexeme, after) =>
      (tokens? fuel (gap after.length after).2).bind fun more =>
        some (⟨k, String.ofList lexeme, String.ofList (gap after.length after).1⟩ :: more) := by
  cases cs with
  | nil => exact absurd rfl h
  | cons c cs => rfl

/-- What the lexer answers is spelled, and is its input. -/
theorem spelled_of_tokens : ∀ (fuel : Nat) {cs : List Char} {ts : List Token},
    tokens? fuel cs = some ts → Spelled ts ∧ chars ts = cs := by
  -- On the fuel, one token with its gap at a time: each lexeme ends where its kind does
  -- (`token_split`), and each gap goes as far as it can (`gap_split`).
  intro fuel
  induction fuel with
  | zero =>
      intro cs ts h
      cases cs with
      | nil =>
          obtain rfl : [] = ts := Option.some.inj h
          exact ⟨trivial, rfl⟩
      | cons c cs => exact nomatch h
  | succ fuel ih =>
      intro cs ts h
      cases cs with
      | nil =>
          obtain rfl : [] = ts := Option.some.inj h
          exact ⟨trivial, rfl⟩
      | cons c cs =>
          rw [tokens_succ (List.cons_ne_nil c cs)] at h
          obtain ⟨⟨k, lexeme, after⟩, htoken, h⟩ := Option.bind_eq_some_iff.mp h
          obtain ⟨hsplit, hlexeme, hjoins⟩ := token_split htoken
          rcases hgap : gap after.length after with ⟨blanks, rest⟩
          simp only [hgap] at h
          obtain ⟨more, hmore, hts⟩ := Option.bind_eq_some_iff.mp h
          obtain ⟨hspelled, hchars⟩ := ih hmore
          obtain ⟨hafter, hstart, o, hblanks, hopen⟩ := gap_split _ (Nat.le_refl _) hgap
          obtain rfl : _ = ts := Option.some.inj hts
          refine ⟨⟨?_, ⟨o, ?_, fun ho => ?_⟩, ?_, ?_, hspelled⟩, ?_⟩
          · rw [String.toList_ofList]
            exact hlexeme
          · rw [String.toList_ofList]
            exact hblanks
          · exact chars_eq_nil hspelled (hchars.trans (hopen ho))
          · rw [hchars]
            exact hstart
          · rw [String.toList_ofList, String.toList_ofList, hchars, ← hafter]
            exact hjoins
          · rw [chars_cons, String.toList_ofList, String.toList_ofList, hchars, ← hafter, hsplit]

/-- The lexer cuts the characters of a spelled list into that list. -/
theorem tokens_of_spelled : ∀ (fuel : Nat) {ts : List Token}, Spelled ts →
    (chars ts).length ≤ fuel → tokens? fuel (chars ts) = some ts := by
  intro fuel
  induction fuel with
  | zero =>
      intro ts h hlen
      obtain rfl := chars_eq_nil h (List.length_eq_zero_iff.mp (Nat.le_zero.mp hlen))
      rfl
  | succ fuel ih =>
      intro ts h hlen
      cases ts with
      | nil => rfl
      | cons t rest =>
          obtain ⟨hlexeme, ⟨o, hgap, hopen⟩, hstart, hjoins, hrest⟩ := h
          have hne := hlexeme.ne_nil
          have hpos : 0 < t.lexeme.toList.length := List.length_pos_iff.mpr hne
          rw [chars_cons] at hlen ⊢
          have hread := token_append hlexeme hjoins
          have hblanks : gap (t.gap.toList ++ chars rest).length (t.gap.toList ++ chars rest)
              = (t.gap.toList, chars rest) :=
            gap_append hgap hstart (fun ho => by rw [hopen ho]; rfl) _ (Nat.le_refl _)
          have hmore := ih hrest (by simp only [List.length_append] at hlen; omega)
          have hcs : t.lexeme.toList ++ (t.gap.toList ++ chars rest) ≠ [] :=
            fun h => hne (List.append_eq_nil_iff.mp h).1
          rw [tokens_succ hcs, hread, Option.bind_some]
          dsimp only
          rw [hblanks, hmore, Option.bind_some, String.ofList_toList, String.ofList_toList]

/-- A text is cut into tokens exactly when it is a leading gap and a spelled list. -/
theorem ofString_iff {s lead : String} {ts : List Token} :
    TokenStream.ofString? s = some ⟨lead, ts⟩ ↔
      s.toList = lead.toList ++ chars ts ∧ startsGap (chars ts) = false
        ∧ (∃ o, Gap o lead.toList ∧ (o = true → ts = [])) ∧ Spelled ts := by
  constructor
  · intro h
    rcases hgap : gap s.toList.length s.toList with ⟨blanks, rest⟩
    simp only [TokenStream.ofString?, hgap] at h
    obtain ⟨tokens, htokens, heq⟩ := Option.map_eq_some_iff.mp h
    obtain ⟨rfl, rfl⟩ := TokenStream.mk.inj heq
    obtain ⟨hsplit, hstart, o, hblanks, hopen⟩ := gap_split _ (Nat.le_refl _) hgap
    obtain ⟨hspelled, hchars⟩ := spelled_of_tokens _ htokens
    rw [String.toList_ofList, hchars]
    exact ⟨hsplit, hstart, ⟨o, hblanks, fun ho => chars_eq_nil hspelled (hchars.trans (hopen ho))⟩,
      hspelled⟩
  · rintro ⟨hsplit, hstart, ⟨o, hblanks, hopen⟩, hspelled⟩
    have hgap : gap s.toList.length s.toList = (lead.toList, chars ts) := by
      rw [hsplit]
      exact gap_append hblanks hstart (fun ho => by rw [hopen ho]; rfl) _ (Nat.le_refl _)
    simp only [TokenStream.ofString?, hgap]
    rw [tokens_of_spelled _ hspelled (Nat.le_refl _), String.ofList_toList]
    rfl

/-! ## Cutting off -/

/-- A text that begins a gap still does so with more behind it. -/
theorem startsGap_append {cs : List Char} (h : startsGap cs = true) (ds : List Char) :
    startsGap (cs ++ ds) = true := by
  unfold startsGap at h
  split at h
  · rfl
  · rename_i rest
    obtain ⟨⟨body, after⟩, hblock⟩ := Option.isSome_iff_exists.mp h
    obtain ⟨rfl, hbody⟩ := blockEnd_split hblock
    show (blockEnd? (body ++ after ++ ds)).isSome = true
    rw [List.append_assoc, hbody.append]
    rfl
  · rename_i c rest _ _
    unfold startsGap
    split
    · rfl
    · rename_i heq
      obtain ⟨rfl, -⟩ := List.cons.inj heq
      exact absurd h (by decide)
    · rename_i heq
      obtain ⟨rfl, -⟩ := List.cons.inj heq
      exact h
    · rename_i heq
      exact nomatch heq
  · exact nomatch h

theorem not_startsGap_of_append {cs ds : List Char} (h : startsGap (cs ++ ds) = false) :
    startsGap cs = false := by
  cases hcs : startsGap cs with
  | false => rfl
  | true => rw [startsGap_append hcs ds] at h; exact nomatch h

/-- Nothing joins a lexeme at the end of a text. -/
theorem joins_nil (k : TokenKind) (lexeme : List Char) : joins k lexeme [] = false := by
  cases k with
  | symbol s =>
      show joinsSymbol lexeme [] = false
      unfold joinsSymbol
      split <;> first | rfl | simp_all
  | _ => rfl

/-- An operator or mark is joined by one character. -/
theorem joinsSymbol_cons (lexeme : List Char) (c : Char) (cs : List Char) :
    joinsSymbol lexeme (c :: cs) = joinsSymbol lexeme [c] := by
  unfold joinsSymbol
  split <;> simp_all

/-- Only a point looks at a second character. -/
theorem joins_cons {c : Char} (h : c ≠ '.') (k : TokenKind) (lexeme cs : List Char) :
    joins k lexeme (c :: cs) = joins k lexeme [c] := by
  cases k with
  | number =>
      show joinsNumber lexeme (c :: cs) = joinsNumber lexeme [c]
      have hread : ∀ rest, joinsNumber lexeme (c :: rest) = c.isDigit := by
        intro rest
        unfold joinsNumber
        split
        · rename_i heq
          exact absurd (List.cons.inj heq).1 h
        · rename_i heq
          rw [(List.cons.inj heq).1]
        · rename_i heq
          exact nomatch heq
      rw [hread, hread]
  | symbol s => exact joinsSymbol_cons lexeme c cs
  | _ => rfl

/-- Two characters tell whether a lexeme is joined. -/
theorem joins_cons_cons (k : TokenKind) (lexeme : List Char) (c d : Char) (cs : List Char) :
    joins k lexeme (c :: d :: cs) = joins k lexeme [c, d] := by
  by_cases h : c = '.'
  · subst h
    cases k with
    | symbol s =>
        exact (joinsSymbol_cons lexeme '.' (d :: cs)).trans (joinsSymbol_cons lexeme '.' [d]).symm
    | _ => rfl
  · rw [joins_cons h, joins_cons h k lexeme [d]]

/-- A point alone joins nothing. -/
theorem joins_point (k : TokenKind) (lexeme : List Char) : joins k lexeme ['.'] = false := by
  cases k with
  | symbol s =>
      show joinsSymbol lexeme ['.'] = false
      unfold joinsSymbol
      split
      · rename_i heq
        rw [← (List.cons.inj heq).1]
        rfl
      · rename_i heq
        rw [← (List.cons.inj heq).1]
        rfl
      · rename_i heq
        rw [← (List.cons.inj heq).1]
        rfl
      · rfl
  | _ => rfl

/-- What does not join a lexeme does not join it when it is cut off. -/
theorem not_joins_of_append {k : TokenKind} {lexeme cs ds : List Char}
    (h : joins k lexeme (cs ++ ds) = false) : joins k lexeme cs = false := by
  cases cs with
  | nil => exact joins_nil k lexeme
  | cons c cs =>
      by_cases hc : c = '.'
      · subst hc
        cases cs with
        | nil => exact joins_point k lexeme
        | cons d cs =>
            rw [List.cons_append, List.cons_append, joins_cons_cons] at h
            rw [joins_cons_cons]
            exact h
      · rw [List.cons_append, joins_cons hc] at h
        rw [joins_cons hc]
        exact h

/-- More behind it does not join a lexeme, either, unless a point stands alone. -/
theorem not_joins_append {k : TokenKind} {lexeme cs : List Char} (h : joins k lexeme cs = false)
    (hne : cs ≠ []) (hpoint : cs ≠ ['.']) (ds : List Char) :
    joins k lexeme (cs ++ ds) = false := by
  cases cs with
  | nil => exact absurd rfl hne
  | cons c cs =>
      by_cases hc : c = '.'
      · subst hc
        cases cs with
        | nil => exact absurd rfl hpoint
        | cons d cs =>
            rw [joins_cons_cons] at h
            rw [List.cons_append, List.cons_append, joins_cons_cons]
            exact h
      · rw [joins_cons hc] at h
        rw [List.cons_append, joins_cons hc]
        exact h

/-- A token list that is cut off behind a token, with a shorter gap there. -/
theorem Spelled.cut {ts us : List Token} {t : Token} (h : Spelled (ts ++ t :: us)) {o : Bool}
    {front back : List Char} (hsplit : t.gap.toList = front ++ back) (hgap : Gap o front) :
    Spelled (ts ++ [{ t with gap := String.ofList front }]) := by
  -- what is left of the characters is the front of what was there
  have hfront : ∀ ts : List Token, ∃ rest, chars (ts ++ t :: us)
      = chars (ts ++ [{ t with gap := String.ofList front }]) ++ rest := by
    intro ts
    refine ⟨back ++ chars us, ?_⟩
    rw [chars_append, chars_append, chars_cons, chars_cons, chars_nil, hsplit,
      String.toList_ofList]
    simp only [List.append_assoc, List.append_nil]
  induction ts with
  | nil =>
      obtain ⟨hlexeme, -, -, hjoins, -⟩ := h
      rw [hsplit, List.append_assoc] at hjoins
      refine ⟨hlexeme, ⟨o, ?_, fun _ => rfl⟩, rfl, ?_, trivial⟩
      · rw [String.toList_ofList]
        exact hgap
      · rw [String.toList_ofList, chars_nil, List.append_nil]
        exact not_joins_of_append hjoins
  | cons s ts ih =>
      obtain ⟨hlexeme, ⟨o', hgap', hopen⟩, hstart, hjoins, hrest⟩ := h
      obtain ⟨rest, hrestChars⟩ := hfront ts
      rw [show ts.append (t :: us) = ts ++ t :: us from rfl, hrestChars] at hstart hjoins
      rw [← List.append_assoc] at hjoins
      refine ⟨hlexeme, ⟨o', hgap', fun ho => ?_⟩, not_startsGap_of_append hstart,
        not_joins_of_append hjoins, ih hrest⟩
      exact absurd (List.append_eq_nil_iff.mp (hopen ho)).2 (List.cons_ne_nil t us)

/-! ## Putting together -/

/-- No slash with a star behind it: with nothing between, they could begin a comment. -/
def Apart (a b : Token) : Prop := ¬(a.kind = .symbol .slash ∧ b.kind = .symbol .star)

/-- The token is none that the characters behind it can turn into something else. -/
def IsFinal (t : Token) : Prop :=
  t.kind ≠ .symbol .minus ∧ t.kind ≠ .symbol .slash ∧ t.kind ≠ .symbol .dot

/-- An operator or mark has one of its spellings. -/
theorem Lexeme.mem_symbols {k : TokenKind} {cs : List Char} (h : Lexeme k cs) {s : Symbol}
    (hk : k = .symbol s) : (s, cs) ∈ symbols := by
  cases h with
  | symbol hs =>
      obtain rfl := TokenKind.symbol.inj hk
      exact hs
  | word _ _ =>
      unfold wordKind at hk
      split at hk <;> exact nomatch hk
  | _ => exact nomatch hk

theorem Lexeme.minus {cs : List Char} (h : Lexeme (.symbol .minus) cs) : cs = ['-'] := by
  simpa [symbols] using h.mem_symbols rfl

theorem Lexeme.semicolon {k : TokenKind} {cs : List Char} (h : Lexeme k cs)
    (hk : k = .symbol .semicolon) : cs = [';'] := by
  simpa [symbols] using h.mem_symbols hk

/-- Only the mark of a product begins with a star. -/
theorem Lexeme.star {k : TokenKind} {cs : List Char} (h : Lexeme k ('*' :: cs)) :
    k = .symbol .star := by
  generalize hl : '*' :: cs = lexeme at h
  cases h with
  | quoted _ => exact absurd (List.cons.inj hl).1 (by decide)
  | text _ => exact absurd (List.cons.inj hl).1 (by decide)
  | word hstart _ =>
      obtain ⟨rfl, -⟩ := List.cons.inj hl
      exact absurd hstart (by decide)
  | whole hd _ =>
      obtain ⟨rfl, -⟩ := List.cons.inj hl
      exact absurd hd (by decide)
  | @fraction digits places p hdigits _ _ =>
      cases digits with
      | nil => exact absurd (List.cons.inj hl).1 (by decide)
      | cons d digits =>
          obtain ⟨rfl, -⟩ := List.cons.inj hl
          exact absurd (hdigits '*' List.mem_cons_self) (by decide)
  | symbol hs =>
      subst hl
      simp [symbols] at hs
      rw [hs.1]

/-- Only the point is spelled as one. -/
theorem Lexeme.point {k : TokenKind} (h : Lexeme k ['.']) : k = .symbol .dot := by
  generalize hl : ['.'] = lexeme at h
  cases h with
  | quoted _ => exact absurd (List.cons.inj hl).1 (by decide)
  | text _ => exact absurd (List.cons.inj hl).1 (by decide)
  | word hstart _ =>
      obtain ⟨rfl, -⟩ := List.cons.inj hl
      exact absurd hstart (by decide)
  | whole hd _ =>
      obtain ⟨rfl, -⟩ := List.cons.inj hl
      exact absurd hd (by decide)
  | @fraction digits places p hdigits _ _ =>
      have hlen := congrArg List.length hl
      simp only [List.length_cons, List.length_append, List.length_nil] at hlen
      omega
  | symbol hs =>
      subst hl
      simp [symbols] at hs
      rw [hs]

/-- A gap does not begin with a star. -/
theorem Gap.ne_star {o : Bool} {g : List Char} (h : Gap o g) (rest : List Char) :
    g ≠ '*' :: rest := by
  rintro rfl
  cases h with
  | blank hc _ => exact absurd hc (by decide)

/-- The first token of a spelled list begins its characters. -/
theorem Spelled.chars_ne_nil {t : Token} {ts : List Token} (h : Spelled (t :: ts)) :
    chars (t :: ts) ≠ [] := by
  intro hnil
  exact absurd (chars_eq_nil h hnil) (List.cons_ne_nil t ts)

/-- Characters that begin with a star are those of a token that is one. -/
theorem Spelled.star {t : Token} {ts : List Token} {rest : List Char} (h : Spelled (t :: ts))
    (hchars : chars (t :: ts) = '*' :: rest) : t.kind = .symbol .star := by
  obtain ⟨hlexeme, -⟩ := h
  rw [chars_cons] at hchars
  rcases hcs : t.lexeme.toList with _ | ⟨c, cs⟩
  · exact absurd hcs hlexeme.ne_nil
  · rw [hcs] at hchars hlexeme
    obtain ⟨rfl, -⟩ := List.cons.inj hchars
    exact hlexeme.star

/-- What ends in a final token begins a gap by itself or not at all. -/
theorem not_startsGap_seam {ts : List Token} {t : Token} (h : Spelled (ts ++ [t]))
    (hfinal : IsFinal t) (hapart : (ts ++ [t]).IsChain Apart)
    (hstart : startsGap (chars (ts ++ [t])) = false) (after : List Char) :
    startsGap (chars (ts ++ [t]) ++ after) = false := by
  refine Bool.eq_false_iff.mpr (fun htrue => ?_)
  cases ts with
  | nil =>
      rw [List.nil_append, chars_cons, List.append_assoc] at htrue
      rcases startsGap_lexeme h.1 htrue with ⟨hk, -⟩ | ⟨hk, -⟩
      · exact hfinal.1 hk
      · exact hfinal.2.1 hk
  | cons r ts =>
      obtain ⟨hlexeme, ⟨o, hgap, -⟩, -, -, hrest⟩ := h
      obtain ⟨n, more, hmore⟩ : ∃ n more, ts ++ [t] = n :: more :=
        List.exists_cons_of_ne_nil (List.append_ne_nil_of_right_ne_nil ts (List.cons_ne_nil t []))
      rw [List.cons_append, hmore, chars_cons] at hstart htrue
      rw [List.append_assoc, List.append_assoc] at htrue
      rw [show ts.append [t] = n :: more from hmore] at hrest
      have hne := hrest.chars_ne_nil
      rcases startsGap_lexeme hlexeme htrue with ⟨hk, hhead⟩ | ⟨hk, rest, hrestChars, -⟩
      · -- the sign and the one behind it would have begun a comment before
        rw [← List.append_assoc, List.head?_append_of_ne_nil _ (by simp [hne])] at hhead
        obtain ⟨back, hback⟩ := List.head?_eq_some_iff.mp hhead
        rw [hk] at hlexeme
        rw [hlexeme.minus, hback] at hstart
        exact nomatch hstart
      · -- only a token that is a star begins with one
        cases hg : r.gap.toList with
        | cons c g =>
            rw [hg, List.cons_append] at hrestChars
            obtain ⟨rfl, -⟩ := List.cons.inj hrestChars
            exact absurd hg (hgap.ne_star g)
        | nil =>
            rw [hg, List.nil_append] at hrestChars
            obtain ⟨c, cs, hcs⟩ := List.exists_cons_of_ne_nil hne
            rw [hcs, List.cons_append] at hrestChars
            obtain ⟨rfl, -⟩ := List.cons.inj hrestChars
            rw [List.cons_append, hmore] at hapart
            exact (List.isChain_cons_cons.mp hapart).1 ⟨hk, hrest.star hcs⟩

/-- Nor does what stands behind a final token join the tokens before it. -/
theorem not_joins_seam {ts : List Token} {t : Token} (h : Spelled (ts ++ [t]))
    (hfinal : IsFinal t) {k : TokenKind} {lexeme gap : List Char}
    (hjoins : joins k lexeme (gap ++ chars (ts ++ [t])) = false) (after : List Char) :
    joins k lexeme (gap ++ (chars (ts ++ [t]) ++ after)) = false := by
  obtain ⟨n, more, hmore⟩ : ∃ n more, ts ++ [t] = n :: more :=
    List.exists_cons_of_ne_nil (List.append_ne_nil_of_right_ne_nil ts (List.cons_ne_nil t []))
  have hne : chars (ts ++ [t]) ≠ [] := by
    rw [hmore] at h ⊢
    exact h.chars_ne_nil
  rw [← List.append_assoc]
  refine not_joins_append hjoins (by simp [hne]) (fun hpoint => ?_) _
  -- a point alone would be the final token
  have hchars : chars (ts ++ [t]) = ['.'] := by
    rcases List.append_eq_singleton_iff.mp hpoint with ⟨-, h⟩ | ⟨-, h⟩
    · exact h
    · exact absurd h hne
  cases ts with
  | nil =>
      rw [List.nil_append, chars_cons] at hchars
      rcases List.append_eq_singleton_iff.mp hchars with ⟨hnil, -⟩ | ⟨hlexeme, -⟩
      · exact h.1.ne_nil hnil
      · exact hfinal.2.2 (Lexeme.point (hlexeme ▸ h.1))
  | cons r ts =>
      obtain ⟨hlexeme, -, -, -, hrest⟩ := h
      rw [List.cons_append, chars_cons] at hchars
      rcases List.append_eq_singleton_iff.mp hchars with ⟨hnil, -⟩ | ⟨-, hnil⟩
      · exact hlexeme.ne_nil hnil
      · have hts := chars_eq_nil hrest (List.append_eq_nil_iff.mp hnil).2
        exact absurd (List.append_eq_nil_iff.mp hts).2 (List.cons_ne_nil t [])

/-- The token without its gap. -/
def bareToken (t : Token) : Token := { t with gap := "" }

/-- What begins with the characters of a token, in the place of that token. -/
theorem chars_replaceLast {t t' : Token} {more : List Char}
    (h : t'.lexeme.toList = t.lexeme.toList ++ more) (ts us : List Token) :
    chars (ts ++ t' :: us)
      = chars (ts ++ [bareToken t]) ++ (more ++ (t'.gap.toList ++ chars us)) := by
  rw [chars_append, chars_append, chars_cons, chars_cons, chars_nil, h]
  simp only [List.append_assoc, List.append_nil]
  rfl

/-- A spelled list in front of a final token without the gap behind it. -/
structure Seam (ts : List Token) (t : Token) : Prop where
  spelled : Spelled (ts ++ [bareToken t])
  final : IsFinal t
  apart : (ts ++ [t]).IsChain Apart

theorem seam_of_spelled {ts : List Token} {t : Token} (h : Spelled (ts ++ [t])) (hfinal : IsFinal t)
    (hapart : (ts ++ [t]).IsChain Apart) : Seam ts t :=
  ⟨h.cut (show t.gap.toList = [] ++ t.gap.toList from rfl) .nil, hfinal, hapart⟩

theorem Seam.bareApart {ts : List Token} {t : Token} (h : Seam ts t) :
    (ts ++ [bareToken t]).IsChain Apart := by
  obtain ⟨hfront, -, hseam⟩ := List.isChain_append.mp h.apart
  refine List.isChain_append.mpr ⟨hfront, .singleton _, fun x hx y hy => ?_⟩
  obtain rfl : bareToken t = y := Option.some.inj hy
  exact hseam x hx t rfl

/-- A spelled list that begins with the characters of a final token, in the place
    of that token and what was behind it. -/
theorem Seam.replaceLast {ts us : List Token} {t t' : Token} (h : Seam ts t)
    (hus : Spelled (t' :: us)) {more : List Char}
    (hlexeme : t'.lexeme.toList = t.lexeme.toList ++ more) : Spelled (ts ++ t' :: us) := by
  have hapart := h.bareApart
  obtain ⟨hbare, hfinal, -⟩ := h
  have hfinal : IsFinal (bareToken t) := hfinal
  induction ts with
  | nil => exact hus
  | cons r ts ih =>
      obtain ⟨hrlexeme, ⟨o, hrgap, hopen⟩, hrstart, hrjoins, hrest⟩ := hbare
      refine ⟨hrlexeme, ⟨o, hrgap, fun ho => ?_⟩, ?_, ?_, ih hapart.tail hrest⟩
      · exact absurd (List.append_eq_nil_iff.mp (hopen ho)).2 (List.cons_ne_nil _ [])
      · rw [show ts.append (t' :: us) = ts ++ t' :: us from rfl, chars_replaceLast hlexeme]
        exact not_startsGap_seam hrest hfinal hapart.tail hrstart _
      · rw [show ts.append (t' :: us) = ts ++ t' :: us from rfl, chars_replaceLast hlexeme]
        exact not_joins_seam hrest hfinal hrjoins _

end QueryReplay.Sql.Lexer
