import QueryReplay.Proofs.Regions
import QueryReplay.Proofs.Seams

/-! # Literals — a text literal between two texts

    A literal in single quotes is one token whatever it holds, if what stands in
    front of it leaves nothing open and no further quote touches it.  Then the
    text in front and the text behind are cut into tokens each by itself
    (`ofString_literal`).  The route:

    * a quote inside a gap or behind the first character of a lexeme is one that
      what stands in front of it left open (`gap_quote`, `lexeme_quote`), so no
      token and no gap reaches from the front into the literal (`spelled_split`);
    * the tokens of the front do not look into the literal (`spelled_append`). -/

namespace QueryReplay.Sql

open QueryReplay.Text
open Regions (EndsOutside scan startsComment)
open Lexer (Gap Block TextBody Lexeme Spelled chars joins startsGap)

/-! ## Nothing reaches into the literal -/

/-- Of two ways to split a list, the first part of the one is part of the other
    first part, or goes on behind it. -/
theorem append_cases {as bs cs ds : List Char} (h : as ++ bs = cs ++ ds) :
    (∃ more, cs = as ++ more ∧ bs = more ++ ds)
      ∨ ∃ c more, as = cs ++ c :: more ∧ ds = c :: (more ++ bs) := by
  rcases List.append_eq_append_iff.mp h with ⟨more, hcs, hbs⟩ | ⟨more, has, hds⟩
  · exact .inl ⟨more, hcs, hbs⟩
  · cases more with
    | nil => exact .inl ⟨[], by rw [has, List.append_nil, List.append_nil], hds.symm⟩
    | cons c more => exact .inr ⟨c, more, has, hds⟩

theorem Regions.scan_quoted_end {body : List Char} (h : ∀ c ∈ body, c ≠ '"') :
    (scan .quoted body).2 = .quoted := by
  induction body with
  | nil => rfl
  | cons c body ih =>
      rw [scan_quoted_char (h c List.mem_cons_self)]
      exact ih fun d hd => h d (List.mem_cons_of_mem c hd)

/-- In front of its end a block comment is open. -/
theorem Regions.scan_block_inside {front back : List Char} (h : Block (front ++ back))
    (hne : back ≠ []) : (scan .block front).2 ≠ .bare := by
  intro hbare
  obtain ⟨⟨body, rest⟩, hend⟩ := Option.isSome_iff_exists.mp (Regions.blockEnd_of_scan hbare)
  obtain ⟨rfl, hbody⟩ := Lexer.blockEnd_split hend
  have hwhole := h.append []
  rw [List.append_nil, List.append_assoc, hbody.append] at hwhole
  obtain ⟨-, hnil⟩ := Prod.mk.inj (Option.some.inj hwhole)
  exact hne (List.append_eq_nil_iff.mp hnil).2

/-- A quote in a gap stands in a comment. -/
theorem gap_quote {o : Bool} {g : List Char} (h : Gap o g) :
    ∀ {front back : List Char}, g = front ++ '\'' :: back → ¬EndsOutside front := by
  -- what is left of a comment behind its two first characters
  have hopening : ∀ {a b : Char} {cs front back : List Char}, a ≠ '\'' → b ≠ '\'' →
      a :: b :: cs = front ++ '\'' :: back →
      ∃ inner, front = a :: b :: inner ∧ cs = inner ++ '\'' :: back := by
    intro a b cs front back ha hb heq
    match front, heq with
    | [], heq => exact absurd (List.cons.inj heq).1 ha
    | [_], heq => exact absurd (List.cons.inj (List.cons.inj heq).2).1 hb
    | c :: d :: inner, heq =>
        obtain ⟨hfirst, htail⟩ := List.cons.inj heq
        obtain ⟨hsecond, hinner⟩ := List.cons.inj htail
        exact ⟨inner, by rw [hfirst, hsecond], hinner⟩
  induction h with
  | nil => intro front back heq; exact absurd heq (by simp)
  | @blank o c g hc _ ih =>
      intro front back heq hout
      cases front with
      | nil =>
          obtain ⟨rfl, -⟩ := List.cons.inj heq
          exact absurd hc (by decide)
      | cons d front =>
          obtain ⟨rfl, htail⟩ := List.cons.inj heq
          obtain ⟨hmark, hquote, hdash, hslash⟩ := Regions.gapBlank_bare hc
          refine ih htail ?_
          rw [EndsOutside, Regions.scan_bare hmark hquote
            (Regions.startsComment_of_ne _ hdash hslash)] at hout
          exact hout
  | @line o body g hbody _ ih =>
      intro front back heq hout
      obtain ⟨inner, rfl, hinner⟩ := hopening (by decide) (by decide) heq
      rcases append_cases hinner with ⟨more, rfl, hback⟩ | ⟨d, more, rfl, -⟩
      · cases more with
        | nil => exact absurd (List.cons.inj hback).1 (by decide)
        | cons d more =>
            obtain ⟨rfl, hmore⟩ := List.cons.inj hback
            refine ih hmore ?_
            rw [EndsOutside, Regions.scan_openLine, Regions.scan_line hbody] at hout
            exact hout
      · rw [EndsOutside, Regions.scan_openLine,
          Regions.scan_line_end fun c hc => hbody c (List.mem_append_left _ hc)] at hout
        exact nomatch hout
  | @block o body g hbody _ ih =>
      intro front back heq hout
      obtain ⟨inner, rfl, hinner⟩ := hopening (by decide) (by decide) heq
      rcases List.append_eq_append_iff.mp hinner with ⟨more, rfl, hback⟩ | ⟨more, rfl, hback⟩
      · refine ih hback ?_
        rw [EndsOutside, Regions.scan_openBlock, Regions.scan_block hbody] at hout
        exact hout
      · cases more with
        | nil =>
            have hback : g = [] ++ '\'' :: back := hback.symm
            exact ih hback rfl
        | cons d more => exact Regions.scan_block_inside hbody (List.cons_ne_nil d more) hout
  | @last body hbody =>
      intro front back heq hout
      obtain ⟨inner, rfl, rfl⟩ := hopening (by decide) (by decide) heq
      rw [EndsOutside, Regions.scan_openLine,
        Regions.scan_line_end fun c hc => hbody c (List.mem_append_left _ hc)] at hout
      exact nomatch hout

/-- Inside a literal nothing is left open only behind a quote. -/
theorem textBody_quote {body : List Char} (h : TextBody body) :
    ∀ {front back : List Char}, body = front ++ '\'' :: back → (scan .text front).2 = .bare →
      ∃ f, front = f ++ ['\''] := by
  induction h with
  | close =>
      intro front back heq hbare
      cases front with
      | nil => exact nomatch hbare
      | cons c front => exact absurd (List.cons.inj heq).2 (by simp)
  | @doubled body _ ih =>
      intro front back heq hbare
      match front, heq, hbare with
      | [], _, hbare => exact nomatch hbare
      | [c], heq, _ =>
          obtain ⟨rfl, -⟩ := List.cons.inj heq
          exact ⟨[], rfl⟩
      | c :: d :: front, heq, hbare =>
          obtain ⟨rfl, htail⟩ := List.cons.inj heq
          obtain ⟨hd, hinner⟩ := List.cons.inj htail
          obtain rfl := hd
          obtain ⟨f, rfl⟩ := ih hinner hbare
          exact ⟨'\'' :: '\'' :: f, rfl⟩
  | @char c body hc _ ih =>
      intro front back heq hbare
      cases front with
      | nil => exact nomatch hbare
      | cons d front =>
          obtain ⟨rfl, htail⟩ := List.cons.inj heq
          rw [Regions.scan_text_char hc] at hbare
          obtain ⟨f, rfl⟩ := ih htail hbare
          exact ⟨c :: f, rfl⟩

/-- Behind the first character of a lexeme a quote is one of its own, or comes
    behind another one. -/
theorem lexeme_quote {k : TokenKind} {lexeme front back : List Char} (h : Lexeme k lexeme)
    (hsplit : lexeme = front ++ '\'' :: back) (hne : front ≠ []) (hout : EndsOutside front) :
    ∃ f, front = f ++ ['\''] := by
  have hno : ∀ {P : Prop}, (∀ c ∈ lexeme, c ≠ '\'') → P := fun hchars =>
    absurd rfl (hchars '\'' (hsplit ▸ List.mem_append_right _ List.mem_cons_self))
  have hword : ∀ {cs : List Char}, (∀ c ∈ cs, Lexer.isWordChar c = true) → ∀ c ∈ cs, c ≠ '\'' :=
    fun hcs c hc => (Regions.wordChar_bare (hcs c hc)).1
  have hdigit : ∀ {cs : List Char}, (∀ c ∈ cs, c.isDigit = true) → ∀ c ∈ cs, c ≠ '\'' :=
    fun hcs => hword fun c hc => Lexer.isWordChar_of_isDigit (hcs c hc)
  cases h with
  | @quoted body hbody =>
      cases front with
      | nil => exact absurd rfl hne
      | cons c front =>
          obtain ⟨rfl, heq⟩ := List.cons.inj hsplit
          rw [EndsOutside, Regions.scan_openQuoted] at hout
          have hopen : (scan .quoted front).2 = .quoted := by
            refine Regions.scan_quoted_end fun d hd => hbody d ?_
            rcases List.append_eq_append_iff.mp heq with ⟨more, rfl, hback⟩ | ⟨more, rfl, -⟩
            · cases more with
              | nil => exact List.append_nil body ▸ hd
              | cons e more => exact absurd (List.cons.inj hback).2 (by simp)
            · exact List.mem_append_left _ hd
          exact nomatch hopen.symm.trans hout
  | @text body hbody =>
      cases front with
      | nil => exact absurd rfl hne
      | cons c front =>
          obtain ⟨rfl, heq⟩ := List.cons.inj hsplit
          obtain ⟨f, rfl⟩ := textBody_quote hbody heq hout
          exact ⟨'\'' :: f, rfl⟩
  | word hstart hrest =>
      exact hno (hword (List.forall_mem_cons.mpr ⟨Lexer.isWordChar_of_isWordStart hstart, hrest⟩))
  | whole hd hdigits => exact hno (hdigit (List.forall_mem_cons.mpr ⟨hd, hdigits⟩))
  | fraction hdigits hp hplaces =>
      refine hno (List.forall_mem_append.mpr ⟨hdigit hdigits, ?_⟩)
      exact List.forall_mem_cons.mpr ⟨by decide, hdigit (List.forall_mem_cons.mpr ⟨hp, hplaces⟩)⟩
  | symbol hs =>
      have hmarks : ∀ x ∈ Lexer.symbols, '\'' ∉ x.2 := by decide
      exact hno fun c hc heq => hmarks _ hs (heq ▸ hc)

/-! ## The seam in front of the literal -/

/-- Nothing but a literal in single quotes has their kind. -/
theorem Lexer.Lexeme.inMarks {kind : TokenKind} {cs : List Char} (h : Lexeme kind cs)
    (hk : kind = .text) : ∃ body, cs = '\'' :: body ∧ TextBody body := by
  cases h with
  | text hbody => exact ⟨_, rfl, hbody⟩
  | word _ _ =>
      unfold Lexer.wordKind at hk
      split at hk <;> exact nomatch hk
  | _ => exact nomatch hk

/-- What leaves nothing open and begins no gap begins no comment. -/
theorem startsComment_of_outside {cs : List Char} (hgap : startsGap cs = false)
    (hout : EndsOutside cs) : startsComment cs = false := by
  unfold startsComment
  split
  · exact nomatch hgap
  · rename_i rest
    rw [EndsOutside, Regions.scan_openBlock] at hout
    exact nomatch hgap.symm.trans (Regions.blockEnd_of_scan hout)
  · rfl

theorem startsGap_of_startsComment {c : Char} {cs : List Char}
    (h : startsComment (c :: cs) = false) : startsGap (c :: cs) = Lexer.isGapBlank c := by
  unfold startsGap
  split
  · rename_i heq
    rw [heq] at h
    exact nomatch h
  · rename_i heq
    rw [heq] at h
    exact nomatch h
  · rename_i heq
    rw [(List.cons.inj heq).1]
  · rename_i heq
    exact nomatch heq

/-- Two characters tell whether a comment begins. -/
theorem startsComment_cons_cons (c d : Char) (cs : List Char) :
    startsComment (c :: d :: cs) = startsComment [c, d] := by
  unfold startsComment
  split <;> simp_all

/-- No comment starts at a single quote. -/
theorem startsComment_beforeQuote (c : Char) : startsComment [c, '\''] = false := by
  unfold startsComment
  split <;> simp_all

section Seam

variable {q : List Char} (hq : q.head? = some '\'')
include hq

/-- A literal does not make a comment of what is in front of it. -/
theorem startsComment_quote {cs : List Char} (h : startsComment cs = false) :
    startsComment (cs ++ q) = false := by
  obtain ⟨rest, rfl⟩ := List.head?_eq_some_iff.mp hq
  match cs, h with
  | [], _ => rfl
  | [c], _ => rw [List.singleton_append, startsComment_cons_cons, startsComment_beforeQuote]
  | c :: d :: cs, h =>
      rw [startsComment_cons_cons] at h
      rw [List.cons_append, List.cons_append, startsComment_cons_cons, h]

theorem startsGap_quote {cs : List Char} (hgap : startsGap cs = false) (hout : EndsOutside cs) :
    startsGap (cs ++ q) = false := by
  have hcomment := startsComment_of_outside hgap hout
  have hcomment' := startsComment_quote hq hcomment
  cases cs with
  | nil =>
      obtain ⟨rest, rfl⟩ := List.head?_eq_some_iff.mp hq
      exact Lexer.startsGap_cons rest (by decide) (by decide) (by decide)
  | cons c cs =>
      rw [List.cons_append] at hcomment' ⊢
      rw [startsGap_of_startsComment hcomment'] 
      rw [startsGap_of_startsComment hcomment] at hgap
      exact hgap

/-- A literal joins only a literal. -/
theorem joins_quote {k : TokenKind} (hk : k ≠ .text) (lexeme : List Char) :
    joins k lexeme q = false := by
  obtain ⟨rest, rfl⟩ := List.head?_eq_some_iff.mp hq
  rw [Lexer.joins_cons (by decide)]
  cases k with
  | text => exact absurd rfl hk
  | symbol s =>
      show Lexer.joinsSymbol lexeme ['\''] = false
      unfold Lexer.joinsSymbol
      split
      · rename_i heq
        rw [← (List.cons.inj heq).1]
        rfl
      · rename_i heq
        rw [← (List.cons.inj heq).1]
        rfl
      · rename_i heq
        rw [← (List.cons.inj heq).1]
        rfl
      · rfl
  | _ => rfl

omit hq in
/-- A point with a quote behind it joins nothing. -/
theorem joins_pointQuote (k : TokenKind) (lexeme : List Char) :
    joins k lexeme ['.', '\''] = false := by
  cases k with
  | symbol s =>
      exact (Lexer.joinsSymbol_cons lexeme '.' ['\'']).trans (Lexer.joins_point (.symbol s) lexeme)
  | number => rfl
  | _ => rfl

/-- Tokens that leave nothing open, in front of a literal. -/
theorem spelled_append {front back : List Token} (hfront : Spelled front)
    (hgap : startsGap (chars front) = false) (hout : EndsOutside (chars front))
    (hend : ∀ f, chars front ≠ f ++ ['\'']) (hback : Spelled back) (hchars : chars back = q) :
    Spelled (front ++ back) := by
  induction front with
  | nil => exact hback
  | cons t front ih =>
      obtain ⟨hlexeme, ⟨o, htgap, hopen⟩, hstart, hjoins, hrest⟩ := hfront
      rw [Lexer.chars_cons] at hgap hout hend
      rw [Regions.endsOutside_behind_lexeme hlexeme (startsComment_of_outside hgap hout)] at hout
      -- a gap with an open comment would leave the front inside of it
      cases o with
      | true =>
          rw [hopen rfl, Lexer.chars_nil, List.append_nil] at hout
          exact absurd hout (Regions.not_endsOutside_openGap htgap)
      | false =>
          rw [Regions.endsOutside_behind_gap htgap] at hout
          have hbehind := ih hrest hstart hout fun f hf => hend (t.lexeme.toList ++
            (t.gap.toList ++ f)) (by rw [hf]; simp only [List.append_assoc])
          refine ⟨hlexeme, ⟨false, htgap, nofun⟩, ?_, ?_, hbehind⟩
          · show startsGap (chars (front ++ back)) = false
            rw [Lexer.chars_append, hchars]
            exact startsGap_quote hq hstart hout
          · show joins t.kind t.lexeme.toList (t.gap.toList ++ chars (front ++ back)) = false
            rw [Lexer.chars_append, hchars, ← List.append_assoc]
            -- the last token touches the literal, or what is between is a point, or more, which
            -- settles it
            by_cases hnil : t.gap.toList ++ chars front = []
            · rw [hnil, List.nil_append]
              refine joins_quote hq (fun hk => ?_) _
              obtain ⟨body, hbody, hread⟩ := hlexeme.inMarks hk
              obtain ⟨f, rfl⟩ := hread.ends
              exact hend ('\'' :: f) (by rw [hnil, List.append_nil, hbody]; rfl)
            · by_cases hpoint : t.gap.toList ++ chars front = ['.']
              · obtain ⟨rest, rfl⟩ := List.head?_eq_some_iff.mp hq
                rw [hpoint, List.singleton_append, Lexer.joins_cons_cons]
                exact joins_pointQuote _ _
              · exact Lexer.not_joins_append hjoins hnil hpoint q

omit hq in
/-- What is cut into tokens with a literal behind it is cut by itself. -/
theorem spelled_split {ts : List Token} (h : Spelled ts) :
    ∀ {cs : List Char}, startsGap (chars ts) = false → chars ts = cs ++ q → EndsOutside cs →
      (∀ f, cs ≠ f ++ ['\'']) → q.head? = some '\'' → ∃ front back, ts = front ++ back
        ∧ chars front = cs ∧ chars back = q ∧ Spelled front ∧ startsGap (chars front) = false
        ∧ Spelled back := by
  induction ts with
  | nil =>
      intro cs _ hsplit _ _ hq
      obtain ⟨rest, rfl⟩ := List.head?_eq_some_iff.mp hq
      exact absurd hsplit (by simp)
  | cons t ts ih =>
      intro cs hgap hsplit hout hend hq
      rcases List.eq_nil_or_concat cs with rfl | hne
      · exact ⟨[], t :: ts, rfl, rfl, hsplit, trivial, rfl, h⟩
      obtain ⟨rest, rfl⟩ := List.head?_eq_some_iff.mp hq
      obtain ⟨hlexeme, ⟨o, htgap, hopen⟩, hstart, hjoins, hts⟩ := h
      have hcs : cs ≠ [] := by
        obtain ⟨init, c, rfl⟩ := hne
        simp
      have hcomment := startsComment_of_outside (Lexer.not_startsGap_of_append (hsplit ▸ hgap)) hout
      rw [Lexer.chars_cons] at hsplit
      -- The cut is behind the first lexeme, or inside of it. Inside of a lexeme a quote stands
      -- only in a literal or a quoted name, where the front would not end outside.
      rcases append_cases hsplit with ⟨more, rfl, hbehind⟩ | ⟨c, more, hinside, hbehind⟩
      · rw [Regions.endsOutside_behind_lexeme hlexeme hcomment] at hout
        -- the same for the gap behind it
        rcases append_cases hbehind with ⟨after, rfl, hafter⟩ | ⟨c, after, hinside, hafter⟩
        · cases o with
          | true =>
              rw [hopen rfl] at hafter
              exact absurd hafter (by simp)
          | false =>
              rw [Regions.endsOutside_behind_gap htgap] at hout
              obtain ⟨front, back, rfl, hfront, hback, hspelled, hfrontGap, hbackSpelled⟩ :=
                ih hts hstart hafter hout (fun f hf => hend (t.lexeme.toList ++ (t.gap.toList ++ f))
                  (by rw [hf]; simp only [List.append_assoc])) rfl
              have hchars : chars (t :: front) = t.lexeme.toList ++ (t.gap.toList ++ after) := by
                rw [Lexer.chars_cons, hfront]
              refine ⟨t :: front, back, rfl, hchars, hback, ?_, ?_, hbackSpelled⟩
              · refine ⟨hlexeme, ⟨false, htgap, nofun⟩, hfrontGap, ?_, hspelled⟩
                rw [Lexer.chars_append, ← List.append_assoc] at hjoins
                exact Lexer.not_joins_of_append hjoins
              · rw [hchars]
                rw [Lexer.chars_cons, hafter] at hgap
                have hgap : startsGap ((t.lexeme.toList ++ (t.gap.toList ++ after))
                    ++ '\'' :: rest) = false := by
                  simpa only [List.append_assoc] using hgap
                exact Lexer.not_startsGap_of_append hgap
        · obtain ⟨rfl, -⟩ := List.cons.inj hafter
          exact (gap_quote htgap hinside hout).elim
      · obtain ⟨rfl, -⟩ := List.cons.inj hbehind
        obtain ⟨f, rfl⟩ := lexeme_quote hlexeme hinside hcs hout
        exact absurd rfl (hend f)

end Seam

/-! ## The literal and what is behind it -/

/-- Text without a quote is closed by the first quote behind it. -/
theorem textBody_plain {s : List Char} (h : '\'' ∉ s) : TextBody (s ++ ['\'']) := by
  induction s with
  | nil => exact .close
  | cons c s ih =>
      exact .char (fun hc => h (hc ▸ List.mem_cons_self))
        (ih fun hs => h (List.mem_cons_of_mem c hs))

/-- A literal without quotes inside is one token, and what is behind it is cut
    by itself. -/
theorem spelled_literal {s t : List Char} (hs : '\'' ∉ s) (ht : t.head? ≠ some '\'')
    {ts : List Token} :
    (Spelled ts ∧ chars ts = '\'' :: (s ++ '\'' :: t)) ↔
      ∃ behind, TokenStream.ofString? (String.ofList t) = some behind
        ∧ ts = ⟨.text, String.ofList ('\'' :: (s ++ ['\''])), behind.lead⟩ :: behind.tokens := by
  have hquote : (t.head? == some '\'') = false := beq_false_of_ne ht
  have hread : ∀ after : List Char, '\'' :: (s ++ '\'' :: after) = '\'' :: (s ++ ['\'']) ++ after := by
    intro after
    simp only [List.cons_append, List.append_assoc, List.nil_append]
  -- the literal is the longest token at its mark, since no quote stands behind it
  constructor
  · rintro ⟨hspelled, hchars⟩
    cases ts with
    | nil => exact nomatch hchars
    | cons u ts =>
        obtain ⟨hlexeme, ⟨o, hgap, hopen⟩, hstart, hjoins, hts⟩ := hspelled
        rw [Lexer.chars_cons, hread] at hchars
        have htoken := Lexer.token_append hlexeme hjoins
        rw [hchars, Lexer.token_append (.text (textBody_plain hs)) hquote] at htoken
        obtain ⟨hkind, hrest⟩ := Prod.mk.inj (Option.some.inj htoken)
        obtain ⟨hu, rfl⟩ := Prod.mk.inj hrest
        refine ⟨⟨u.gap, ts⟩, Lexer.ofString_iff.mpr ⟨?_, hstart, ⟨o, hgap, hopen⟩, hts⟩, ?_⟩
        · rw [String.toList_ofList]
        · obtain ⟨kind, lexeme, gap⟩ := u
          dsimp only at hkind hu ⊢
          rw [← hkind, hu, String.ofList_toList]
  · rintro ⟨⟨lead, tokens⟩, hcut, rfl⟩
    obtain ⟨hsplit, hstart, ⟨o, hlead, hopen⟩, htokens⟩ := Lexer.ofString_iff.mp hcut
    rw [String.toList_ofList] at hsplit
    refine ⟨⟨?_, ⟨o, hlead, hopen⟩, hstart, ?_, htokens⟩, ?_⟩
    · rw [String.toList_ofList]
      exact .text (textBody_plain hs)
    · rw [← hsplit]
      exact hquote
    · rw [Lexer.chars_cons, String.toList_ofList, ← hsplit, ← hread t]

/-- A text in single quotes. -/
def inMarks (s : String) : String := "'" ++ s ++ "'"

theorem inMarks_toList (s : String) : (inMarks s).toList = '\'' :: (s.toList ++ ['\'']) := by
  simp only [inMarks, String.toList_append]
  rfl

/-- The text in front of a literal and the text behind it are cut each by itself. -/
theorem ofString_literal {p s t : String} (hp : EndsOutside p.toList)
    (hend : p.toList.getLast? ≠ some '\'') (hs : '\'' ∉ s.toList) (ht : t.toList.head? ≠ some '\'') :
    TokenStream.ofString? (p ++ inMarks s ++ t) =
      (TokenStream.ofString? p).bind fun front => (TokenStream.ofString? t).map fun behind =>
        ⟨front.lead, front.tokens ++ ⟨.text, inMarks s, behind.lead⟩ :: behind.tokens⟩ := by
  have hsql : (p ++ inMarks s ++ t).toList
      = p.toList ++ '\'' :: (s.toList ++ '\'' :: t.toList) := by
    simp only [String.toList_append, inMarks_toList, List.append_assoc, List.cons_append,
      List.nil_append]
  have hlexeme : String.ofList ('\'' :: (s.toList ++ ['\''])) = inMarks s := by
    rw [← inMarks_toList, String.ofList_toList]
  have hquoted := @spelled_literal s.toList t.toList hs ht
  rw [String.ofList_toList, hlexeme] at hquoted
  -- both streams are told by spelled tokens, and those of the whole come apart at the literal
  refine Option.ext fun ⟨lead, ts⟩ => ⟨fun h => ?_, fun h => ?_⟩
  · obtain ⟨hsplit, hstart, ⟨o, hlead, hopen⟩, hspelled⟩ := Lexer.ofString_iff.mp h
    rw [hsql] at hsplit
    -- the literal does not begin inside of the gap in front, which ends outside of comments
    rcases append_cases hsplit.symm with ⟨more, hpmore, hmore⟩ | ⟨c, more, hinside, hq⟩
    · cases o with
      | true =>
          rw [hopen rfl] at hmore
          exact absurd hmore (by simp)
      | false =>
          rw [hpmore, Regions.endsOutside_behind_gap hlead] at hp
          obtain ⟨front, back, rfl, hfront, hback, hfrontSpelled, hfrontGap, hbackSpelled⟩ :=
            spelled_split hspelled hstart hmore hp
              (fun f hf => hend (by rw [hpmore, hf, ← List.append_assoc, List.getLast?_concat])) rfl
          obtain ⟨behind, hbehind, rfl⟩ := hquoted.mp ⟨hbackSpelled, hback⟩
          have hcut : TokenStream.ofString? p = some ⟨lead, front⟩ :=
            Lexer.ofString_iff.mpr ⟨by rw [hpmore, hfront], hfrontGap, ⟨false, hlead, nofun⟩,
              hfrontSpelled⟩
          rw [hcut, hbehind]
          rfl
    · obtain ⟨rfl, -⟩ := List.cons.inj hq
      exact (gap_quote hlead hinside hp).elim
  -- put together, the parts are spelled as they were
  · obtain ⟨⟨lead', front⟩, hcut, h⟩ := Option.bind_eq_some_iff.mp h
    obtain ⟨behind, hbehind, heq⟩ := Option.map_eq_some_iff.mp h
    obtain ⟨rfl, rfl⟩ := TokenStream.mk.inj heq
    obtain ⟨hback, hbackChars⟩ := hquoted.mpr ⟨behind, hbehind, rfl⟩
    obtain ⟨hsplit, hstart, ⟨o, hlead, hopen⟩, hspelled⟩ := Lexer.ofString_iff.mp hcut
    cases o with
    | true =>
        obtain rfl := hopen rfl
        rw [hsplit, Lexer.chars_nil, List.append_nil] at hp
        exact absurd hp (Regions.not_endsOutside_openGap hlead)
    | false =>
        rw [hsplit, Regions.endsOutside_behind_gap hlead] at hp
        refine Lexer.ofString_iff.mpr ⟨?_, ?_, ⟨false, hlead, nofun⟩, ?_⟩
        · rw [hsql, hsplit, Lexer.chars_append, hbackChars, List.append_assoc]
        · rw [Lexer.chars_append, hbackChars]
          exact startsGap_quote rfl hstart hp
        · refine spelled_append rfl hspelled hstart hp (fun f hf => hend ?_) hback hbackChars
          rw [hsplit, hf, ← List.append_assoc, List.getLast?_concat]

end QueryReplay.Sql
