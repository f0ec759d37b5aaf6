import QueryReplay.Proofs.Regions
import QueryReplay.Proofs.Seams
import QueryReplay.Proofs.Splicing

/-! # Words — the words of a text, told of its tokens

    The scan for words knows neither tokens nor block comments.  On a text that
    is cut into tokens, without a block comment, it finds the same words as a
    pass over the tokens does (`scan_chars`): names, keywords, numbers and points
    run together where no gap is between them, a name in quotes is a word of its
    own, and everything else ends a word.  So a word of letters alone is always
    one whole token (`ofTokens_letters`): what runs together holds a digit or a
    point. -/

namespace QueryReplay.Sql

open QueryReplay.Text
open Lexer (Gap Block TextBody Lexeme Spelled chars joins startsGap isGapBlank isWordStart)

/-! ## Comments that the words are looked for in -/

/-- Whether a run of blanks and comments holds a block comment; `inLine` tells
    whether a line comment is open. -/
def holdsBlock : Bool → List Char → Bool
  | _, [] => false
  | true, c :: rest => holdsBlock (c != '\n') rest
  | false, '-' :: '-' :: rest => holdsBlock true rest
  | false, '/' :: '*' :: _ => true
  | false, _ :: rest => holdsBlock false rest

/-- A line comment lasts up to the end of its line. -/
theorem holdsBlock_inLine (c : Char) (cs : List Char) :
    holdsBlock true (c :: cs) = holdsBlock (c != '\n') cs := rfl

theorem holdsBlock_line (cs : List Char) : holdsBlock false ('-' :: '-' :: cs) = holdsBlock true cs :=
  rfl

theorem holdsBlock_blank {c : Char} (h : isGapBlank c = true) (cs : List Char) :
    holdsBlock false (c :: cs) = holdsBlock false cs := by
  rw [holdsBlock]
  · rintro rest rfl -
    exact absurd h (by decide)
  · rintro rest rfl -
    exact absurd h (by decide)

/-- Behind the end of the line the search goes on outside. -/
theorem holdsBlock_newline {body : List Char} (h : ∀ c ∈ body, c ≠ '\n') (cs : List Char) :
    holdsBlock true (body ++ '\n' :: cs) = holdsBlock false cs := by
  induction body with
  | nil => rfl
  | cons c body ih =>
      rw [List.cons_append, holdsBlock_inLine, bne_iff_ne.mpr (h c List.mem_cons_self)]
      exact ih fun d hd => h d (List.mem_cons_of_mem c hd)

/-! ## Characters -/

/-- Below the letters of other scripts. -/
theorem isAlphanumeric_ascii {c : Char} (h : c.toNat < 0xAA) :
    isAlphanumeric c = c.isAlphanum := by
  have hlow : ∀ r ∈ alphanumericRanges, 0xAA ≤ r.1 := by decide +kernel
  have hnone : inRanges alphanumericRanges c = false := by
    refine List.any_eq_false.mpr fun r hr => ?_
    have := hlow r hr
    simp only [Bool.and_eq_true, decide_eq_true_eq]
    omega
  rw [isAlphanumeric, hnone, Bool.or_false]

namespace Words

/-- Below the other scripts the scan knows one more word character than the grammar: the point. -/
theorem isWordChar_ascii {c : Char} (h : c.toNat < 0xAA) :
    isWordChar c = (Lexer.isWordChar c || c == '.') := by
  rw [isWordChar, isAlphanumeric_ascii h, Lexer.isWordChar]

/-- What the grammar takes for a word character is one to the scan. -/
theorem isWordChar_of_lexer {c : Char} (h : Lexer.isWordChar c = true) : isWordChar c = true := by
  have hrange := Lexer.toNat_of_isWordChar h
  rw [isWordChar_ascii (by omega), h]
  rfl

theorem isWordChar_point : isWordChar '.' = true := isWordChar_ascii (by decide)

/-- The characters that begin something else, and the others that end a word. -/
def marks : List Char :=
  ['\'', '"', '-', ' ', '\t', '\r', '\n', '|', '<', '>', '=', '!', ',', ';', '(', ')', '*', '/', '%',
    '+']

/-- No mark is part of a word. -/
theorem isWordChar_mark {c : Char} (h : c ∈ marks) : isWordChar c = false := by
  have hmarks : (marks.all fun c => decide (c.toNat < 0xAA) && !(Lexer.isWordChar c || c == '.'))
      = true := by decide +kernel
  have hc := List.all_eq_true.mp hmarks c h
  rw [Bool.and_eq_true, decide_eq_true_eq, Bool.not_eq_true'] at hc
  rw [isWordChar_ascii hc.1, hc.2]

/-- A word character differs from all others. -/
theorem ne_of_isWordChar {c d : Char} (h : isWordChar c = true) (hd : isWordChar d = false) :
    c ≠ d := by
  rintro rfl
  exact nomatch h.symm.trans hd

/-! ## The scan -/

section Scan

variable (word rest : List Char)

theorem scan_nil : scan .bare word [] = finish word := rfl

theorem scan_openText : scan .bare word ('\'' :: rest) = finish word ++ scan .text [] rest := rfl

/-- A quote ends the word in front of it and begins a word of its own. -/
theorem scan_openQuoted : scan .bare word ('"' :: rest) = finish word ++ scan .quoted ['"'] rest := rfl

/-- Two dashes end the word, and nothing is taken up to the end of the line. -/
theorem scan_openComment :
    scan .bare word ('-' :: '-' :: rest) = finish word ++ scan .comment [] rest := rfl

end Scan

/-- Any other character goes on with the word or ends it. -/
theorem scan_bare {c : Char} {rest : List Char} (hmark : c ≠ '\'') (hquote : c ≠ '"')
    (hcomment : ∀ more, c :: rest ≠ '-' :: '-' :: more) (word : List Char) :
    scan .bare word (c :: rest) = if isWordChar c then scan .bare (c :: word) rest
      else finish word ++ scan .bare [] rest := by
  rw [scan]
  · exact hmark
  · exact hquote
  · rintro more rfl rfl
    exact hcomment more rfl

/-- Characters of a word go on with it. -/
theorem scan_word {cs : List Char} (h : ∀ c ∈ cs, isWordChar c = true) (word rest : List Char) :
    scan .bare word (cs ++ rest) = scan .bare (cs.reverse ++ word) rest := by
  induction cs generalizing word with
  | nil => rfl
  | cons c cs ih =>
      have hc := h c List.mem_cons_self
      have hdash : c ≠ '-' := ne_of_isWordChar hc (isWordChar_mark (by decide))
      rw [List.cons_append, scan_bare (ne_of_isWordChar hc (isWordChar_mark (by decide)))
          (ne_of_isWordChar hc (isWordChar_mark (by decide)))
          (fun more heq => hdash (List.cons.inj heq).1), if_pos hc,
        ih (fun d hd => h d (List.mem_cons_of_mem c hd)), List.reverse_cons, List.append_assoc]
      rfl

/-- A character of no word, with which no comment begins, ends a word. -/
theorem scan_break {c : Char} {rest : List Char} (hmark : c ≠ '\'') (hquote : c ≠ '"')
    (hcomment : ∀ more, c :: rest ≠ '-' :: '-' :: more) (hword : isWordChar c = false)
    (word : List Char) : scan .bare word (c :: rest) = finish word ++ scan .bare [] rest := by
  rw [scan_bare hmark hquote hcomment, if_neg (ne_true_of_eq_false hword)]

theorem finish_nil : finish [] = [] := rfl

theorem finish_cons (c : Char) (word : List Char) :
    finish (c :: word) = [String.ofList (c :: word).reverse] := rfl

/-- Characters that were gathered back to front make one word. -/
theorem finish_reverse {cs : List Char} (h : cs ≠ []) : finish cs.reverse = [String.ofList cs] := by
  unfold finish
  rw [if_neg (by simpa using h), List.reverse_reverse]

/-- A text in marks is passed without a word. -/
theorem scan_text {body : List Char} (h : TextBody body) (rest : List Char) :
    scan .text [] (body ++ rest) = scan .bare [] rest := by
  induction h with
  | close => rfl
  | doubled _ ih => exact ih
  | @char c body hc _ ih =>
      rw [List.cons_append, show scan .text [] (c :: (body ++ rest))
        = if c == '\'' then scan .bare [] (body ++ rest) else scan .text [] (body ++ rest) from rfl,
        if_neg (ne_true_of_eq_false (beq_false_of_ne hc)), ih]

/-- A name in quotes is one word, with its quotes. -/
theorem scan_quoted {body : List Char} (h : ∀ c ∈ body, c ≠ '"') (word rest : List Char) :
    scan .quoted word (body ++ '"' :: rest)
      = finish ('"' :: (body.reverse ++ word)) ++ scan .bare [] rest := by
  induction body generalizing word with
  | nil => rfl
  | cons c body ih =>
      rw [List.cons_append, show scan .quoted word (c :: (body ++ '"' :: rest))
        = if c == '"' then finish (c :: word) ++ scan .bare [] (body ++ '"' :: rest)
          else scan .quoted (c :: word) (body ++ '"' :: rest) from rfl,
        if_neg (ne_true_of_eq_false (beq_false_of_ne (h c List.mem_cons_self))),
        ih (fun d hd => h d (List.mem_cons_of_mem c hd)), List.reverse_cons, List.append_assoc]
      rfl

theorem scan_comment_char {c : Char} (h : c ≠ '\n') (rest : List Char) :
    scan .comment [] (c :: rest) = scan .comment [] rest :=
  if_neg (ne_true_of_eq_false (beq_false_of_ne h))

/-- A line comment is passed without a word. -/
theorem scan_comment {body : List Char} (h : ∀ c ∈ body, c ≠ '\n') (rest : List Char) :
    scan .comment [] (body ++ '\n' :: rest) = scan .bare [] rest := by
  induction body with
  | nil => rfl
  | cons c body ih =>
      rw [List.cons_append, scan_comment_char (h c List.mem_cons_self)]
      exact ih fun d hd => h d (List.mem_cons_of_mem c hd)

/-- So is one that ends with the text. -/
theorem scan_lastComment {body : List Char} (h : ∀ c ∈ body, c ≠ '\n') :
    scan .comment [] body = [] := by
  induction body with
  | nil => rfl
  | cons c body ih =>
      rw [scan_comment_char (h c List.mem_cons_self)]
      exact ih fun d hd => h d (List.mem_cons_of_mem c hd)

/-- A blank ends the word in front of it. -/
theorem scan_blank {c : Char} (h : isGapBlank c = true) (word rest : List Char) :
    scan .bare word (c :: rest) = finish word ++ scan .bare [] rest := by
  have hne : ∀ {d : Char}, isGapBlank d = false → c ≠ d := by
    rintro d hd rfl
    exact nomatch h.symm.trans hd
  refine scan_break (hne rfl) (hne rfl) (fun more heq => hne (d := '-') rfl (List.cons.inj heq).1)
    ?_ word
  simp only [isGapBlank, Bool.or_eq_true, beq_iff_eq] at h
  rcases h with ((rfl | rfl) | rfl) | rfl <;> exact isWordChar_mark (by decide)

/-- A gap without block comments holds no words, and ends the one in front of it. -/
theorem scan_gap {o : Bool} {g : List Char} (h : Gap o g) (hblock : holdsBlock false g = false)
    {rest : List Char} (hopen : o = true → rest = []) (word : List Char) :
    scan .bare word (g ++ rest)
      = if g.isEmpty then scan .bare word rest else finish word ++ scan .bare [] rest := by
  induction h generalizing word with
  | nil => rfl
  | @blank o c g hc hg ih =>
      rw [holdsBlock_blank hc] at hblock
      rw [List.cons_append, scan_blank hc, ih hblock hopen]
      show finish word ++ (if g.isEmpty then scan .bare [] rest else [] ++ scan .bare [] rest) = _
      rw [List.nil_append, ite_self]
      rfl
  | @line o body g hbody _ ih =>
      rw [holdsBlock_line, holdsBlock_newline hbody] at hblock
      simp only [List.cons_append, List.append_assoc]
      rw [scan_openComment, scan_comment hbody, ih hblock hopen, finish_nil, List.nil_append, ite_self]
      rfl
  | block _ _ => exact nomatch hblock
  | @last body hbody =>
      rw [hopen rfl, List.append_nil, scan_openComment, scan_lastComment hbody]
      rfl

end Words

/-! ## Tokens -/

/-- Keywords and plain names. -/
def TokenKind.isWord : TokenKind → Bool
  | .keyword _ => true
  | .name => true
  | _ => false

/-- Numbers and points. -/
def TokenKind.isNumeric : TokenKind → Bool
  | .number => true
  | .symbol s => s == .dot
  | _ => false

/-- Tokens whose characters the scan takes for those of a word. -/
def TokenKind.isWordy (k : TokenKind) : Bool := k.isWord || k.isNumeric

/-- A word is a keyword or a name. -/
theorem isWord_wordKind (w : List Char) : (Lexer.wordKind w).isWord = true := by
  rcases wordKind_cases w with ⟨k, hk⟩ | hname
  · rw [hk]
    rfl
  · rw [hname]
    rfl

/-- The word of a token of letters begins with one. -/
theorem Lexer.Lexeme.head_isWord {k : TokenKind} {cs : List Char} (h : Lexeme k cs)
    (hk : k.isWord = true) : cs.head?.any Lexer.isWordChar = true := by
  cases h with
  | word hstart _ => exact Lexer.isWordChar_of_isWordStart hstart
  | _ => exact nomatch hk

/-- Names, keywords, numbers and points are made of word characters. -/
theorem Lexer.Lexeme.wordChars {k : TokenKind} {cs : List Char} (h : Lexeme k cs)
    (hk : k.isWordy = true) : ∀ c ∈ cs, Words.isWordChar c = true := by
  have hdigit : ∀ {d : Char}, d.isDigit = true → Words.isWordChar d = true :=
    fun hd => Words.isWordChar_of_lexer (Lexer.isWordChar_of_isDigit hd)
  cases h with
  | quoted _ => exact nomatch hk
  | text _ => exact nomatch hk
  | word hstart hrest =>
      refine List.forall_mem_cons.mpr ⟨?_, fun d hd => Words.isWordChar_of_lexer (hrest d hd)⟩
      exact Words.isWordChar_of_lexer (Lexer.isWordChar_of_isWordStart hstart)
  | whole hd hdigits =>
      exact List.forall_mem_cons.mpr ⟨hdigit hd, fun d hd => hdigit (hdigits d hd)⟩
  | fraction hdigits hp hplaces =>
      refine List.forall_mem_append.mpr ⟨fun d hd => hdigit (hdigits d hd), ?_⟩
      refine List.forall_mem_cons.mpr ⟨Words.isWordChar_point, ?_⟩
      exact List.forall_mem_cons.mpr ⟨hdigit hp, fun d hd => hdigit (hplaces d hd)⟩
  | @symbol s cs hs =>
      obtain rfl : s = .dot := beq_iff_eq.mp hk
      obtain rfl : cs = ['.'] := by simpa [Lexer.symbols] using hs
      exact List.forall_mem_singleton.mpr Words.isWordChar_point

/-- What is numeric holds a character that is no letter. -/
theorem Lexer.Lexeme.not_letters {k : TokenKind} {cs : List Char} (h : Lexeme k cs)
    (hk : k.isNumeric = true) : ∃ c ∈ cs, c.isAlpha = false := by
  have hdigit : ∀ {d : Char}, d.isDigit = true → d.isAlpha = false := by
    intro d hd
    have hstart := Lexer.isWordStart_of_isDigit hd
    exact (Bool.or_eq_false_iff.mp hstart).1
  cases h with
  | whole hd _ => exact ⟨_, List.mem_cons_self, hdigit hd⟩
  | fraction _ _ _ => exact ⟨'.', List.mem_append_right _ List.mem_cons_self, by decide⟩
  | @symbol s cs hs =>
      obtain rfl : s = .dot := beq_iff_eq.mp hk
      obtain rfl : cs = ['.'] := by simpa [Lexer.symbols] using hs
      exact ⟨'.', List.mem_cons_self, by decide⟩
  | @word c cs _ _ =>
      rcases wordKind_cases (c :: cs) with ⟨k, hkind⟩ | hname
      · rw [hkind] at hk
        cases hk
      · rw [hname] at hk
        cases hk
  | _ => cases hk

namespace Words

/-- The words of tokens; `word` holds the characters of the current one backwards. -/
def ofTokens : List Char → List Token → List String
  | word, [] => finish word
  | word, t :: ts =>
    if t.kind.isWordy then
      if t.gap.isEmpty then ofTokens (t.lexeme.toList.reverse ++ word) ts
      else finish (t.lexeme.toList.reverse ++ word) ++ ofTokens [] ts
    else if t.kind = .quoted then finish word ++ t.lexeme :: ofTokens [] ts
    else finish word ++ ofTokens [] ts

section OfTokens

variable {t : Token} {ts : List Token} {word : List Char}

theorem ofTokens_nil : ofTokens word [] = finish word := rfl

/-- Without a gap the next token goes on with the word. -/
theorem ofTokens_touching (h : t.kind.isWordy = true) (hgap : t.gap.isEmpty = true) :
    ofTokens word (t :: ts) = ofTokens (t.lexeme.toList.reverse ++ word) ts := by
  rw [ofTokens, if_pos h, if_pos hgap]

/-- A gap ends the word. -/
theorem ofTokens_spaced (h : t.kind.isWordy = true) (hgap : t.gap.isEmpty = false) :
    ofTokens word (t :: ts)
      = finish (t.lexeme.toList.reverse ++ word) ++ ofTokens [] ts := by
  rw [ofTokens, if_pos h, if_neg (ne_true_of_eq_false hgap)]

/-- A name in quotes stands for itself. -/
theorem ofTokens_quoted (h : t.kind = .quoted) :
    ofTokens word (t :: ts) = finish word ++ t.lexeme :: ofTokens [] ts := by
  rw [ofTokens, if_neg (by rw [h]; decide), if_pos h]

/-- Texts and signs end the word in front of them. -/
theorem ofTokens_mark (h : t.kind.isWordy = false) (hquoted : t.kind ≠ .quoted) :
    ofTokens word (t :: ts) = finish word ++ ofTokens [] ts := by
  rw [ofTokens, if_neg (ne_true_of_eq_false h), if_neg hquoted]

end OfTokens

/-- Where no word is open, nothing is finished. -/
theorem ofTokens_open {t : Token} (h : t.kind.isWordy = false) (word : List Char) (ts : List Token) :
    ofTokens word (t :: ts) = finish word ++ ofTokens [] (t :: ts) := by
  by_cases hquoted : t.kind = .quoted
  · rw [ofTokens_quoted hquoted, ofTokens_quoted hquoted, finish_nil, List.nil_append]
  · rw [ofTokens_mark h hquoted, ofTokens_mark h hquoted, finish_nil, List.nil_append]

/-! ## The scan finds the words of the tokens -/

/-- The scan over one lexeme. -/
theorem scan_lexeme {k : TokenKind} {lexeme rest : List Char} (h : Lexeme k lexeme)
    (hgap : startsGap (lexeme ++ rest) = false) (word : List Char) :
    scan .bare word (lexeme ++ rest) =
      if k.isWordy then scan .bare (lexeme.reverse ++ word) rest
      else if k = .quoted then finish word ++ String.ofList lexeme :: scan .bare [] rest
      else finish word ++ scan .bare [] rest := by
  -- words and numbers go on with the open word, and a point does too
  by_cases hk : k.isWordy = true
  · rw [if_pos hk, scan_word (h.wordChars hk)]
  rw [if_neg hk]
  cases h with
  | @quoted body hbody =>
      show scan .bare word ('"' :: (body ++ ['"'] ++ rest)) = _
      rw [if_pos rfl, scan_openQuoted, List.append_assoc, List.singleton_append, scan_quoted hbody,
        show '"' :: (body.reverse ++ ['"']) = ('"' :: (body ++ ['"'])).reverse by simp,
        finish_reverse (List.cons_ne_nil _ _)]
      rfl
  | @text body hbody =>
      show scan .bare word ('\'' :: (body ++ rest)) = _
      rw [if_neg (by decide), scan_openText, scan_text hbody]
  | @word c cs _ _ =>
      exact absurd (by rw [TokenKind.isWordy, isWord_wordKind]; rfl) hk
  | whole _ _ => exact absurd rfl hk
  | fraction _ _ _ => exact absurd rfl hk
  | @symbol s _ hs =>
      have hdot : s ≠ .dot := by
        rintro rfl
        exact hk rfl
      rw [if_neg nofun]
      -- every other symbol ends the word at each of its one or two characters
      have hchars : ∀ c ∈ lexeme, c ≠ '\'' ∧ c ≠ '"' ∧ isWordChar c = false := by
        have hall : ∀ x ∈ Lexer.symbols, x.1 ≠ .dot →
            (x.2.all fun c => c != '\'' && c != '"' && marks.contains c) = true := by decide +kernel
        intro c hc
        have hmark := List.all_eq_true.mp (hall _ hs hdot) c hc
        simp only [Bool.and_eq_true, bne_iff_ne, List.contains_iff_mem] at hmark
        exact ⟨hmark.1.1, hmark.1.2, isWordChar_mark hmark.2⟩
      have hlen : lexeme = [] ∨ (∃ c, lexeme = [c]) ∨ ∃ c d, lexeme = [c, d] ∧ c ≠ '-' ∧ d ≠ '-' := by
        have hall : ∀ x ∈ Lexer.symbols, x.2.length ≤ 2
            ∧ (x.2.length = 2 → (x.2.all (· != '-')) = true) := by decide +kernel
        obtain ⟨hle, htwo⟩ := hall _ hs
        match lexeme, hle, htwo with
        | [], _, _ => exact .inl rfl
        | [c], _, _ => exact .inr (.inl ⟨c, rfl⟩)
        | [c, d], _, htwo =>
            obtain ⟨hc, hd⟩ : c ≠ '-' ∧ d ≠ '-' := by simpa using htwo rfl
            exact .inr (.inr ⟨c, d, rfl, hc, hd⟩)
      have hbreak : ∀ {c : Char} {more : List Char} (w : List Char), c ∈ lexeme →
          (∀ more', c :: more ≠ '-' :: '-' :: more') →
          scan .bare w (c :: more) = finish w ++ scan .bare [] more := by
        intro c more w hc hcomment
        obtain ⟨hmark, hquote, hword⟩ := hchars c hc
        exact scan_break hmark hquote hcomment hword w
      rcases hlen with rfl | ⟨c, rfl⟩ | ⟨c, d, rfl, hc, hd⟩
      · exact absurd rfl (Lexeme.symbol hs).ne_nil
      -- a minus with a minus behind it would have been a comment
      · refine hbreak word List.mem_cons_self fun more heq => ?_
        rw [show [c] ++ rest = '-' :: '-' :: more from heq] at hgap
        exact nomatch hgap
      · show scan .bare word (c :: d :: rest) = _
        rw [hbreak word List.mem_cons_self fun more heq => hc (List.cons.inj heq).1,
          hbreak [] (List.mem_cons_of_mem c List.mem_cons_self) fun more heq => hd (List.cons.inj heq).1]
        rfl

theorem isEmpty_toList (s : String) : s.toList.isEmpty = s.isEmpty := by
  rw [Bool.eq_iff_iff, List.isEmpty_iff, String.isEmpty_iff, String.toList_eq_nil_iff]

/-- On tokens without block comments behind them the scan finds the words of the tokens. -/
theorem scan_chars {ts : List Token} (hspelled : Spelled ts) (hgap : startsGap (chars ts) = false)
    (hblock : ∀ t ∈ ts, holdsBlock false t.gap.toList = false) (word : List Char) :
    scan .bare word (chars ts) = ofTokens word ts := by
  induction ts generalizing word with
  | nil => rfl
  | cons t ts ih =>
      obtain ⟨hlexeme, ⟨o, htgap, hopen⟩, hstart, -, hrest⟩ := hspelled
      obtain ⟨htblock, hmore⟩ := List.forall_mem_cons.mp hblock
      have hbehind : ∀ w, scan .bare w (t.gap.toList ++ chars ts)
          = if t.gap.isEmpty then ofTokens w ts else finish w ++ ofTokens [] ts := by
        intro w
        rw [scan_gap htgap htblock (fun ho => by rw [hopen ho]; rfl), ih hrest hstart hmore,
          ih hrest hstart hmore, isEmpty_toList]
      have hnone : scan .bare [] (t.gap.toList ++ chars ts) = ofTokens [] ts := by
        rw [hbehind, finish_nil, List.nil_append, ite_self]
      rw [Lexer.chars_cons] at hgap ⊢
      rw [scan_lexeme hlexeme hgap, hbehind, hnone, String.ofList_toList, ofTokens]

/-! ## Words of letters alone -/

/-- Letters alone, as in the reserved words. -/
def Letters (cs : List Char) : Prop := ∀ c ∈ cs, c.isAlpha = true

/-- An open word that goes on into the tokens is not one of letters alone. -/
def Seals (word : List Char) (ts : List Token) : Prop :=
  ∀ t ∈ ts.head?, t.kind.isWord = true → ∃ c ∈ word, c.isAlpha = false

section Letters

variable {t : Token} {ts : List Token} {word : List Char}

/-- Two tokens that run together are not both words. -/
theorem numeric_of_touching {u : Token} (h : Spelled (t :: u :: ts)) (hwordy : t.kind.isWordy = true)
    (hgap : t.gap.isEmpty = true) (hu : u.kind.isWord = true) : t.kind.isNumeric = true := by
  obtain ⟨-, -, -, hjoins, hrest⟩ := h
  have hhead : (chars (u :: ts)).head?.any Lexer.isWordChar = true := by
    have hfirst := hrest.1.head_isWord hu
    rw [Lexer.chars_cons]
    cases hlexeme : u.lexeme.toList with
    | nil => rw [hlexeme] at hfirst; exact nomatch hfirst
    | cons c cs => rw [hlexeme] at hfirst; exact hfirst
  cases hword : t.kind.isWord with
  | false => simpa [TokenKind.isWordy, hword] using hwordy
  | true =>
      rw [String.isEmpty_iff.mp hgap, String.toList_empty, List.nil_append] at hjoins
      have hjoined : joins t.kind t.lexeme.toList (chars (u :: ts))
          = (chars (u :: ts)).head?.any Lexer.isWordChar := by
        cases hkind : t.kind <;> rw [hkind] at hword <;> first | rfl | exact nomatch hword
      exact nomatch hhead.symm.trans (hjoined.symm.trans hjoins)

/-- So an open word that goes on into a second one is not of letters alone. -/
theorem seals_touching (h : Spelled (t :: ts)) (hwordy : t.kind.isWordy = true)
    (hgap : t.gap.isEmpty = true) (word : List Char) :
    Seals (t.lexeme.toList.reverse ++ word) ts := by
  intro u hu hword
  obtain ⟨more, rfl⟩ := List.head?_eq_some_iff.mp hu
  obtain ⟨c, hc, halpha⟩ := h.1.not_letters (numeric_of_touching h hwordy hgap hword)
  exact ⟨c, List.mem_append_left _ (List.mem_reverse.mpr hc), halpha⟩

/-- What an open word goes on into is not of letters alone. -/
theorem Seals.not_letters (h : Seals word (t :: ts)) (hlexeme : Lexeme t.kind t.lexeme.toList)
    (hwordy : t.kind.isWordy = true) :
    ∃ c ∈ t.lexeme.toList.reverse ++ word, c.isAlpha = false := by
  rcases Bool.or_eq_true_iff.mp hwordy with hword | hnumeric
  · obtain ⟨c, hc, halpha⟩ := h t rfl hword
    exact ⟨c, List.mem_append_right _ hc, halpha⟩
  · obtain ⟨c, hc, halpha⟩ := hlexeme.not_letters hnumeric
    exact ⟨c, List.mem_append_left _ (List.mem_reverse.mpr hc), halpha⟩

/-- A word with something else in it is no word of letters. -/
theorem not_letters_of_mem {cs : List Char} (h : ∃ c ∈ cs, c.isAlpha = false) :
    ¬ Letters (String.ofList cs.reverse).toList := by
  obtain ⟨c, hc, halpha⟩ := h
  intro hall
  rw [String.toList_ofList] at hall
  exact nomatch halpha.symm.trans (hall c (List.mem_reverse.mpr hc))

theorem finish_of_ne (h : word ≠ []) : finish word = [String.ofList word.reverse] := by
  cases word with
  | nil => exact absurd rfl h
  | cons c word => rfl

/-- A lexeme adds a character at least. -/
theorem ne_nil_append (hlexeme : Lexeme t.kind t.lexeme.toList) :
    t.lexeme.toList.reverse ++ word ≠ [] := by
  intro h
  exact hlexeme.ne_nil (List.reverse_eq_nil_iff.mp (List.append_eq_nil_iff.mp h).1)

/-- An open word is the front of the next one, and all of it if that is of letters alone. -/
theorem ofTokens_first (hspelled : Spelled ts) (hword : word ≠ []) :
    ∃ x back, ofTokens word ts = x :: back ∧ word.reverse <+: x.toList
      ∧ (Seals word ts → Letters x.toList →
        x = String.ofList word.reverse ∧ back = ofTokens [] ts) := by
  -- the open word goes on as long as tokens touch, and is all there is of letters only if nothing
  -- touches it
  induction ts generalizing word with
  | nil =>
      exact ⟨String.ofList word.reverse, [], by rw [ofTokens_nil, finish_of_ne hword],
        by simp, fun _ _ => ⟨rfl, rfl⟩⟩
  | cons t ts ih =>
      have hlexeme := hspelled.1
      by_cases hwordy : t.kind.isWordy = true
      · have hlonger : word.reverse <+: (t.lexeme.toList.reverse ++ word).reverse := by
          rw [List.reverse_append]
          exact List.prefix_append _ _
        cases hgap : t.gap.isEmpty with
        | true =>
            obtain ⟨x, back, heq, hfront, hletters⟩ :=
              ih hspelled.2.2.2.2 (@ne_nil_append t word hlexeme)
            refine ⟨x, back, by rw [ofTokens_touching hwordy hgap, heq], hlonger.trans hfront,
              fun hseals hx => ?_⟩
            obtain ⟨rfl, -⟩ := hletters (seals_touching hspelled hwordy hgap word) hx
            exact absurd hx (not_letters_of_mem (hseals.not_letters hlexeme hwordy))
        | false =>
            refine ⟨String.ofList (t.lexeme.toList.reverse ++ word).reverse, ofTokens [] ts, ?_, ?_,
              fun hseals hx => absurd hx (not_letters_of_mem (hseals.not_letters hlexeme hwordy))⟩
            · rw [ofTokens_spaced hwordy hgap, finish_of_ne (ne_nil_append hlexeme),
                List.singleton_append]
            · rw [String.toList_ofList]
              exact hlonger
      · refine ⟨String.ofList word.reverse, ofTokens [] (t :: ts), ?_, ?_, fun _ _ => ⟨rfl, rfl⟩⟩
        · rw [ofTokens_open (Bool.eq_false_iff.mpr hwordy), finish_of_ne hword,
            List.singleton_append]
        · simp

/-- A token whose word ends with it is a word of its own. -/
theorem ofTokens_single (hspelled : Spelled (t :: ts)) (hwordy : t.kind.isWordy = true)
    (hends : t.gap.isEmpty = true → ∀ u ∈ ts.head?, u.kind.isWordy = false) :
    ofTokens [] (t :: ts) = t.lexeme :: ofTokens [] ts := by
  have hone : finish (t.lexeme.toList.reverse ++ []) = [t.lexeme] := by
    rw [List.append_nil, finish_reverse hspelled.1.ne_nil, String.ofList_toList]
  cases hgap : t.gap.isEmpty with
  | false => rw [ofTokens_spaced hwordy hgap, hone, List.singleton_append]
  | true =>
      rw [ofTokens_touching hwordy hgap]
      cases ts with
      | nil => rw [ofTokens_nil, hone, ofTokens_nil, finish_nil]
      | cons u ts => rw [ofTokens_open (hends hgap u rfl), hone, List.singleton_append]

/-- The first word begins with a token that may be part of one, and if it is of letters only
    it is that token. -/
theorem ofTokens_head (hspelled : Spelled (t :: ts)) (hwordy : t.kind.isWordy = true) :
    ∃ x back, ofTokens [] (t :: ts) = x :: back ∧ t.lexeme.toList <+: x.toList
      ∧ (Letters x.toList → x = t.lexeme) := by
  cases hgap : t.gap.isEmpty with
  | true =>
      obtain ⟨x, back, hwords, hfront, hletters⟩ :=
        ofTokens_first hspelled.2.2.2.2 (@ne_nil_append t [] hspelled.1)
      rw [List.append_nil, List.reverse_reverse] at hfront hletters
      refine ⟨x, back, (ofTokens_touching hwordy hgap).trans hwords, hfront, fun hx => ?_⟩
      have hseals := seals_touching hspelled hwordy hgap []
      rw [List.append_nil] at hseals
      rw [(hletters hseals hx).1, String.ofList_toList]
  | false =>
      refine ⟨t.lexeme, ofTokens [] ts, ?_, List.prefix_rfl, fun _ => rfl⟩
      exact ofTokens_single hspelled hwordy fun htrue => nomatch hgap.symm.trans htrue

/-- Where the last token in front does not run into the tokens, the words are told apart. -/
theorem ofTokens_append {front : List Token} (word : List Char) (hword : front = [] → word = [])
    (hends : ∀ t ∈ front.getLast?, t.kind.isWordy = true → t.gap.isEmpty = false) :
    ofTokens word (front ++ ts) = ofTokens word front ++ ofTokens [] ts := by
  -- no word reaches over the end of the front, since what ends it is followed by a gap or is part
  -- of none
  induction front generalizing word with
  | nil => rw [hword rfl, ofTokens_nil, finish_nil]; rfl
  | cons t front ih =>
      have hmore : ∀ w, (front = [] → w = []) →
          ofTokens w (front ++ ts) = ofTokens w front ++ ofTokens [] ts := by
        intro w hw
        refine ih w hw fun u hu => hends u ?_
        cases front with
        | nil => exact nomatch hu
        | cons v front => rw [List.getLast?_cons_cons]; exact hu
      rw [List.cons_append]
      by_cases hwordy : t.kind.isWordy = true
      · cases hgap : t.gap.isEmpty with
        | true =>
            rw [ofTokens_touching hwordy hgap, ofTokens_touching hwordy hgap]
            refine hmore _ fun hnil => ?_
            rw [hnil] at hends
            exact nomatch hgap.symm.trans (hends t rfl hwordy)
        | false =>
            rw [ofTokens_spaced hwordy hgap, ofTokens_spaced hwordy hgap, hmore [] fun _ => rfl,
              List.append_assoc]
      · have hwordy := Bool.eq_false_iff.mpr hwordy
        by_cases hquoted : t.kind = .quoted
        · rw [ofTokens_quoted hquoted, ofTokens_quoted hquoted, hmore [] fun _ => rfl,
            List.append_assoc, List.cons_append]
        · rw [ofTokens_mark hwordy hquoted, ofTokens_mark hwordy hquoted, hmore [] fun _ => rfl,
            List.append_assoc]

end Letters

/-- A word behind the open one is a word behind it. -/
theorem finish_split {word : List Char} {xs front back : List String} {x : String}
    (h : finish word ++ xs = front ++ x :: back) :
    (word ≠ [] ∧ x = String.ofList word.reverse ∧ xs = back) ∨ ∃ front', xs = front' ++ x :: back := by
  cases word with
  | nil => exact .inr ⟨front, h⟩
  | cons c word =>
      rw [finish_cons, List.singleton_append] at h
      cases front with
      | nil =>
          obtain ⟨rfl, rfl⟩ := List.cons.inj h
          exact .inl ⟨List.cons_ne_nil _ _, rfl, rfl⟩
      | cons y front => exact .inr ⟨front, (List.cons.inj h).2⟩

/-- A word of letters alone that is not the open one is one token, and the words
    behind it are those behind that token. -/
theorem ofTokens_letters {ts : List Token} (hspelled : Spelled ts) {word : List Char}
    (hseals : word ≠ [] → Seals word ts) {front back : List String} {x : String}
    (h : ofTokens word ts = front ++ x :: back) (hx : Letters x.toList) :
    (word ≠ [] ∧ x = String.ofList word.reverse ∧ back = ofTokens [] ts)
      ∨ ∃ before t behind, ts = before ++ t :: behind ∧ t.kind.isWord = true ∧ t.lexeme = x
        ∧ back = ofTokens [] behind := by
  -- Along the tokens, for any open word: a word of letters comes from one token alone, because
  -- what is glued to another one holds a point or a digit (`Seals`).
  induction ts generalizing word front with
  | nil =>
      rw [ofTokens_nil] at h
      rcases finish_split ((List.append_nil _).trans h) with ⟨hword, hx, hback⟩ | ⟨front', hnil⟩
      · exact .inl ⟨hword, hx, hback.symm⟩
      · exact absurd hnil.symm (by simp)
  | cons t ts ih =>
      have hlexeme := hspelled.1
      have hrest := hspelled.2.2.2.2
      have hlater : (∃ before u behind, ts = before ++ u :: behind ∧ u.kind.isWord = true
          ∧ u.lexeme = x ∧ back = ofTokens [] behind) →
          ∃ before u behind, t :: ts = before ++ u :: behind ∧ u.kind.isWord = true
            ∧ u.lexeme = x ∧ back = ofTokens [] behind := by
        rintro ⟨before, u, behind, rfl, hu⟩
        exact ⟨t :: before, u, behind, rfl, hu⟩
      have hbehind : ∀ {front' : List String}, ofTokens [] ts = front' ++ x :: back →
          ∃ before u behind, t :: ts = before ++ u :: behind ∧ u.kind.isWord = true
            ∧ u.lexeme = x ∧ back = ofTokens [] behind := by
        intro front' heq
        rcases ih hrest (absurd rfl) heq with ⟨hne, -⟩ | hmore
        · exact absurd rfl hne
        · exact hlater hmore
      by_cases hwordy : t.kind.isWordy = true
      -- touching tokens go on with the word, a gap ends it
      · -- the word that this token goes on with or begins
        have hthis : x = String.ofList (t.lexeme.toList.reverse ++ word).reverse →
            back = ofTokens [] ts → ∃ before u behind, t :: ts = before ++ u :: behind
              ∧ u.kind.isWord = true ∧ u.lexeme = x ∧ back = ofTokens [] behind := by
          rintro rfl hback
          by_cases hword : word = []
          · rw [hword, List.append_nil, List.reverse_reverse, String.ofList_toList] at hx ⊢
            refine ⟨[], t, ts, rfl, ?_, rfl, hback⟩
            rcases Bool.or_eq_true_iff.mp hwordy with hisWord | hnumeric
            · exact hisWord
            · obtain ⟨c, hc, halpha⟩ := hlexeme.not_letters hnumeric
              exact nomatch halpha.symm.trans (hx c hc)
          · exact absurd hx (not_letters_of_mem ((hseals hword).not_letters hlexeme hwordy))
        cases hgap : t.gap.isEmpty with
        | true =>
            rw [ofTokens_touching hwordy hgap] at h
            rcases ih hrest (fun _ => seals_touching hspelled hwordy hgap word) h with
              ⟨-, hword, hback⟩ | hmore
            · exact .inr (hthis hword hback)
            · exact .inr (hlater hmore)
        | false =>
            rw [ofTokens_spaced hwordy hgap] at h
            rcases finish_split h with ⟨-, hword, hback⟩ | ⟨front', heq⟩
            · exact .inr (hthis hword hback.symm)
            · exact .inr (hbehind heq)
      -- a token that is no part of a word ends the open one, and is a word itself only when it is
      -- quoted, with the quotes for letters
      · have hwordy := Bool.eq_false_iff.mpr hwordy
        rw [ofTokens_open hwordy] at h
        rcases finish_split h with ⟨hword, hx, hback⟩ | ⟨front', heq⟩
        · exact .inl ⟨hword, hx, hback.symm⟩
        · refine .inr ?_
          by_cases hquoted : t.kind = .quoted
          · rw [ofTokens_quoted hquoted, finish_nil, List.nil_append] at heq
            cases front' with
            | nil =>
                obtain ⟨rfl, -⟩ := List.cons.inj heq
                obtain ⟨body, hquotes, -⟩ := hlexeme.inQuotes hquoted
                rw [hquotes] at hx
                exact absurd (hx '"' List.mem_cons_self) (by decide)
            | cons y front' => exact hbehind (List.cons.inj heq).2
          · rw [ofTokens_mark hwordy hquoted, finish_nil, List.nil_append] at heq
            exact hbehind heq

end Words

end QueryReplay.Sql
