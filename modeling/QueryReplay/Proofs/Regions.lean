import QueryReplay.Proofs.Spelling
import QueryReplay.Sql.Words

/-! # Regions — what the characters of a text belong to

    By the lexical rules alone a text falls into literals, quoted names, comments
    and what is outside of them, whether it is a statement or not.  Here every
    character gets its region in one pass (`scan`), and the tokens and gaps of a
    statement are found again in it:

    * a closed gap is crossed from outside to outside, and is nothing but blanks
      and comments (`crosses_gap`); an open one ends inside its line comment;
    * so is a lexeme, whose characters belong together (`scan_lexeme`). -/

namespace QueryReplay.Sql.Regions

open QueryReplay.Text
open Lexer (Gap Block TextBody Lexeme isGapBlank isWordChar isWordStart startsGap)

/-! ## The pass -/

/-- What the characters read so far leave open. -/
inductive Mode where
  | bare | text | quoted | line | block
deriving DecidableEq, Repr

/-- Characters of one region in front of what was scanned. -/
def mark (cs : List Char) (r : Region) (x : List (Char × Region) × Mode) :
    List (Char × Region) × Mode :=
  (cs.map (·, r) ++ x.1, x.2)

/-- The regions of the characters, and what is open at the end.  A comment that
    begins with a slash and a star goes on to the end if nothing closes it. -/
def scan : Mode → List Char → List (Char × Region) × Mode
  | .bare, cs =>
    match cs with
    | [] => ([], .bare)
    | '\'' :: rest => mark ['\''] .text (scan .text rest)
    | '"' :: rest => mark ['"'] .quoted (scan .quoted rest)
    | '-' :: '-' :: rest => mark ['-', '-'] .comment (scan .line rest)
    | '/' :: '*' :: rest => mark ['/', '*'] .comment (scan .block rest)
    | c :: rest => mark [c] .bare (scan .bare rest)
  | .text, cs =>
    match cs with
    | [] => ([], .text)
    | c :: rest => mark [c] .text (if c == '\'' then scan .bare rest else scan .text rest)
  | .quoted, cs =>
    match cs with
    | [] => ([], .quoted)
    | c :: rest => mark [c] .quoted (if c == '"' then scan .bare rest else scan .quoted rest)
  | .line, cs =>
    match cs with
    | [] => ([], .line)
    | c :: rest => mark [c] .comment (if c == '\n' then scan .bare rest else scan .line rest)
  | .block, cs =>
    match cs with
    | [] => ([], .block)
    | '*' :: '/' :: rest => mark ['*', '/'] .comment (scan .bare rest)
    | c :: rest => mark [c] .comment (scan .block rest)

/-- The text ends outside of literals, quoted names and comments. -/
def EndsOutside (cs : List Char) : Prop := (scan .bare cs).2 = .bare

instance (cs : List Char) : Decidable (EndsOutside cs) := inferInstanceAs (Decidable (_ = _))

/-- Characters of one region can be marked in one go or one behind the other. -/
theorem mark_append (cs ds : List Char) (r : Region) (x : List (Char × Region) × Mode) :
    mark (cs ++ ds) r x = mark cs r (mark ds r x) := by
  rw [mark, mark, mark, List.map_append, List.append_assoc]

theorem scan_openQuoted (rest : List Char) :
    scan .bare ('"' :: rest) = mark ['"'] .quoted (scan .quoted rest) := rfl

theorem scan_openLine (rest : List Char) :
    scan .bare ('-' :: '-' :: rest) = mark ['-', '-'] .comment (scan .line rest) := rfl

theorem scan_openBlock (rest : List Char) :
    scan .bare ('/' :: '*' :: rest) = mark ['/', '*'] .comment (scan .block rest) := rfl

/-! ## Inside -/

/-- Inside a text every character but the mark belongs to it. -/
theorem scan_text_char {c : Char} (h : c ≠ '\'') (rest : List Char) :
    scan .text (c :: rest) = mark [c] .text (scan .text rest) :=
  congrArg (mark [c] .text) (if_neg (ne_true_of_eq_false (beq_false_of_ne h)))

/-- Inside a quoted name every character but the quote belongs to it. -/
theorem scan_quoted_char {c : Char} (h : c ≠ '"') (rest : List Char) :
    scan .quoted (c :: rest) = mark [c] .quoted (scan .quoted rest) :=
  congrArg (mark [c] .quoted) (if_neg (ne_true_of_eq_false (beq_false_of_ne h)))

/-- A line comment holds everything up to the end of the line. -/
theorem scan_line_char {c : Char} (h : c ≠ '\n') (rest : List Char) :
    scan .line (c :: rest) = mark [c] .comment (scan .line rest) :=
  congrArg (mark [c] .comment) (if_neg (ne_true_of_eq_false (beq_false_of_ne h)))

/-- A line comment together with the end of its line. -/
theorem scan_line {body : List Char} (h : ∀ c ∈ body, c ≠ '\n') (rest : List Char) :
    scan .line (body ++ '\n' :: rest) = mark (body ++ ['\n']) .comment (scan .bare rest) := by
  induction body with
  | nil => rfl
  | cons c body ih =>
      rw [List.cons_append, scan_line_char (h c List.mem_cons_self),
        ih fun d hd => h d (List.mem_cons_of_mem c hd)]
      rfl

/-- A line comment that nothing ends is open at the end of the text. -/
theorem scan_line_end {body : List Char} (h : ∀ c ∈ body, c ≠ '\n') :
    scan .line body = mark body .comment ([], .line) := by
  induction body with
  | nil => rfl
  | cons c body ih =>
      rw [scan_line_char (h c List.mem_cons_self), ih fun d hd => h d (List.mem_cons_of_mem c hd)]
      rfl

/-- A block comment holds everything up to a star with a slash behind it. -/
theorem scan_block_char {c : Char} {cs : List Char} (h : ∀ more, c :: cs ≠ '*' :: '/' :: more) :
    scan .block (c :: cs) = mark [c] .comment (scan .block cs) := by
  rw [scan]
  intro more hc hcs
  exact h more (by rw [hc, hcs])

/-- A block comment with its end. -/
theorem scan_block {body : List Char} (h : Block body) (rest : List Char) :
    scan .block (body ++ rest) = mark body .comment (scan .bare rest) := by
  induction h with
  | close => rfl
  | @char c body hne hbody ih =>
      have hne' : ∀ more, c :: (body ++ rest) ≠ '*' :: '/' :: more := by
        intro more heq
        cases body with
        | nil => exact absurd hbody.length (by decide)
        | cons d body =>
            obtain ⟨rfl, htail⟩ := List.cons.inj heq
            obtain ⟨rfl, -⟩ := List.cons.inj htail
            exact hne body rfl
      rw [List.cons_append, scan_block_char hne', ih]
      rfl

/-- A comment that is left again was closed. -/
theorem blockEnd_of_scan {cs : List Char} (h : (scan .block cs).2 = .bare) :
    (Lexer.blockEnd? cs).isSome = true := by
  induction cs with
  | nil => exact nomatch h
  | cons c cs ih =>
      by_cases hend : ∃ more, c :: cs = '*' :: '/' :: more
      · obtain ⟨more, heq⟩ := hend
        rw [heq]
        rfl
      · have hne : ∀ more, c :: cs ≠ '*' :: '/' :: more := fun more heq => hend ⟨more, heq⟩
        rw [scan_block_char hne] at h
        rw [Lexer.blockEnd_char hne, Option.isSome_map]
        exact ih h

/-- A doubled quote leaves the literal and enters it again. -/
theorem scan_text {body : List Char} (h : TextBody body) (rest : List Char) :
    scan .text (body ++ rest) = mark body .text (scan .bare rest) := by
  induction h with
  | close => rfl
  | doubled _ ih =>
      show mark ['\''] .text (mark ['\''] .text (scan .text (_ ++ rest))) = _
      rw [ih]
      rfl
  | @char c body hc _ ih =>
      rw [List.cons_append, scan_text_char hc, ih]
      rfl

/-- A quoted name up to its closing quote. -/
theorem scan_quoted {body : List Char} (h : ∀ c ∈ body, c ≠ '"') (rest : List Char) :
    scan .quoted (body ++ '"' :: rest) = mark (body ++ ['"']) .quoted (scan .bare rest) := by
  induction body with
  | nil => rfl
  | cons c body ih =>
      rw [List.cons_append, scan_quoted_char (h c List.mem_cons_self),
        ih fun d hd => h d (List.mem_cons_of_mem c hd)]
      rfl

/-! ## Outside -/

/-- Whether a comment begins here, closed or not. -/
def startsComment : List Char → Bool
  | '-' :: '-' :: _ => true
  | '/' :: '*' :: _ => true
  | _ => false

/-- Outside, a character that opens nothing stands for itself. -/
theorem scan_bare {c : Char} {cs : List Char} (hmark : c ≠ '\'') (hquote : c ≠ '"')
    (h : startsComment (c :: cs) = false) :
    scan .bare (c :: cs) = mark [c] .bare (scan .bare cs) := by
  rw [scan]
  · exact hmark
  · exact hquote
  · rintro rest rfl rfl
    exact nomatch h
  · rintro rest rfl rfl
    exact nomatch h

/-- Comments begin with a dash or a slash. -/
theorem startsComment_of_ne {c : Char} (cs : List Char) (hdash : c ≠ '-') (hslash : c ≠ '/') :
    startsComment (c :: cs) = false := by
  unfold startsComment
  split
  · rename_i heq
    exact absurd (List.cons.inj heq).1 hdash
  · rename_i heq
    exact absurd (List.cons.inj heq).1 hslash
  · rfl

/-- Characters that are neither quotes nor begin a comment. -/
theorem scan_run {cs : List Char} (h : ∀ c ∈ cs, c ≠ '\'' ∧ c ≠ '"' ∧ c ≠ '-' ∧ c ≠ '/')
    (rest : List Char) : scan .bare (cs ++ rest) = mark cs .bare (scan .bare rest) := by
  induction cs with
  | nil => rfl
  | cons c cs ih =>
      obtain ⟨hmark, hquote, hdash, hslash⟩ := h c List.mem_cons_self
      rw [List.cons_append, scan_bare hmark hquote (startsComment_of_ne _ hdash hslash),
        ih fun d hd => h d (List.mem_cons_of_mem c hd)]
      rfl

/-! ## Crossing a front -/

/-- The front leaves nothing open, whatever is behind it. -/
def Crosses (cs : List Char) (ms : List (Char × Region)) : Prop :=
  ∀ rest, scan .bare (cs ++ rest) = (ms ++ (scan .bare rest).1, (scan .bare rest).2)

theorem Crosses.nil : Crosses [] [] := fun _ => rfl

/-- Nothing but blanks outside and comments. -/
def IsIdle (m : Char × Region) : Prop := m.2 = .comment ∨ m.2 = .bare ∧ isBlank m.1 = true

/-- No character of a comment is part of anything. -/
theorem isIdle_comment (cs : List Char) : ∀ m ∈ cs.map (·, Region.comment), IsIdle m := by
  intro m hm
  obtain ⟨c, -, rfl⟩ := List.mem_map.mp hm
  exact .inl rfl

/-- Blanks open nothing. -/
theorem gapBlank_bare {c : Char} (h : isGapBlank c = true) :
    c ≠ '\'' ∧ c ≠ '"' ∧ c ≠ '-' ∧ c ≠ '/' := by
  refine ⟨?_, ?_, ?_, ?_⟩ <;> (rintro rfl; exact absurd h (by decide))

/-- A closed gap is crossed, and is idle. -/
theorem crosses_gap {g : List Char} (h : Gap false g) :
    ∃ ms, Crosses g ms ∧ ∀ m ∈ ms, IsIdle m := by
  generalize ho : false = o at h
  induction h with
  | nil => exact ⟨[], .nil, fun _ hm => nomatch hm⟩
  | @blank o c g hc _ ih =>
      obtain ⟨ms, hcrosses, hidle⟩ := ih ho
      refine ⟨(c, .bare) :: ms, fun rest => ?_, List.forall_mem_cons.mpr ⟨.inr ⟨rfl, ?_⟩, hidle⟩⟩
      · obtain ⟨hmark, hquote, hdash, hslash⟩ := gapBlank_bare hc
        rw [List.cons_append, scan_bare hmark hquote (startsComment_of_ne _ hdash hslash),
          hcrosses rest]
        rfl
      · exact Lexer.isBlank_of_isGapBlank hc
  | @line o body g hbody _ ih =>
      obtain ⟨ms, hcrosses, hidle⟩ := ih ho
      refine ⟨('-' :: '-' :: (body ++ ['\n'])).map (·, .comment) ++ ms, fun rest => ?_,
        fun m hm => (List.mem_append.mp hm).elim (isIdle_comment _ m) (hidle m)⟩
      show mark ['-', '-'] .comment (scan .line ((body ++ '\n' :: g) ++ rest)) = _
      rw [List.append_assoc, List.cons_append, scan_line hbody, ← mark_append, hcrosses rest]
      simp only [mark, List.cons_append, List.nil_append, List.append_assoc]
  | @block o body g hbody _ ih =>
      obtain ⟨ms, hcrosses, hidle⟩ := ih ho
      refine ⟨('/' :: '*' :: body).map (·, .comment) ++ ms, fun rest => ?_,
        fun m hm => (List.mem_append.mp hm).elim (isIdle_comment _ m) (hidle m)⟩
      show mark ['/', '*'] .comment (scan .block ((body ++ g) ++ rest)) = _
      rw [List.append_assoc, scan_block hbody, ← mark_append, hcrosses rest]
      simp only [mark, List.cons_append, List.nil_append, List.append_assoc]
  | last _ => exact nomatch ho

/-- An open gap is idle, too, and its comment stays open. -/
theorem scan_openGap {g : List Char} (h : Gap true g) :
    ∃ ms, scan .bare g = (ms, .line) ∧ ∀ m ∈ ms, IsIdle m := by
  generalize ho : true = o at h
  induction h with
  | nil => exact nomatch ho
  | @blank o c g hc _ ih =>
      obtain ⟨ms, hscan, hidle⟩ := ih ho
      obtain ⟨hmark, hquote, hdash, hslash⟩ := gapBlank_bare hc
      refine ⟨(c, .bare) :: ms, ?_, List.forall_mem_cons.mpr ⟨.inr ⟨rfl, ?_⟩, hidle⟩⟩
      · rw [scan_bare hmark hquote (startsComment_of_ne _ hdash hslash), hscan]
        rfl
      · exact Lexer.isBlank_of_isGapBlank hc
  | @line o body g hbody _ ih =>
      obtain ⟨ms, hscan, hidle⟩ := ih ho
      refine ⟨('-' :: '-' :: (body ++ ['\n'])).map (·, .comment) ++ ms, ?_,
        fun m hm => (List.mem_append.mp hm).elim (isIdle_comment _ m) (hidle m)⟩
      show mark ['-', '-'] .comment (scan .line (body ++ '\n' :: g)) = _
      rw [scan_line hbody, ← mark_append, hscan]
      rfl
  | @block o body g hbody _ ih =>
      obtain ⟨ms, hscan, hidle⟩ := ih ho
      refine ⟨('/' :: '*' :: body).map (·, .comment) ++ ms, ?_,
        fun m hm => (List.mem_append.mp hm).elim (isIdle_comment _ m) (hidle m)⟩
      show mark ['/', '*'] .comment (scan .block (body ++ g)) = _
      rw [scan_block hbody, ← mark_append, hscan]
      rfl
  | @last body hbody =>
      refine ⟨('-' :: '-' :: body).map (·, .comment), ?_, isIdle_comment _⟩
      show mark ['-', '-'] .comment (scan .line body) = _
      rw [scan_line_end hbody, ← mark_append]
      simp only [mark, List.append_nil, List.cons_append, List.nil_append]

/-! ## Lexemes -/

/-- The region of the characters of a token. -/
def regionOf : TokenKind → Region
  | .text => .text
  | .quoted => .quoted
  | _ => .bare

/-- The characters of words open nothing. -/
theorem wordChar_bare {c : Char} (h : isWordChar c = true) :
    c ≠ '\'' ∧ c ≠ '"' ∧ c ≠ '-' ∧ c ≠ '/' := by
  refine ⟨?_, ?_, ?_, ?_⟩ <;> (rintro rfl; exact absurd h (by decide))

/-- Words stand outside, reserved or not. -/
theorem regionOf_wordKind (w : List Char) : regionOf (Lexer.wordKind w) = .bare := by
  unfold Lexer.wordKind
  split <;> rfl

/-- A lexeme with which no comment begins is crossed as one region. -/
theorem scan_lexeme {k : TokenKind} {lexeme rest : List Char} (h : Lexeme k lexeme)
    (hcomment : startsComment (lexeme ++ rest) = false) :
    scan .bare (lexeme ++ rest) = mark lexeme (regionOf k) (scan .bare rest) := by
  cases h with
  | @quoted body hbody =>
      show mark ['"'] .quoted (scan .quoted ((body ++ ['"']) ++ rest)) = _
      rw [List.append_assoc, List.singleton_append, scan_quoted hbody, ← mark_append]
      rfl
  | @text body hbody =>
      show mark ['\''] .text (scan .text (body ++ rest)) = _
      rw [scan_text hbody, ← mark_append]
      rfl
  | word hstart hrest =>
      rw [regionOf_wordKind]
      refine scan_run (List.forall_mem_cons.mpr ⟨wordChar_bare ?_, fun d hd => ?_⟩) rest
      · exact Lexer.isWordChar_of_isWordStart hstart
      · exact wordChar_bare (hrest d hd)
  | whole hd hdigits =>
      refine scan_run (List.forall_mem_cons.mpr ⟨wordChar_bare ?_, fun d hd => ?_⟩) rest
      · exact Lexer.isWordChar_of_isDigit hd
      · exact wordChar_bare (Lexer.isWordChar_of_isDigit (hdigits d hd))
  | fraction hdigits hp hplaces =>
      refine scan_run (fun d hd => ?_) rest
      rcases List.mem_append.mp hd with hd | hd
      · exact wordChar_bare (Lexer.isWordChar_of_isDigit (hdigits d hd))
      · rcases List.mem_cons.mp hd with rfl | hd
        · decide
        · refine wordChar_bare (Lexer.isWordChar_of_isDigit ?_)
          rcases List.mem_cons.mp hd with rfl | hd
          · exact hp
          · exact hplaces d hd
  | symbol hs =>
      have hone : ∀ c : Char, lexeme = [c] → c ≠ '\'' → c ≠ '"' →
          scan .bare (lexeme ++ rest) = mark lexeme .bare (scan .bare rest) := by
        rintro c rfl hmark hquote
        exact scan_bare hmark hquote hcomment
      simp only [Lexer.symbols, List.mem_cons, Prod.mk.injEq, List.not_mem_nil, or_false] at hs
      rcases hs with ⟨rfl, rfl⟩ | ⟨rfl, rfl⟩ | ⟨rfl, rfl⟩ | ⟨rfl, rfl⟩ | ⟨rfl, rfl⟩ | ⟨rfl, rfl⟩ |
        ⟨rfl, rfl⟩ | ⟨rfl, rfl⟩ | ⟨rfl, rfl⟩ | ⟨rfl, rfl⟩ | ⟨rfl, rfl⟩ | ⟨rfl, rfl⟩ | ⟨rfl, rfl⟩ |
        ⟨rfl, rfl⟩ | ⟨rfl, rfl⟩ | ⟨rfl, rfl⟩ | ⟨rfl, rfl⟩ | ⟨rfl, rfl⟩
      all_goals first
        | exact hone _ rfl (by decide) (by decide)
        | exact scan_run (List.forall_mem_cons.mpr
            ⟨by decide, List.forall_mem_singleton.mpr (by decide)⟩) rest

/-- Behind a closed gap a text ends outside as it would by itself. -/
theorem endsOutside_behind_gap {g cs : List Char} (h : Gap false g) :
    EndsOutside (g ++ cs) ↔ EndsOutside cs := by
  obtain ⟨ms, hcrosses, -⟩ := crosses_gap h
  show (scan .bare (g ++ cs)).2 = .bare ↔ _
  rw [hcrosses]
  exact Iff.rfl

/-- What ends in an open gap ends in its comment. -/
theorem not_endsOutside_openGap {g : List Char} (h : Gap true g) : ¬EndsOutside g := by
  obtain ⟨ms, hscan, -⟩ := scan_openGap h
  show (scan .bare g).2 ≠ .bare
  rw [hscan]
  exact nofun

/-- So it does behind a lexeme that begins no comment with what follows. -/
theorem endsOutside_behind_lexeme {k : TokenKind} {lexeme cs : List Char} (h : Lexeme k lexeme)
    (hcomment : startsComment (lexeme ++ cs) = false) :
    EndsOutside (lexeme ++ cs) ↔ EndsOutside cs := by
  show (scan .bare (lexeme ++ cs)).2 = .bare ↔ _
  rw [scan_lexeme h hcomment]
  exact Iff.rfl

end QueryReplay.Sql.Regions
