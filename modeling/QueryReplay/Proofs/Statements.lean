import QueryReplay.Proofs.Preflight
import QueryReplay.Proofs.Literals
import QueryReplay.Replay.Queries

/-! # Statements — what a text asks to be run

    By the lexical rules alone a text is cut at its semicolons outside of literals,
    quoted names and comments.  What is left between them, unless it is nothing but
    blanks and comments, is a statement, and its first word tells of what kind
    (`firstKeywords`).  A text is admissible when that is one statement that reads or
    writes rows.

    * Tokens that begin with SELECT and hold no semicolon but at the end
      (`IsOneSelect`) make one statement of that kind (`IsOneSelect.firstKeywords_eq`),
      and so are those of every text that the grammar accepts (`isOneSelect_of_parse`)
      and of the question for a whole table, whatever it is called
      (`isOneSelect_scanQuery`).
    * A text of one statement that is classified by its first word is admissible when
      no block comment begins in it (`HasBlockComment`), in which that word could stand
      (`admissible_of_classify`). -/

namespace QueryReplay.Sql

open QueryReplay.Sql.Parser QueryReplay.Sql.StatementParser
open QueryReplay.Text (upper isAlphanumeric isBlank)
open Regions (scan mark IsIdle EndsOutside startsComment)
open Lexer (Gap Lexeme Spelled chars startsGap joins)

/-! ## The statements of a text -/

instance : DecidablePred IsIdle := fun _ => inferInstanceAs (Decidable (_ ∨ _))

/-- A semicolon outside of literals, quoted names and comments. -/
def endMark : Char × Region := (';', .bare)

/-- A character of a word that is not quoted. -/
def isLetter (m : Char × Region) : Bool := m.2 == .bare && (isAlphanumeric m.1 || m.1 == '_')

/-- The first word that is not quoted. -/
def firstWord (ms : List (Char × Region)) : String :=
  String.ofList (((ms.dropWhile (!isLetter ·)).takeWhile isLetter).map Prod.fst)

/-- What stands between semicolons and is more than blanks and comments. -/
def statementsOf (ms : List (Char × Region)) : List (List (Char × Region)) :=
  (ms.splitOn endMark).filter fun p => ∃ m ∈ p, ¬IsIdle m

/-- The first words of the statements of a text, in upper case. -/
def firstKeywords (sql : String) : List String :=
  (statementsOf (scan .bare sql.toList).1).map fun p => upper (firstWord p)

/-- The first word of a text, in upper case. -/
def leadingWord (sql : String) : String := upper (firstWord (scan .bare sql.toList).1)

/-- One statement that reads or writes rows. -/
def Admissible (sql : String) : Prop :=
  firstKeywords sql ∈ [["SELECT"], ["INSERT"], ["UPDATE"], ["DELETE"]]

instance : DecidablePred Admissible := fun _ => inferInstanceAs (Decidable (_ ∈ _))

/-! ## First words -/

/-- No blank belongs to a word. -/
theorem isAlphanumeric_of_isBlank {c : Char} (h : isBlank c = true) : isAlphanumeric c = false := by
  have hnone : ∀ n ∈ [9, 10, 11, 12, 13, 0x20, 0x85, 0xA0, 0x1680, 0x2000, 0x2001, 0x2002, 0x2003,
      0x2004, 0x2005, 0x2006, 0x2007, 0x2008, 0x2009, 0x200A, 0x2028, 0x2029, 0x202F, 0x205F, 0x3000],
      isAlphanumeric (Char.ofNat n) = false := by decide +kernel
  have hmem := hnone c.toNat (by
    simp only [isBlank, Bool.or_eq_true, Bool.and_eq_true, decide_eq_true_eq, beq_iff_eq] at h
    simp only [List.mem_cons, List.not_mem_nil, or_false]
    omega)
  rwa [Char.ofNat_toNat] at hmem

theorem isIdle_of_isLetter {m : Char × Region} (h : isLetter m = true) : ¬IsIdle m := by
  obtain ⟨hbare, hword⟩ := Bool.and_eq_true_iff.mp h
  rintro (hcomment | ⟨-, hblank⟩)
  · rw [hcomment] at hbare
    exact nomatch hbare
  · rw [isAlphanumeric_of_isBlank hblank, Bool.false_or, beq_iff_eq] at hword
    rw [hword] at hblank
    exact absurd hblank (by decide)

theorem not_isLetter_endMark : isLetter endMark = false := by
  rw [isLetter, endMark, isAlphanumeric_ascii (by decide)]
  rfl

/-- What holds no letter is skipped. -/
theorem firstWord_skip {front : List (Char × Region)} (h : ∀ m ∈ front, isLetter m = false)
    (back : List (Char × Region)) : firstWord (front ++ back) = firstWord back := by
  rw [firstWord, List.dropWhile_append_of_pos fun m hm => by rw [h m hm]; rfl, firstWord]

/-- What ends behind a letter is not looked behind. -/
theorem firstWord_front {front : List (Char × Region)} (h : ∃ m ∈ front, isLetter m = true)
    {m : Char × Region} (hm : isLetter m = false) (back : List (Char × Region)) :
    firstWord (front ++ m :: back) = firstWord front := by
  have hne : (front.dropWhile (!isLetter ·)).isEmpty = false := by
    obtain ⟨n, hn, hletter⟩ := h
    rw [List.isEmpty_eq_false_iff]
    intro hnil
    have hnone := List.dropWhile_eq_nil_iff.mp hnil n hn
    rw [hletter] at hnone
    exact nomatch hnone
  have hstop : ∀ ms : List (Char × Region),
      (ms ++ m :: back).takeWhile isLetter = ms.takeWhile isLetter := by
    intro ms
    induction ms with
    | nil => rw [List.nil_append, List.takeWhile_cons_of_neg (by rw [hm]; exact nofun)]; rfl
    | cons n ms ih =>
        rw [List.cons_append, List.takeWhile_cons, List.takeWhile_cons, ih]
  rw [firstWord, firstWord, List.dropWhile_append, hne, if_neg nofun, hstop]

/-- A word behind what holds no letter, up to what is none. -/
theorem firstWord_eq {lead more : List (Char × Region)} {c : Char} {cs : List Char}
    (hlead : ∀ m ∈ lead, isLetter m = false) (hword : ∀ d ∈ c :: cs, isLetter (d, .bare) = true)
    (hmore : ∀ m ∈ more.head?, isLetter m = false) :
    firstWord (lead ++ ((c :: cs).map (·, .bare) ++ more)) = String.ofList (c :: cs) := by
  have hletters : ∀ m ∈ (c :: cs).map (·, Region.bare), isLetter m = true := by
    intro m hm
    obtain ⟨d, hd, rfl⟩ := List.mem_map.mp hm
    exact hword d hd
  have hhead : (c, Region.bare) ∈ (c :: cs).map (·, Region.bare) := List.mem_cons_self
  have hdrop : ((c :: cs).map (·, Region.bare)).dropWhile (!isLetter ·)
      = (c :: cs).map (·, Region.bare) :=
    List.dropWhile_cons_of_neg (by rw [hletters _ hhead]; exact nofun)
  have hall : firstWord ((c :: cs).map (·, .bare)) = String.ofList (c :: cs) := by
    rw [firstWord, hdrop, List.takeWhile_eq_self_iff.mpr hletters, List.map_map]
    exact congrArg String.ofList (List.map_id _)
  rw [firstWord_skip hlead]
  cases more with
  | nil => rw [List.append_nil, hall]
  | cons m more => rw [firstWord_front ⟨_, hhead, hletters _ hhead⟩ (hmore m rfl), hall]

/-! ## Cutting at semicolons -/

theorem mem_statementsOf {ms p : List (Char × Region)} :
    p ∈ statementsOf ms ↔ p ∈ ms.splitOn endMark ∧ ∃ m ∈ p, ¬IsIdle m := by
  rw [statementsOf, List.mem_filter, decide_eq_true_iff]

/-- The first word of a text is that of one of its statements. -/
theorem exists_firstWord (ms : List (Char × Region)) (h : ∃ m ∈ ms, isLetter m = true) :
    ∃ p ∈ statementsOf ms, firstWord p = firstWord ms := by
  have hsolid : ∀ {p : List (Char × Region)}, (∃ m ∈ p, isLetter m = true) → ∃ m ∈ p, ¬IsIdle m :=
    fun ⟨m, hm, hletter⟩ => ⟨m, hm, isIdle_of_isLetter hletter⟩
  -- up to the first semicolon; a word in front of it is the first one of its piece
  by_cases hend : endMark ∈ ms
  · obtain ⟨front, back, hms, hfront⟩ := List.eq_append_cons_of_mem hend
    have hshorter : back.length < ms.length := by
      rw [hms, List.length_append, List.length_cons]
      omega
    have hsplit := List.splitOn_append_cons_self_of_not_mem hfront back
    rw [← hms] at hsplit
    by_cases hletters : ∃ m ∈ front, isLetter m = true
    · refine ⟨front, mem_statementsOf.mpr ⟨?_, hsolid hletters⟩, ?_⟩
      · rw [hsplit]
        exact List.mem_cons_self
      · rw [hms, firstWord_front hletters not_isLetter_endMark]
    · -- the front holds no word, so it is that of what is behind the semicolon
      have hnone : ∀ m ∈ front ++ [endMark], isLetter m = false := by
        intro m hm
        rcases List.mem_append.mp hm with hm | hm
        · exact Bool.eq_false_iff.mpr fun hletter => hletters ⟨m, hm, hletter⟩
        · exact List.mem_singleton.mp hm ▸ not_isLetter_endMark
      rw [List.append_cons] at hms
      have hback : ∃ m ∈ back, isLetter m = true := by
        obtain ⟨m, hm, hletter⟩ := h
        rw [hms] at hm
        rcases List.mem_append.mp hm with hm | hm
        · exact nomatch hletter.symm.trans (hnone m hm)
        · exact ⟨m, hm, hletter⟩
      obtain ⟨p, hp, hword⟩ := exists_firstWord back hback
      obtain ⟨hpiece, hmore⟩ := mem_statementsOf.mp hp
      refine ⟨p, mem_statementsOf.mpr ⟨?_, hmore⟩, ?_⟩
      · rw [hsplit]
        exact List.mem_cons_of_mem front hpiece
      · rw [hword, hms, firstWord_skip hnone]
  · refine ⟨ms, mem_statementsOf.mpr ⟨?_, hsolid h⟩, rfl⟩
    rw [List.splitOn_eq_singleton hend]
    exact List.mem_singleton_self ms
termination_by ms.length

/-- The first word of a text of one statement is that of the statement. -/
theorem firstKeywords_of_leadingWord {sql : String} {k : StatementKind}
    (hone : (firstKeywords sql).length ≤ 1) (hword : leadingWord sql = k.word) :
    firstKeywords sql = [k.word] := by
  rw [leadingWord] at hword
  have hletter : ∃ m ∈ (scan .bare sql.toList).1, isLetter m = true := by
    by_contra hnone
    have hskip := firstWord_skip (fun m hm => Bool.eq_false_iff.mpr fun h => hnone ⟨m, hm, h⟩) []
    rw [List.append_nil] at hskip
    rw [hskip] at hword
    cases k <;> exact absurd hword (by decide)
  obtain ⟨p, hp, hfirst⟩ := exists_firstWord _ hletter
  have hkeyword : upper (firstWord p) ∈ firstKeywords sql := List.mem_map_of_mem hp
  obtain ⟨w, hw⟩ := List.length_eq_one_iff.mp
    (Nat.le_antisymm hone (List.length_pos_of_mem hkeyword))
  rw [hw] at hkeyword ⊢
  rw [← List.mem_singleton.mp hkeyword, hfirst, hword]

theorem admissible_iff {sql : String} :
    Admissible sql ↔ ∃ k : StatementKind, firstKeywords sql = [k.word] := by
  constructor
  · intro h
    simp only [Admissible, List.mem_cons, List.not_mem_nil, or_false] at h
    rcases h with h | h | h | h
    · exact ⟨.select, h⟩
    · exact ⟨.insert, h⟩
    · exact ⟨.update, h⟩
    · exact ⟨.delete, h⟩
  · rintro ⟨k, hk⟩
    rw [Admissible, hk]
    cases k <;> decide

theorem endMark_not_mem_idle {ms : List (Char × Region)} (h : ∀ m ∈ ms, IsIdle m) :
    endMark ∉ ms := by
  intro hmem
  rcases h _ hmem with h | ⟨-, h⟩ <;> exact absurd h (by decide)

/-- A semicolon at the end, with nothing but blanks and comments behind it, cuts
    nothing. -/
theorem statementsOf_length {body tail : List (Char × Region)} (hbody : endMark ∉ body)
    (htail : tail = [] ∨ ∃ idle, tail = endMark :: idle ∧ ∀ m ∈ idle, IsIdle m) :
    (statementsOf (body ++ tail)).length ≤ 1 := by
  rcases htail with rfl | ⟨idle, rfl, hidle⟩
  · rw [List.append_nil, statementsOf, List.splitOn_eq_singleton hbody]
    exact List.length_filter_le _ _
  · have hnone : [idle].filter (fun p => decide (∃ m ∈ p, ¬IsIdle m)) = [] := by simpa using hidle
    rw [statementsOf, List.splitOn_append_cons_self_of_not_mem hbody,
      List.splitOn_eq_singleton (endMark_not_mem_idle hidle), ← List.singleton_append, List.filter_append, hnone,
      List.append_nil]
    exact List.length_filter_le _ _

/-! ## Marks of tokens -/

/-- A comment that nothing closes goes on to the end. -/
theorem Regions.scan_block_open {cs : List Char} (h : Lexer.blockEnd? cs = none) :
    ∀ m ∈ (scan .block cs).1, m.2 = .comment := by
  induction cs with
  | nil => exact fun _ hm => nomatch hm
  | cons c cs ih =>
      have hne : ∀ more, c :: cs ≠ '*' :: '/' :: more := by
        intro more heq
        rw [heq] at h
        exact nomatch h
      rw [Lexer.blockEnd_char hne, Option.map_eq_none_iff] at h
      rw [scan_block_char hne]
      exact List.forall_mem_cons.mpr ⟨rfl, ih h⟩

/-- The first mark is that of the first character. -/
theorem Regions.scan_head (c : Char) (cs : List Char) :
    ∃ r ms, (scan .bare (c :: cs)).1 = (c, r) :: ms := by
  by_cases hmark : c = '\''
  · exact hmark ▸ ⟨_, _, rfl⟩
  by_cases hquote : c = '"'
  · exact hquote ▸ ⟨_, _, rfl⟩
  cases hcomment : startsComment (c :: cs) with
  | false =>
      rw [scan_bare hmark hquote hcomment]
      exact ⟨_, _, rfl⟩
  | true =>
      unfold startsComment at hcomment
      split at hcomment
      · rename_i rest heq
        rw [heq, (List.cons.inj heq).1]
        exact ⟨_, _, rfl⟩
      · rename_i rest heq
        rw [heq, (List.cons.inj heq).1]
        exact ⟨_, _, rfl⟩
      · exact nomatch hcomment

/-- Lexemes and gaps begin with a character of the first letters. -/
theorem Lexer.Lexeme.head_ascii {k : TokenKind} {c : Char} {cs : List Char}
    (h : Lexeme k (c :: cs)) : c.toNat < 0xAA := by
  have hword : ∀ {d : Char}, Lexer.isWordChar d = true → d.toNat < 0xAA := fun hd => by
    have := Lexer.toNat_of_isWordChar hd
    omega
  generalize hlexeme : c :: cs = lexeme at h
  cases h with
  | quoted _ =>
      rw [(List.cons.inj hlexeme).1]
      decide
  | text _ =>
      rw [(List.cons.inj hlexeme).1]
      decide
  | word hstart _ =>
      exact (List.cons.inj hlexeme).1 ▸ hword (Lexer.isWordChar_of_isWordStart hstart)
  | whole hd _ => exact (List.cons.inj hlexeme).1 ▸ hword (Lexer.isWordChar_of_isDigit hd)
  | @fraction digits places p hdigits _ _ =>
      cases digits with
      | nil =>
          rw [(List.cons.inj hlexeme).1]
          decide
      | cons d digits =>
          rw [(List.cons.inj hlexeme).1]
          exact hword (Lexer.isWordChar_of_isDigit (hdigits d List.mem_cons_self))
  | symbol hs =>
      have hmarks : (Lexer.symbols.all fun x => x.2.all fun d => d.toNat < 0xAA) = true := by
        decide +kernel
      have hchars := List.all_eq_true.mp (List.all_eq_true.mp hmarks _ hs)
      exact of_decide_eq_true (hchars c (hlexeme ▸ List.mem_cons_self))

theorem Lexer.Gap.head_ascii {o : Bool} {c : Char} {g : List Char} (h : Gap o (c :: g)) :
    c.toNat < 0xAA := by
  generalize hgap : c :: g = cs at h
  cases h with
  | nil => exact nomatch hgap
  | @blank _ d _ hd _ =>
      rw [(List.cons.inj hgap).1]
      simp only [Lexer.isGapBlank, Bool.or_eq_true, beq_iff_eq] at hd
      rcases hd with ((rfl | rfl) | rfl) | rfl <;> decide
  | _ =>
      rw [(List.cons.inj hgap).1]
      decide

theorem isLetter_ascii {c : Char} (h : c.toNat < 0xAA) :
    isLetter (c, .bare) = Lexer.isWordChar c := by
  rw [isLetter, isAlphanumeric_ascii h, Lexer.isWordChar]
  rfl

theorem isLetter_word {c : Char} (h : Lexer.isWordChar c = true) : isLetter (c, .bare) = true := by
  have hrange := Lexer.toNat_of_isWordChar h
  rw [isLetter_ascii (by omega), h]

theorem isLetter_of_isIdle {m : Char × Region} (h : IsIdle m) : isLetter m = false :=
  Bool.eq_false_iff.mpr fun hletter => isIdle_of_isLetter hletter h

/-- What is read behind a word does not go on with it. -/
theorem not_isLetter_behind {t : Token} {ts : List Token} (h : Spelled (t :: ts))
    (ht : t.kind = .name ∨ ∃ k, t.kind = .keyword k) :
    ∀ m ∈ (scan .bare (t.gap.toList ++ chars ts)).1.head?, isLetter m = false := by
  obtain ⟨-, ⟨o, hgap, -⟩, -, hjoins, hts⟩ := h
  have hjoins : (t.gap.toList ++ chars ts).head?.any Lexer.isWordChar = false := by
    rcases ht with ht | ⟨k, ht⟩ <;> rw [ht] at hjoins <;> exact hjoins
  cases hcs : t.gap.toList ++ chars ts with
  | nil => exact fun _ hm => nomatch hm
  | cons c cs =>
      -- what follows begins a gap or a token, and both begin with ASCII characters
      have hascii : c.toNat < 0xAA := by
        rcases hg : t.gap.toList with _ | ⟨d, g⟩
        · cases ts with
          | nil =>
              rw [hg] at hcs
              exact nomatch hcs
          | cons u ts =>
              obtain ⟨d, ds, hlexeme⟩ := List.exists_cons_of_ne_nil hts.1.ne_nil
              rw [hg, Lexer.chars_cons, hlexeme] at hcs
              exact (List.cons.inj hcs).1 ▸ (hlexeme ▸ hts.1 : Lexeme u.kind (d :: ds)).head_ascii
        · rw [hg] at hcs
          exact (List.cons.inj hcs).1 ▸ (hg ▸ hgap : Gap o (d :: g)).head_ascii
      rw [hcs] at hjoins
      obtain ⟨r, ms, hhead⟩ := Regions.scan_head c cs
      rw [hhead]
      rintro m hm
      obtain rfl := Option.some.inj hm
      cases r with
      | bare => rw [isLetter_ascii hascii]; exact hjoins
      | _ => rfl

/-- A lexeme that is no semicolon cuts nothing. -/
theorem endMark_not_mem_lexeme {k : TokenKind} {cs : List Char} (h : Lexeme k cs)
    (hk : k ≠ .symbol .semicolon) : endMark ∉ cs.map (·, Regions.regionOf k) := by
  intro hmem
  obtain ⟨c, hc, heq⟩ := List.mem_map.mp hmem
  obtain ⟨rfl, hregion⟩ := Prod.mk.inj heq
  have hword : ∀ {d : Char}, Lexer.isWordChar d = true → d ≠ ';' := by
    rintro d hd rfl
    exact absurd hd (by decide)
  have hdigit : ∀ {d : Char}, d.isDigit = true → d ≠ ';' := fun hd =>
    hword (Lexer.isWordChar_of_isDigit hd)
  cases h with
  | quoted _ => exact nomatch hregion
  | text _ => exact nomatch hregion
  | word hstart hrest =>
      rcases List.mem_cons.mp hc with rfl | hc
      · exact hword (Lexer.isWordChar_of_isWordStart hstart) rfl
      · exact hword (hrest _ hc) rfl
  | whole hd hdigits =>
      rcases List.mem_cons.mp hc with rfl | hc
      · exact hdigit hd rfl
      · exact hdigit (hdigits _ hc) rfl
  | fraction hdigits hp hplaces =>
      rcases List.mem_append.mp hc with hc | hc
      · exact hdigit (hdigits _ hc) rfl
      rcases List.mem_cons.mp hc with heq | hc
      · exact nomatch heq
      rcases List.mem_cons.mp hc with rfl | hc
      · exact hdigit hp rfl
      · exact hdigit (hplaces _ hc) rfl
  | @symbol s cs hs =>
      have hmarks : ∀ x ∈ Lexer.symbols, ';' ∈ x.2 → x.1 = .semicolon := by decide
      exact hk (congrArg TokenKind.symbol (hmarks _ hs hc))

/-- At most the last mark that is no blank and no comment is a semicolon. -/
def EndsOnce (ms : List (Char × Region)) : Prop :=
  ∃ body tail, ms = body ++ tail ∧ endMark ∉ body
    ∧ (tail = [] ∨ ∃ idle, tail = endMark :: idle ∧ ∀ m ∈ idle, IsIdle m)

theorem EndsOnce.whole {ms : List (Char × Region)} (h : endMark ∉ ms) : EndsOnce ms :=
  ⟨ms, [], (List.append_nil ms).symm, h, .inl rfl⟩

theorem EndsOnce.behind {ms ns : List (Char × Region)} (hms : endMark ∉ ms) (h : EndsOnce ns) :
    EndsOnce (ms ++ ns) := by
  obtain ⟨body, tail, rfl, hbody, htail⟩ := h
  refine ⟨ms ++ body, tail, (List.append_assoc _ _ _).symm, fun hmem => ?_, htail⟩
  exact (List.mem_append.mp hmem).elim hms hbody

/-- At most the last of the tokens is a semicolon. -/
def EndsLast (ts : List Token) : Prop := ∀ t ∈ ts.dropLast, t.kind ≠ .symbol .semicolon

theorem EndsLast.of_ended {used rest : List Token} (hused : Within used) (hrest : Ended rest) :
    EndsLast (used ++ rest) := by
  intro t ht
  rcases hrest.cases with rfl | ⟨u, rfl, -⟩
  · rw [List.append_nil] at ht
    exact hused.unended t (List.mem_of_mem_dropLast ht)
  · rw [List.dropLast_concat] at ht
    exact hused.unended t ht

/-- The tokens of a text cut it at their last one only. -/
theorem endsOnce_chars {ts : List Token} (hspelled : Spelled ts)
    (hgap : startsGap (chars ts) = false) (hends : EndsLast ts) :
    EndsOnce (scan .bare (chars ts)).1 := by
  induction ts with
  | nil => exact .whole nofun
  | cons t ts ih =>
      have hwhole := hspelled
      obtain ⟨hlexeme, ⟨o, htgap, hopen⟩, hstart, -, hts⟩ := hspelled
      rw [Lexer.chars_cons] at hgap ⊢
      cases hcomment : startsComment (t.lexeme.toList ++ (t.gap.toList ++ chars ts)) with
      | true =>
          -- a comment that is not closed, so that no gap begins here
          unfold startsComment at hcomment
          split at hcomment
          · rename_i heq
            rw [heq] at hgap
            exact nomatch hgap
          · rename_i rest heq
            rw [heq] at hgap ⊢
            have hnone : Lexer.blockEnd? rest = none := Option.not_isSome_iff_eq_none.mp
              (by rw [show (Lexer.blockEnd? rest).isSome = false from hgap]; exact nofun)
            refine .whole fun hmem => ?_
            have hmem : endMark ∈ ('/', Region.comment) :: ('*', .comment) :: (scan .block rest).1 :=
              hmem
            rcases List.mem_cons.mp hmem with heq | hmem
            · exact nomatch heq
            rcases List.mem_cons.mp hmem with heq | hmem
            · exact nomatch heq
            · exact nomatch Regions.scan_block_open hnone _ hmem
          · exact nomatch hcomment
      | false =>
          rw [Regions.scan_lexeme hlexeme hcomment]
          show EndsOnce (t.lexeme.toList.map (·, Regions.regionOf t.kind) ++ _)
          -- what is behind the lexeme: the gap, and the tokens behind it
          have hbehind : EndsOnce (scan .bare (t.gap.toList ++ chars ts)).1
              ∧ (ts = [] → ∀ m ∈ (scan .bare (t.gap.toList ++ chars ts)).1, IsIdle m) := by
            cases o with
            | true =>
                obtain rfl := hopen rfl
                obtain ⟨ms, hscan, hidle⟩ := Regions.scan_openGap htgap
                rw [Lexer.chars_nil, List.append_nil, hscan]
                exact ⟨.whole (endMark_not_mem_idle hidle), fun _ => hidle⟩
            | false =>
                obtain ⟨ms, hcrosses, hidle⟩ := Regions.crosses_gap htgap
                rw [hcrosses]
                refine ⟨.behind (endMark_not_mem_idle hidle) (ih hts hstart ?_), ?_⟩
                · cases ts with
                  | nil => exact fun _ hu => nomatch hu
                  | cons u ts => exact fun v hv => hends v (List.mem_cons_of_mem t hv)
                · rintro rfl
                  show ∀ m ∈ ms ++ [], IsIdle m
                  rw [List.append_nil]
                  exact hidle
          by_cases hk : t.kind = .symbol .semicolon
          · have hlast : ts = [] := by
              cases ts with
              | nil => rfl
              | cons u ts => exact absurd hk (hends t List.mem_cons_self)
            rw [hlexeme.semicolon hk, hk]
            exact ⟨[], _, rfl, List.not_mem_nil, .inr ⟨_, rfl, hbehind.2 hlast⟩⟩
          · exact hbehind.1.behind (endMark_not_mem_lexeme hlexeme hk)

/-! ## Texts that the grammar reads -/

/-- The tokens begin with SELECT, and at most the last of them is a semicolon. -/
def IsOneSelect (sql : String) : Prop :=
  ∃ lead t ts, TokenStream.ofString? sql = some ⟨lead, t :: ts⟩ ∧ t.kind = .keyword .select
    ∧ EndsLast (t :: ts)

theorem IsOneSelect.firstKeywords_eq {sql : String} (h : IsOneSelect sql) :
    firstKeywords sql = ["SELECT"] := by
  obtain ⟨lead, t, ts, hstream, hselect, hends⟩ := h
  obtain ⟨htext, hstart, ⟨o, hlead, hopen⟩, hspelled⟩ := Lexer.ofString_iff.mp hstream
  have hlexeme := hspelled.1
  obtain ⟨c, cs, hcs, hcstart, hcrest⟩ := hlexeme.keyword hselect
  have hletters : ∀ d ∈ c :: cs, Lexer.isWordChar d = true :=
    List.forall_mem_cons.mpr ⟨Lexer.isWordChar_of_isWordStart hcstart, hcrest⟩
  obtain ⟨-, -, hdash, hslash⟩ := Regions.wordChar_bare (hletters c List.mem_cons_self)
  -- the text is a gap, the word, and what is behind it
  have hscan : ∃ ms, (∀ m ∈ ms, IsIdle m) ∧ (scan .bare sql.toList).1 = ms
      ++ (scan .bare (chars (t :: ts))).1 := by
    cases o with
    | true => exact nomatch hopen rfl
    | false =>
        obtain ⟨ms, hcrosses, hidle⟩ := Regions.crosses_gap hlead
        exact ⟨ms, hidle, by rw [htext, hcrosses]⟩
  obtain ⟨ms, hidle, hscan⟩ := hscan
  have hword : (scan .bare (chars (t :: ts))).1
      = (c :: cs).map (·, .bare) ++ (scan .bare (t.gap.toList ++ chars ts)).1 := by
    rw [Lexer.chars_cons, Regions.scan_lexeme hlexeme
      (by rw [hcs]; exact Regions.startsComment_of_ne _ hdash hslash), hselect, hcs]
    rfl
  refine firstKeywords_of_leadingWord (k := .select) ?_ ?_
  · have honce := EndsOnce.behind (endMark_not_mem_idle hidle) (endsOnce_chars hspelled hstart hends)
    rw [← hscan] at honce
    obtain ⟨body, tail, hbody, hno, htail⟩ := honce
    rw [firstKeywords, List.length_map, hbody]
    exact statementsOf_length hno htail
  · have hfirst := firstWord_eq (fun m hm => isLetter_of_isIdle (hidle m hm))
      (fun d hd => isLetter_word (hletters d hd)) (not_isLetter_behind hspelled (.inr ⟨_, hselect⟩))
    rw [leadingWord, hscan, hword, hfirst, ← hcs, String.ofList_toList, upper_of_kind hlexeme hselect]
    decide

theorem IsOneSelect.admissible {sql : String} (h : IsOneSelect sql) : Admissible sql :=
  admissible_iff.mpr ⟨.select, h.firstKeywords_eq⟩

/-- What the grammar accepts. -/
theorem isOneSelect_of_parse {sql : String} {s : Select} (h : parse sql = .ok s) :
    IsOneSelect sql := by
  obtain ⟨lead, tokens, list, items, sources, tables, rest, hstream, hparts, hended, -⟩ :=
    parts_of_parse h
  obtain ⟨used, hused, hwithin⟩ := hparts.within (expr_takes _)
  have hends : EndsLast tokens := hused ▸ .of_ended hwithin hended
  obtain ⟨t, ts, rfl, ht⟩ : ∃ t ts, tokens = t :: ts ∧ t.kind = .keyword .select := by
    obtain ⟨behind, hselect, -⟩ := Option.map_eq_some_iff.mp hparts.list_eq
    obtain ⟨t, ht, hkind⟩ := keyword_some hselect
    exact ⟨t, behind, ht, hkind⟩
  exact ⟨lead, t, ts, hstream, ht, hends⟩

/-! ## Questions for whole tables -/

/-- A name in quotes, with those inside doubled, is cut into quoted tokens. -/
theorem quoted_spelled (name body : List Char) (hbody : ∀ c ∈ body, c ≠ '"') :
    ∃ t ts, Spelled (t :: ts) ∧ (∀ u ∈ t :: ts, u.kind = .quoted)
      ∧ chars (t :: ts) = '"' :: (body
        ++ (name.flatMap (fun c => if c == '"' then ['"', '"'] else [c]) ++ ['"'])) := by
  have hlexeme : Lexeme .quoted (String.ofList ('"' :: (body ++ ['"']))).toList := by
    rw [String.toList_ofList]
    exact .quoted hbody
  have hstart : ∀ cs, startsGap ('"' :: cs) = false := fun cs =>
    Lexer.startsGap_cons cs (by decide) (by decide) (by decide)
  induction name generalizing body with
  | nil =>
      refine ⟨⟨.quoted, String.ofList ('"' :: (body ++ ['"'])), ""⟩, [],
        ⟨hlexeme, ⟨false, .nil, nofun⟩, rfl, rfl, trivial⟩, fun u hu => ?_, ?_⟩
      · rw [List.mem_singleton.mp hu]
      · simp [Lexer.chars_cons]
  | cons c name ih =>
      by_cases hc : c = '"'
      · -- a doubled quote ends a token, and the next one begins with it
        obtain ⟨u, us, hspelled, hkinds, hchars⟩ := ih [] nofun (by
          rw [String.toList_ofList]
          exact .quoted nofun)
        refine ⟨⟨.quoted, String.ofList ('"' :: (body ++ ['"'])), ""⟩, u :: us,
          ⟨hlexeme, ⟨false, .nil, nofun⟩, ?_, rfl, hspelled⟩, fun v hv => ?_, ?_⟩
        · rw [hchars]
          exact hstart _
        · rcases List.mem_cons.mp hv with rfl | hv
          · rfl
          · exact hkinds v hv
        · rw [Lexer.chars_cons, hchars, hc]
          simp
      · have hlonger : ∀ d ∈ body ++ [c], d ≠ '"' := by
          intro d hd
          rcases List.mem_append.mp hd with hd | hd
          · exact hbody d hd
          · exact List.mem_singleton.mp hd ▸ hc
        obtain ⟨u, us, hspelled, hkinds, hchars⟩ := ih (body ++ [c]) hlonger (by
          rw [String.toList_ofList]
          exact .quoted hlonger)
        refine ⟨u, us, hspelled, hkinds, ?_⟩
        rw [hchars, List.flatMap_cons, if_neg (fun h => hc (beq_iff_eq.mp h))]
        simp only [List.append_assoc, List.cons_append, List.nil_append]

/-- The tokens of the question for a table in front of FROM. -/
def scanItems : List Token :=
  [⟨.keyword .select, "SELECT", " "⟩, ⟨.name, "rowid", " "⟩, ⟨.keyword .as, "AS", " "⟩,
    ⟨.name, rowIdColumn, ""⟩, ⟨.symbol .comma, ",", " "⟩, ⟨.symbol .star, "*", " "⟩]

/-- FROM with a blank behind it. -/
def fromWord : Token := ⟨.keyword .from, "FROM", " "⟩

/-- The question for a whole table reads it, whatever it is called. -/
theorem isOneSelect_scanQuery (table : String) : IsOneSelect (scanQuery table) := by
  have hfront : TokenStream.ofString? ("SELECT rowid AS " ++ rowIdColumn ++ ", * FROM ")
      = some ⟨"", scanItems ++ [fromWord]⟩ := by decide +kernel
  have hapart : (scanItems ++ [fromWord]).IsChain Lexer.Apart := by
    simp [scanItems, fromWord, Lexer.Apart]
  -- the name in quotes is one token or several, all of them quoted, whatever characters it has
  obtain ⟨t, ts, hspelled, hquoted, hchars⟩ := quoted_spelled table.toList [] nofun
  have hstart : startsGap (chars (t :: ts)) = false := by
    rw [hchars]
    exact Lexer.startsGap_cons _ (by decide) (by decide) (by decide)
  have hblank : fromWord.gap.toList = [' '] := by decide
  have hgap : Gap false fromWord.gap.toList := by
    rw [hblank]
    exact .blank rfl .nil
  have hjoins : joins fromWord.kind fromWord.lexeme.toList
      (fromWord.gap.toList ++ chars (t :: ts)) = false := by
    rw [hblank]
    exact joins_blank rfl _ _ _
  have hstream := stream_append hfront hspelled hstart ⟨nofun, nofun, nofun⟩ hapart hgap hjoins
  have hname : quoteName table = String.ofList (chars (t :: ts)) := congrArg String.ofList hchars.symm
  rw [← hname] at hstream
  have hstream : TokenStream.ofString? (scanQuery table) = some _ := hstream
  have hitems : ∀ u ∈ scanItems, u.kind ≠ .symbol .semicolon := by decide
  refine ⟨"", _, _, hstream, rfl, fun u hu => ?_⟩
  have hu : u ∈ scanItems ++ fromWord :: t :: ts := List.mem_of_mem_dropLast hu
  rcases List.mem_append.mp hu with hu | hu
  · exact hitems u hu
  rcases List.mem_cons.mp hu with rfl | hu
  · exact nofun
  · rw [hquoted u hu]
    exact nofun

/-! ## Block comments -/

/-- A block comment begins in these characters, read on from a mode: a slash and a star
    stand in them where nothing is open. -/
def OpensBlock (m : Regions.Mode) (cs : List Char) : Prop :=
  ∃ front back, cs = front ++ '/' :: '*' :: back ∧ (scan m front).2 = .bare

instance (m : Regions.Mode) (cs : List Char) : Decidable (OpensBlock m cs) :=
  decidable_of_iff
    (∃ k ∈ List.range cs.length, ['/', '*'] <+: cs.drop k ∧ (scan m (cs.take k)).2 = .bare) <| by
    constructor
    · rintro ⟨k, -, ⟨back, hback⟩, hbare⟩
      refine ⟨cs.take k, back, ?_, hbare⟩
      have hsplit := List.take_append_drop k cs
      rw [← hback] at hsplit
      exact hsplit.symm
    · rintro ⟨front, back, rfl, hbare⟩
      refine ⟨front.length, by simp, ?_, by rwa [List.take_left]⟩
      rw [List.drop_left]
      exact List.prefix_append ['/', '*'] back

/-- A block comment begins in the text, outside of literals, quoted names and comments. -/
def HasBlockComment (sql : String) : Prop := OpensBlock .bare sql.toList

instance : DecidablePred HasBlockComment := fun _ => inferInstanceAs (Decidable (OpensBlock _ _))

/-- A block comment that begins behind characters begins in the whole. -/
theorem OpensBlock.behind {m m' : Regions.Mode} (front : List Char) {cs : List Char}
    (hscan : ∀ more, more <+: cs → (scan m (front ++ more)).2 = (scan m' more).2)
    (h : OpensBlock m' cs) : OpensBlock m (front ++ cs) := by
  obtain ⟨more, back, rfl, hbare⟩ := h
  refine ⟨front ++ more, back, (List.append_assoc _ _ _).symm, ?_⟩
  rw [hscan more (List.prefix_append _ _), hbare]

/-- What begins no comment begins none when less follows. -/
theorem startsComment_of_front {c : Char} {cs more : List Char} (hmore : more <+: cs)
    (h : startsComment (c :: cs) = false) : startsComment (c :: more) = false := by
  cases more with
  | nil =>
      unfold startsComment
      split <;> simp_all
  | cons d more =>
      obtain ⟨back, rfl⟩ := hmore
      rw [List.cons_append, startsComment_cons_cons] at h
      rwa [startsComment_cons_cons]

/-- So does one behind a character that is bare. -/
theorem OpensBlock.behind_bare {c : Char} {cs : List Char} (hmark : c ≠ '\'') (hquote : c ≠ '"')
    (hcomment : startsComment (c :: cs) = false) (h : OpensBlock .bare cs) :
    OpensBlock .bare (c :: cs) :=
  h.behind [c] fun more hmore => by
    rw [List.singleton_append,
      Regions.scan_bare hmark hquote (startsComment_of_front hmore hcomment)]
    rfl

/-! ## Texts that are classified -/

/-- What is open at a character, as far as the words know: no block comment. -/
def Region.mode : Region → Regions.Mode
  | .bare => .bare
  | .text => .text
  | .quoted => .quoted
  | .comment => .line

/-- An open word as it is scanned: of characters of words, or behind a double quote. -/
def Region.Holds : Region → List Char → Prop
  | .bare, word => ∀ c ∈ word, Words.isWordChar c = true
  | .quoted, word => word.getLast? = some '"'
  | _, _ => True

/-- The characters of an open word that is not quoted. -/
def Region.openMarks : Region → List Char → List (Char × Region)
  | .bare, word => word.reverse.map (·, .bare)
  | _, _ => []

theorem StatementKind.letters_of_upper {w : String} {k : StatementKind} (h : upper w = k.word) :
    ∀ c ∈ w.toList, c.isAlpha = true := by
  intro c hc
  have hall : k.word.toList.all Char.isAlpha = true := by cases k <;> decide
  rw [← Char.isAlpha_toUpper_eq_isAlpha]
  refine List.all_eq_true.mp hall _ ?_
  rw [← h, upper, String.toList_ofList]
  exact List.mem_map_of_mem hc

theorem isLetter_not_wordChar {c : Char} (h : Words.isWordChar c = false) (r : Region) :
    isLetter (c, r) = false := by
  rw [Words.isWordChar, Bool.or_eq_false_iff] at h
  rw [isLetter, h.1, Bool.and_false]

theorem bareWord_finish {word : List Char} (h : word.getLast? = some '"') :
    (Words.finish word).filterMap bareWord = [] := by
  obtain ⟨front, rfl⟩ := List.getLast?_eq_some_iff.mp h
  rw [Words.finish, if_neg (by simp), List.reverse_append]
  simp [bareWord]

/-- Where no block comment begins, only two dashes open a comment. -/
theorem startsComment_of_opensBlock {c : Char} {cs : List Char} (hblock : ¬OpensBlock .bare (c :: cs))
    (hdash : ∀ more, c = '-' → cs = '-' :: more → False) : startsComment (c :: cs) = false := by
  unfold startsComment
  split
  · next more heq => exact (hdash more (List.cons.inj heq).1 (List.cons.inj heq).2).elim
  · next more heq => exact (hblock ⟨[], more, heq, rfl⟩).elim
  · rfl

/-- Where a word ends, it is the first one, or none was open. -/
theorem firstWord_finish {k : StatementKind} {word : List Char} {back : List String}
    {ms : List (Char × Region)} (hword : ∀ c ∈ word, Words.isWordChar c = true)
    (hms : ∀ m ∈ ms.head?, isLetter m = false)
    (hback : (back.filterMap bareWord).head? = some k.word → upper (firstWord ms) = k.word)
    (h : ((Words.finish word ++ back).filterMap bareWord).head? = some k.word) :
    upper (firstWord (word.reverse.map (·, .bare) ++ ms)) = k.word := by
  -- Without an open word the words behind decide; else the open one is the first, all letters
  -- because it names a kind.
  cases hrev : word.reverse with
  | nil =>
      rw [List.reverse_eq_nil_iff.mp hrev] at h
      exact hback h
  | cons c cs =>
      have hchars : ∀ d ∈ c :: cs, Words.isWordChar d = true := fun d hd =>
        hword d (List.mem_reverse.mp (hrev ▸ hd))
      have hquote : c ≠ '"' := Words.ne_of_isWordChar (hchars c List.mem_cons_self)
        (Words.isWordChar_mark (by decide))
      have hbare : bareWord (String.ofList (c :: cs)) = some (upper (String.ofList (c :: cs))) := by
        rw [bareWord, String.toList_ofList, List.head?_cons, if_neg (by simpa using hquote)]
      have hfinish : Words.finish word = [String.ofList (c :: cs)] := by
        rw [← List.reverse_reverse word, hrev, Words.finish_reverse (List.cons_ne_nil c cs)]
      rw [hfinish, List.singleton_append, List.filterMap_cons_some hbare, List.head?_cons] at h
      have hupper := Option.some.inj h
      have hletters : ∀ d ∈ c :: cs, isLetter (d, .bare) = true := by
        intro d hd
        have halpha := StatementKind.letters_of_upper hupper d (by rwa [String.toList_ofList])
        refine isLetter_word ?_
        rw [Lexer.isWordChar, Char.isAlphanum, halpha]
        rfl
      have hfirst := firstWord_eq (List.forall_mem_nil _) hletters hms
      rw [List.nil_append] at hfirst
      rw [hfirst, hupper]

/-- Characters of a literal, a quoted name or a comment hold no word, and what block
    comments begin behind them begin in the whole. -/
theorem firstWord_behind {m m' : Regions.Mode} {r : Region} (hr : r ≠ .bare) (front : List Char)
    {cs : List Char} (hscan : ∀ more, scan m (front ++ more) = mark front r (scan m' more))
    (hblock : ¬OpensBlock m (front ++ cs)) :
    ¬OpensBlock m' cs ∧ firstWord (scan m (front ++ cs)).1 = firstWord (scan m' cs).1 := by
  refine ⟨fun hopens => ?_, ?_⟩
  · refine hblock (OpensBlock.behind front (fun more _ => ?_) hopens)
    rw [hscan more]
    rfl
  · have hletter : ∀ n ∈ front.map (·, r), isLetter n = false := by
      intro n hn
      obtain ⟨c, -, rfl⟩ := List.mem_map.mp hn
      rw [isLetter, beq_false_of_ne hr, Bool.false_and]
    rw [hscan cs]
    exact firstWord_skip hletter _

/-- Without block comments, the first of the words that is no quoted name is the first
    word of the text. -/
theorem firstWord_scan {k : StatementKind} (region : Region) (word cs : List Char)
    (hholds : region.Holds word) (hblock : ¬OpensBlock region.mode cs)
    (h : ((Words.scan region word cs).filterMap bareWord).head? = some k.word) :
    upper (firstWord (region.openMarks word ++ (scan region.mode cs).1)) = k.word := by
  -- the two passes take the same steps: the words are looked for where nothing is open, and
  -- they would come apart only at a block comment, which the words do not know
  fun_induction Words.scan region word cs with
  | case1 word =>
      rw [← List.append_nil (Words.finish word)] at h
      refine firstWord_finish hholds (fun _ hm => by cases hm) (fun hnone => ?_) h
      cases hnone
  -- a literal, a quoted name or a line comment begins, and the word before it is finished
  | case2 word rest ih =>
      obtain ⟨hrest, hpass⟩ := firstWord_behind (by decide) ['\''] (fun _ => rfl) hblock
      refine firstWord_finish hholds (fun m hm => ?_) (fun hfirst => ?_) h
      · exact Option.some.inj hm ▸ rfl
      · exact (congrArg upper hpass).trans (ih trivial hrest hfirst)
  | case3 word rest ih =>
      obtain ⟨hrest, hpass⟩ := firstWord_behind (by decide) ['"'] (fun _ => rfl) hblock
      refine firstWord_finish hholds (fun m hm => ?_) (fun hfirst => ?_) h
      · exact Option.some.inj hm ▸ rfl
      · exact (congrArg upper hpass).trans (ih rfl hrest hfirst)
  | case4 word rest ih =>
      obtain ⟨hrest, hpass⟩ := firstWord_behind (by decide) ['-', '-'] (fun _ => rfl) hblock
      refine firstWord_finish hholds (fun m hm => ?_) (fun hfirst => ?_) h
      · exact Option.some.inj hm ▸ rfl
      · exact (congrArg upper hpass).trans (ih trivial hrest hfirst)
  -- where nothing is open a character goes on with the word, or ends it
  | case5 word c rest hmark hquote hdash hc ih =>
      have hcomment := startsComment_of_opensBlock hblock hdash
      have hrest : ¬OpensBlock .bare rest := fun hmem =>
        hblock (hmem.behind_bare hmark hquote hcomment)
      rw [← ih (List.forall_mem_cons.mpr ⟨hc, hholds⟩) hrest h, Region.mode,
        Regions.scan_bare hmark hquote hcomment]
      simp [Region.openMarks, mark]
  | case6 word c rest hmark hquote hdash hc ih =>
      have hletter := isLetter_not_wordChar (Bool.eq_false_iff.mpr hc) .bare
      have hcomment := startsComment_of_opensBlock hblock hdash
      have hrest : ¬OpensBlock .bare rest := fun hmem =>
        hblock (hmem.behind_bare hmark hquote hcomment)
      rw [Region.mode, Regions.scan_bare hmark hquote hcomment]
      refine firstWord_finish hholds (fun m hm => ?_) (fun hfirst => ?_) h
      · exact Option.some.inj hm ▸ hletter
      · rw [← ih (List.forall_mem_nil _) hrest hfirst]
        exact congrArg upper (firstWord_skip (List.forall_mem_singleton.mpr hletter) _)
  -- inside of a literal
  | case7 => cases h
  | case8 word c rest hc ih =>
      obtain rfl := beq_iff_eq.mp hc
      obtain ⟨hrest, hpass⟩ := firstWord_behind (by decide) ['\''] (fun _ => rfl) hblock
      exact (congrArg upper hpass).trans (ih (List.forall_mem_nil _) hrest h)
  | case9 word c rest hc ih =>
      obtain ⟨hrest, hpass⟩ := firstWord_behind (by decide) [c]
        (Regions.scan_text_char fun heq => hc (beq_iff_eq.mpr heq)) hblock
      exact (congrArg upper hpass).trans (ih trivial hrest h)
  -- inside of a quoted name, which is a word of its own but no bare one
  | case10 word =>
      rw [bareWord_finish hholds] at h
      cases h
  | case11 word c rest hc ih =>
      have hlast : (c :: word).getLast? = some '"' := by
        rw [List.getLast?_cons, hholds]
        rfl
      rw [List.filterMap_append, bareWord_finish hlast, List.nil_append] at h
      obtain rfl := beq_iff_eq.mp hc
      obtain ⟨hrest, hpass⟩ := firstWord_behind (by decide) ['"'] (fun _ => rfl) hblock
      exact (congrArg upper hpass).trans (ih (List.forall_mem_nil _) hrest h)
  | case12 word c rest hc ih =>
      have hlast : (c :: word).getLast? = some '"' := by
        rw [List.getLast?_cons, hholds]
        rfl
      obtain ⟨hrest, hpass⟩ := firstWord_behind (by decide) [c]
        (Regions.scan_quoted_char fun heq => hc (beq_iff_eq.mpr heq)) hblock
      exact (congrArg upper hpass).trans (ih hlast hrest h)
  -- inside of a line comment
  | case13 => cases h
  | case14 word c rest hc ih =>
      obtain rfl := beq_iff_eq.mp hc
      obtain ⟨hrest, hpass⟩ := firstWord_behind (by decide) ['\n'] (fun _ => rfl) hblock
      exact (congrArg upper hpass).trans (ih (List.forall_mem_nil _) hrest h)
  | case15 word c rest hc ih =>
      obtain ⟨hrest, hpass⟩ := firstWord_behind (by decide) [c]
        (Regions.scan_line_char fun heq => hc (beq_iff_eq.mpr heq)) hblock
      exact (congrArg upper hpass).trans (ih trivial hrest h)

/-- Without block comments, the first word of a text that is classified names its kind. -/
theorem leadingWord_of_classify {sql : String} {k : StatementKind} (h : classify sql = .ok k)
    (hblock : ¬HasBlockComment sql) : leadingWord sql = k.word := by
  have hfirst : (upperWords sql).headD "" = k.word := by
    unfold classify at h
    dsimp only at h
    split at h
    · next j hfind =>
        have hword := List.find?_some hfind
        exact Except.ok.inj h ▸ (beq_iff_eq.mp hword).symm
    · exact nomatch h
  have hhead : (upperWords sql).head? = some k.word := by
    cases hwords : upperWords sql with
    | nil =>
        rw [hwords] at hfirst
        cases k <;> exact nomatch hfirst
    | cons w ws =>
        rw [hwords] at hfirst
        exact congrArg some hfirst
  exact firstWord_scan .bare [] sql.toList nofun hblock hhead

/-- A text of one statement, without block comments, is of the kind that its first word
    names. -/
theorem admissible_of_classify {sql : String} {k : StatementKind} (h : classify sql = .ok k)
    (hblock : ¬HasBlockComment sql) (hone : (firstKeywords sql).length ≤ 1) :
    Admissible sql :=
  admissible_iff.mpr ⟨k, firstKeywords_of_leadingWord hone (leadingWord_of_classify h hblock)⟩

end QueryReplay.Sql
