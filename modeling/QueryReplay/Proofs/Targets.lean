import QueryReplay.Proofs.Statements

/-! # Targets — the table that a data-modifying statement names

    The table is the word behind INTO, UPDATE or FROM in the words of the text.
    The scan for them does not know block comments, so what stands in front of
    the name decides whether it is found: exactly when the scan begins anew
    behind it and has found the word that the table follows last, and no sooner
    (`targetTable_iff`).  Without block comments it has (`Opening.recovers`). -/

namespace QueryReplay.Sql

open QueryReplay.Text (isBlank sameLetters)
open Lexer (Gap isGapBlank isWordStart)

/-! ## How such a statement begins -/

/-- The words that a data-modifying statement begins with. -/
def StatementKind.opening : StatementKind → List String
  | select => []
  | insert => ["INSERT", "INTO"]
  | update => ["UPDATE"]
  | delete => ["DELETE", "FROM"]

/-- The words in any letter case, each with blanks and comments behind it. -/
inductive Opening : List String → List (List Char) → List Char → Prop
  | nil : Opening [] [] []
  | cons {k : String} {ks : List String} {w g cs : List Char} {gaps : List (List Char)}
      (hword : sameLetters k (String.ofList w) = true) (hgap : Gap false g) (hne : g ≠ []) :
      Opening ks gaps cs → Opening (k :: ks) (g :: gaps) (w ++ (g ++ cs))

/-- A name as it is written: bare, or in double quotes. -/
inductive Named : List Char → String → Prop
  | bare {c : Char} {cs : List Char} (hstart : isWordStart c = true)
      (hrest : ∀ d ∈ cs, Lexer.isWordChar d = true) : Named (c :: cs) (String.ofList (c :: cs))
  | quoted {body : List Char} (h : ∀ c ∈ body, c ≠ '"') :
      Named ('"' :: (body ++ ['"'])) (String.ofList body)

/-- What may stand right behind the name: nothing, a blank or an opening parenthesis. -/
def EndsName (cs : List Char) : Prop := ∀ c ∈ cs.head?, isBlank c = true ∨ c = '('

namespace Words

/-! ## Where the scan begins anew -/

/-- Behind the text the words are looked for as at the beginning of one, and in
    it they are these. -/
def Restarts (cs : List Char) (words : List String) : Prop :=
  ∀ rest, scan .bare [] (cs ++ rest) = words ++ scan .bare [] rest

theorem Restarts.nil : Restarts [] [] := fun _ => rfl

theorem Restarts.append {cs ds : List Char} {ws vs : List String} (hcs : Restarts cs ws)
    (hds : Restarts ds vs) : Restarts (cs ++ ds) (ws ++ vs) := by
  intro rest
  rw [List.append_assoc, hcs, hds, List.append_assoc]

/-- A character that ends a word and begins nothing. -/
def IsBreak (c : Char) : Prop := isWordChar c = false ∧ c ≠ '\'' ∧ c ≠ '"' ∧ c ≠ '-'

theorem IsBreak.scan_bare {c : Char} (h : IsBreak c) (word rest : List Char) :
    scan .bare word (c :: rest) = finish word ++ scan .bare [] rest :=
  scan_break h.2.1 h.2.2.1 (fun _ heq => h.2.2.2 (List.cons.inj heq).1) h.1 word

/-- Where the scan stands behind a break: nowhere in a word, or in a text, a
    quoted name or a comment that goes on. -/
inductive Standing (c : Char) : Region → List Char → Prop
  | bare : Standing c .bare []
  | text : Standing c .text []
  | quoted {word : List Char} (h : c ∈ word) : Standing c .quoted word
  | comment : Standing c .comment []

/-- A break is read where the scan stands, and it stands somewhere behind it. -/
theorem scan_at_break {c : Char} (hc : IsBreak c) (r : Region) (word : List Char) :
    ∃ words r' word', Standing c r' word'
      ∧ ∀ rest, scan r word (c :: rest) = words ++ scan r' word' rest := by
  cases r with
  | bare => exact ⟨finish word, .bare, [], .bare, fun rest => hc.scan_bare word rest⟩
  | text =>
      refine ⟨[], .text, [], .text, fun rest => ?_⟩
      exact if_neg (ne_true_of_eq_false (beq_false_of_ne hc.2.1))
  | quoted =>
      refine ⟨[], .quoted, c :: word, .quoted List.mem_cons_self, fun rest => ?_⟩
      exact if_neg (ne_true_of_eq_false (beq_false_of_ne hc.2.2.1))
  | comment =>
      by_cases hline : c = '\n'
      · exact ⟨[], .bare, [], .bare, fun rest => if_pos (beq_iff_eq.mpr hline)⟩
      · refine ⟨[], .comment, [], .comment, fun rest => ?_⟩
        exact if_neg (ne_true_of_eq_false (beq_false_of_ne hline))

/-- In front of a break, a character is read in one way whatever is behind the
    break. -/
theorem scan_step {c : Char} (hc : IsBreak c) (d : Char) (cs : List Char) (r : Region)
    (word : List Char) : ∃ words r' word', ∀ rest,
      scan r word (d :: (cs ++ c :: rest)) = words ++ scan r' word' (cs ++ c :: rest) := by
  -- One character in front changes what is open and adds finished words, whatever is behind the
  -- break: only two dashes look further, and the break is none.
  cases r with
  | bare =>
      by_cases hmark : d = '\''
      · exact ⟨finish word, .text, [], fun rest => by rw [hmark, scan_openText]⟩
      by_cases hquote : d = '"'
      · exact ⟨finish word, .quoted, ['"'], fun rest => by rw [hquote, scan_openQuoted]⟩
      by_cases hline : d = '-' ∧ ∃ more, cs = '-' :: more
      · -- the second dash may be read as the first character of the comment
        obtain ⟨rfl, more, rfl⟩ := hline
        refine ⟨finish word, .comment, [], fun rest => ?_⟩
        rw [List.cons_append, scan_openComment, scan_comment_char (by decide)]
      have hplain : ∀ rest more, d :: (cs ++ c :: rest) ≠ '-' :: '-' :: more := by
        intro rest more heq
        obtain ⟨rfl, hbehind⟩ := List.cons.inj heq
        cases cs with
        | nil => exact hc.2.2.2 (List.cons.inj hbehind).1
        | cons e cs => exact hline ⟨rfl, cs, by rw [(List.cons.inj hbehind).1]⟩
      by_cases hword : isWordChar d = true
      · refine ⟨[], .bare, d :: word, fun rest => ?_⟩
        rw [Words.scan_bare hmark hquote (hplain rest), if_pos hword, List.nil_append]
      · refine ⟨finish word, .bare, [], fun rest => ?_⟩
        rw [Words.scan_bare hmark hquote (hplain rest), if_neg hword]
  | text =>
      by_cases hmark : d = '\''
      · exact ⟨[], .bare, [], fun rest => if_pos (beq_iff_eq.mpr hmark)⟩
      · refine ⟨[], .text, [], fun rest => ?_⟩
        exact if_neg (ne_true_of_eq_false (beq_false_of_ne hmark))
  | quoted =>
      by_cases hquote : d = '"'
      · exact ⟨finish (d :: word), .bare, [], fun rest => if_pos (beq_iff_eq.mpr hquote)⟩
      · refine ⟨[], .quoted, d :: word, fun rest => ?_⟩
        exact if_neg (ne_true_of_eq_false (beq_false_of_ne hquote))
  | comment =>
      by_cases hline : d = '\n'
      · exact ⟨[], .bare, [], fun rest => if_pos (beq_iff_eq.mpr hline)⟩
      · refine ⟨[], .comment, [], fun rest => ?_⟩
        exact if_neg (ne_true_of_eq_false (beq_false_of_ne hline))

/-- Whatever text the scan reads, behind a break it stands somewhere, and goes on
    from there. -/
theorem scan_through {c : Char} (hc : IsBreak c) (cs : List Char) (r : Region) (word : List Char) :
    ∃ words r' word', Standing c r' word'
      ∧ ∀ rest, scan r word (cs ++ c :: rest) = words ++ scan r' word' rest := by
  induction cs generalizing r word with
  | nil => exact scan_at_break hc r word
  | cons d cs ih =>
      obtain ⟨front, r', word', hstep⟩ := scan_step hc d cs r word
      obtain ⟨words, r'', word'', hstanding, hmore⟩ := ih r' word'
      refine ⟨front ++ words, r'', word'', hstanding, fun rest => ?_⟩
      rw [List.cons_append, hstep, hmore, List.append_assoc]

theorem isBreak_blank {c : Char} (h : isGapBlank c = true) : IsBreak c := by
  simp only [isGapBlank, Bool.or_eq_true, beq_iff_eq] at h
  rcases h with ((rfl | rfl) | rfl) | rfl <;>
    exact ⟨isWordChar_mark (by decide), by decide, by decide, by decide⟩

/-- A gap that is closed ends in a blank or with a block comment. -/
theorem Gap.ends_break {g : List Char} (h : Gap false g) (hne : g ≠ []) :
    ∃ front c, g = front ++ [c] ∧ IsBreak c := by
  generalize ho : false = o at h
  -- what ends in a break does so with something in front of it
  have hbehind : ∀ {g more : List Char}, (g ≠ [] → ∃ front c, g = front ++ [c] ∧ IsBreak c) →
      (∃ front c, more = front ++ [c] ∧ IsBreak c) →
      ∃ front c, more ++ g = front ++ [c] ∧ IsBreak c := by
    rintro g more hg ⟨front, c, rfl, hc⟩
    by_cases hnil : g = []
    · exact ⟨front, c, by rw [hnil, List.append_nil], hc⟩
    · obtain ⟨front', c', rfl, hc'⟩ := hg hnil
      exact ⟨front ++ [c] ++ front', c', by simp, hc'⟩
  induction h with
  | nil => exact absurd rfl hne
  | blank hc _ ih => exact hbehind (fun hne => ih hne ho) ⟨[], _, rfl, isBreak_blank hc⟩
  | @line o body g _ _ ih =>
      have hline := hbehind (fun hne => ih hne ho)
        ⟨'-' :: '-' :: body, '\n', rfl, isBreak_blank (by decide)⟩
      rw [show ('-' :: '-' :: body ++ ['\n']) ++ g = '-' :: '-' :: (body ++ '\n' :: g) by simp] at hline
      exact hline
  | @block o body g hbody _ ih =>
      obtain ⟨front, rfl⟩ := hbody.ends
      have hslash : IsBreak '/' := ⟨isWordChar_mark (by decide), by decide, by decide, by decide⟩
      exact hbehind (fun hne => ih hne ho) ⟨'/' :: '*' :: front, '/', rfl, hslash⟩
  | last _ => exact nomatch ho

/-- A word with a gap behind it that holds no block comment. -/
theorem restarts_word {w g : List Char} (hw : ∀ c ∈ w, isWordChar c = true) (hne : w ≠ [])
    (hgap : Gap false g) (hgapNe : g ≠ []) (hblock : holdsBlock false g = false) :
    Restarts (w ++ g) [String.ofList w] := by
  intro rest
  rw [List.append_assoc, scan_word hw, List.append_nil, scan_gap hgap hblock nofun,
    if_neg (by simpa using hgapNe), finish_reverse hne]

end Words

/-! ## The words in front of the name -/

theorem letters_of_sameLetters {k w : String} (h : sameLetters k w = true)
    (hk : Words.Letters k.toList) : Words.Letters w.toList := by
  intro c hc
  have hlower : c.toLower ∈ k.toList.map Char.toLower := by
    rw [Text.sameLetters_iff.mp h]
    exact List.mem_map_of_mem hc
  obtain ⟨d, hd, heq⟩ := List.mem_map.mp hlower
  rw [← Char.isAlpha_toLower_eq_isAlpha, ← heq, Char.isAlpha_toLower_eq_isAlpha]
  exact hk d hd

namespace Opening

variable {ks : List String} {gaps : List (List Char)} {cs : List Char} (h : Opening ks gaps cs)
include h

/-- Unless it is empty, it ends in a break. -/
theorem ends_break (hne : ks ≠ []) : ∃ front c, cs = front ++ [c] ∧ Words.IsBreak c := by
  induction h with
  | nil => exact absurd rfl hne
  | @cons k ks w g cs gaps _ hgap hgapNe hmore ih =>
      by_cases hnil : ks = []
      · subst hnil
        cases hmore with
        | nil =>
            obtain ⟨front, c, rfl, hc⟩ := Words.Gap.ends_break hgap hgapNe
            exact ⟨w ++ front, c, by simp, hc⟩
      · obtain ⟨front, c, rfl, hc⟩ := ih hnil
        exact ⟨w ++ (g ++ front), c, by simp, hc⟩

/-- Without block comments its words are those that it is written with. -/
theorem restarts (hletters : ∀ k ∈ ks, k.toList ≠ [] ∧ Words.Letters k.toList)
    (hblock : ∀ g ∈ gaps, holdsBlock false g = false) :
    ∃ ws, Words.Restarts cs ws ∧ List.Forall₂ (fun w k => sameLetters k w = true) ws ks := by
  induction h with
  | nil => exact ⟨[], .nil, .nil⟩
  | @cons k ks w g cs gaps hword hgap hgapNe _ ih =>
      obtain ⟨hk, hks⟩ := List.forall_mem_cons.mp hletters
      obtain ⟨hg, hgaps⟩ := List.forall_mem_cons.mp hblock
      obtain ⟨ws, hrestarts, hsame⟩ := ih hks hgaps
      have hw : Words.Letters w := by
        have hw := letters_of_sameLetters hword hk.2
        rwa [String.toList_ofList] at hw
      have hne : w ≠ [] := by
        rintro rfl
        have hlength := congrArg List.length (Text.sameLetters_iff.mp hword)
        rw [String.toList_ofList, List.map_nil, List.length_map, List.length_nil] at hlength
        exact hk.1 (List.length_eq_zero_iff.mp hlength)
      have hchars : ∀ c ∈ w, Words.isWordChar c = true := by
        intro c hc
        refine Words.isWordChar_of_lexer (Lexer.isWordChar_of_isWordStart ?_)
        rw [isWordStart, hw c hc, Bool.true_or]
      refine ⟨String.ofList w :: ws, ?_, .cons hword hsame⟩
      have hone := (Words.restarts_word hchars hne hgap hgapNe hg).append hrestarts
      rw [List.append_assoc] at hone
      exact hone

end Opening

/-! ## Names -/

theorem Named.unquoted {written : List Char} {name : String} (h : Named written name) :
    unquoted (String.ofList written) = name := by
  cases h with
  | bare hstart hrest =>
      refine unquoted_plain (List.forall_mem_cons.mpr ⟨?_, fun d hd => ?_⟩)
      · exact (Regions.wordChar_bare (Lexer.isWordChar_of_isWordStart hstart)).2.1
      · exact (Regions.wordChar_bare (hrest d hd)).2.1
  | quoted hbody => exact unquoted_inQuotes hbody

/-- A name is the first word that is found where it begins. -/
theorem Named.scan {written rest : List Char} {name : String} (h : Named written name)
    (hends : EndsName rest) :
    ∃ more, Words.scan .bare [] (written ++ rest) = String.ofList written :: more := by
  cases h with
  | @bare c cs hstart hrest =>
      have hchars : ∀ d ∈ c :: cs, Words.isWordChar d = true :=
        List.forall_mem_cons.mpr
          ⟨Words.isWordChar_of_lexer (Lexer.isWordChar_of_isWordStart hstart),
            fun d hd => Words.isWordChar_of_lexer (hrest d hd)⟩
      rw [Words.scan_word hchars, List.append_nil]
      cases rest with
      | nil =>
          rw [Words.scan_nil, Words.finish_reverse (List.cons_ne_nil c cs)]
          exact ⟨[], rfl⟩
      | cons d rest =>
          have hbreak : Words.IsBreak d := by
            rcases hends d rfl with hblank | rfl
            · have hne : ∀ {e : Char}, isBlank e = false → d ≠ e := by
                rintro e he rfl
                exact nomatch he.symm.trans hblank
              refine ⟨?_, hne (by decide), hne (by decide), hne (by decide)⟩
              have hunder : (d == '_') = false := beq_false_of_ne (hne (by decide))
              have hpoint : (d == '.') = false := beq_false_of_ne (hne (by decide))
              rw [Words.isWordChar, isAlphanumeric_of_isBlank hblank, hunder, hpoint]
              rfl
            · exact ⟨Words.isWordChar_mark (by decide), by decide, by decide, by decide⟩
          rw [hbreak.scan_bare, Words.finish_reverse (List.cons_ne_nil c cs)]
          exact ⟨_, rfl⟩
  | @quoted body hbody =>
      rw [List.cons_append, Words.scan_openQuoted, List.append_assoc, List.singleton_append,
        Words.scan_quoted hbody, Words.finish_cons]
      exact ⟨Words.scan .bare [] rest, by simp [Words.finish_nil]⟩

/-! ## The word behind another one -/

section WordAfter

variable {p : String → Bool} {front : List String}

/-- Words are searched through, or one of them is the first that is looked for. -/
theorem words_split (p : String → Bool) (ws : List String) : (∀ w ∈ ws, p w = false)
    ∨ ∃ front w back, ws = front ++ w :: back ∧ (∀ x ∈ front, p x = false) ∧ p w = true := by
  induction ws with
  | nil => exact .inl fun _ h => nomatch h
  | cons w ws ih =>
      cases hw : p w with
      | true => exact .inr ⟨[], w, ws, rfl, fun _ h => (nomatch h), hw⟩
      | false =>
          rcases ih with hnone | ⟨front, v, back, rfl, hfront, hv⟩
          · exact .inl (List.forall_mem_cons.mpr ⟨hw, hnone⟩)
          · exact .inr ⟨w :: front, v, back, rfl, List.forall_mem_cons.mpr ⟨hw, hfront⟩, hv⟩

theorem wordAfter_skip (hfront : ∀ x ∈ front, p x = false) (ws : List String) :
    wordAfter? p (front ++ ws) = wordAfter? p ws := by
  rw [wordAfter?, wordAfter?, List.dropWhile_append_of_pos fun x hx => by simp [hfront x hx]]

/-- A single word stands behind none. -/
theorem wordAfter_single {ws : List String} (h : ws.length ≤ 1) : wordAfter? p ws = none := by
  match ws, h with
  | [], _ => rfl
  | [w], _ =>
      rw [wordAfter?]
      cases hw : p w with
      | true => rw [List.dropWhile_cons_of_neg (by simp [hw])]
      | false => rw [List.dropWhile_cons_of_pos (by simp [hw])]; rfl

/-- Behind the word that is looked for stands the next one. -/
theorem wordAfter_found (hfront : ∀ x ∈ front, p x = false) {w : String} (hw : p w = true)
    (ws : List String) : wordAfter? p (front ++ w :: ws) = ws.head? := by
  cases ws with
  | nil => rw [wordAfter_skip hfront, wordAfter_single (show [w].length ≤ 1 from Nat.le_refl 1), List.head?_nil]
  | cons next ws => exact wordAfter_append hfront hw

end WordAfter

/-! ## Targets -/

/-- The table is found behind the text, however its name is written and whatever
    stands behind it. -/
def Recovers (kind : StatementKind) (front : List Char) : Prop :=
  ∀ (written rest : List Char) (name : String), Named written name → EndsName rest →
    targetTable? (String.ofList (front ++ (written ++ rest))) kind = some name

section Targets

variable {kind : StatementKind} {word : String} (hkind : kind.targetWord? = some word)
include hkind

theorem targetTable_eq (cs : List Char) : targetTable? (String.ofList cs) kind
    = (wordAfter? (sameLetters word) (Words.scan .bare [] cs)).map unquoted := by
  rw [targetTable?, hkind, writtenWords, String.toList_ofList]
  show (wordAfter? (sameLetters word) (Words.scan .bare [] cs)).bind (fun next => some (unquoted next))
    = _
  cases wordAfter? (sameLetters word) (Words.scan .bare [] cs) <;> rfl

/-- The table is found where the scan begins anew behind the word that it follows,
    the first and the last of its kind. -/
theorem recovers_of_restarts {cs : List Char} {front : List String} {w : String}
    (hrestarts : Words.Restarts cs (front ++ [w])) (hw : sameLetters word w = true)
    (hfront : ∀ x ∈ front, sameLetters word x = false) : Recovers kind cs := by
  intro written rest name hnamed hends
  obtain ⟨more, hscan⟩ := hnamed.scan hends
  rw [targetTable_eq hkind, hrestarts, hscan, List.append_assoc, List.singleton_append,
    wordAfter_found hfront hw, List.head?_cons, Option.map_some, hnamed.unquoted]

/-- Nowhere else it is found behind a break. -/
theorem restarts_of_recovers {cs : List Char} {c : Char} (hc : Words.IsBreak c)
    (h : Recovers kind (cs ++ [c])) :
    ∃ front w, Words.Restarts (cs ++ [c]) (front ++ [w]) ∧ sameLetters word w = true
      ∧ ∀ x ∈ front, sameLetters word x = false := by
  obtain ⟨words, r, open', hstanding, hscan⟩ := Words.scan_through hc cs .bare []
  -- two names tell what is found behind the text from what is found in it
  have hfound : ∀ n : Char, isWordStart n = true →
      (wordAfter? (sameLetters word) (words ++ Words.scan r open' [n])).map unquoted
        = some (String.ofList [n]) := by
    intro n hn
    have hread := h [n] [] (String.ofList [n]) (.bare hn nofun) nofun
    rw [targetTable_eq hkind, List.append_nil, List.append_assoc, List.singleton_append,
      hscan] at hread
    exact hread
  have hlen : (Words.scan r open' ['a']).length ≤ 1 := by
    cases hstanding with
    | quoted _ => exact Nat.le_refl 1
    | _ => decide
  rcases words_split (sameLetters word) words with hnone | ⟨front, w, back, rfl, hfront, hw⟩
  · have hread := hfound 'a' rfl
    rw [wordAfter_skip hnone, wordAfter_single hlen] at hread
    exact nomatch hread
  cases back with
  | cons next back =>
      have ha := hfound 'a' rfl
      have hb := hfound 'b' rfl
      rw [List.append_assoc, List.cons_append, wordAfter_found hfront hw] at ha hb
      exact absurd (ha.symm.trans hb) (by decide)
  | nil =>
      have hread := hfound 'a' rfl
      rw [List.append_assoc, List.singleton_append, wordAfter_found hfront hw] at hread
      cases hstanding with
      | bare =>
          refine ⟨front, w, fun rest => ?_, hw, hfront⟩
          rw [List.append_assoc, List.singleton_append, hscan]
      | text => exact nomatch hread
      | comment => exact nomatch hread
      | quoted hmem =>
          -- the name goes on with the open one, which holds the break
          have hname : unquoted (String.ofList ('a' :: open').reverse) = String.ofList ['a'] :=
            Option.some.inj hread
          have hin := mem_unquoted (List.mem_reverse.mpr (List.mem_cons_of_mem 'a' hmem)) hc.2.2.1
          rw [hname, String.toList_ofList] at hin
          have hword := hc.1
          rw [List.mem_singleton.mp hin] at hword
          exact nomatch hword

/-- The word that the table follows is the last one of the opening. -/
theorem StatementKind.opening_eq :
    ∃ ks, kind.opening = ks ++ [word] ∧ ∀ k ∈ ks, sameLetters word k = false := by
  cases kind with
  | select => exact nomatch hkind
  | insert =>
      obtain rfl := Option.some.inj hkind
      exact ⟨["INSERT"], rfl, by decide⟩
  | update =>
      obtain rfl := Option.some.inj hkind
      exact ⟨[], rfl, by decide⟩
  | delete =>
      obtain rfl := Option.some.inj hkind
      exact ⟨["DELETE"], rfl, by decide⟩

variable {gaps : List (List Char)} {cs : List Char} (h : Opening kind.opening gaps cs)
include h

/-- Without block comments in front of the name the table is found. -/
theorem recovers_of_opening (hblock : ∀ g ∈ gaps, holdsBlock false g = false) :
    Recovers kind cs := by
  -- the words of the opening are found among the words of the text, the last of them where the
  -- table is looked for and not before
  have hletters : ∀ k ∈ kind.opening, k.toList ≠ [] ∧ Words.Letters k.toList := by
    have hall : ∀ k ∈ kind.opening, (!k.toList.isEmpty && k.toList.all Char.isAlpha) = true := by
      cases kind <;> decide
    intro k hk
    obtain ⟨hne, hletters⟩ := Bool.and_eq_true_iff.mp (hall k hk)
    exact ⟨by simpa using hne, List.all_eq_true.mp hletters⟩
  obtain ⟨ws, hrestarts, hws⟩ := h.restarts hletters hblock
  obtain ⟨ks, heq, hks⟩ := StatementKind.opening_eq hkind
  rw [heq] at hws
  obtain ⟨w, hlast, hw⟩ : ∃ w, ws.drop ks.length = [w] ∧ sameLetters word w = true := by
    have hback := List.forall₂_drop_append ws ks [word] hws
    generalize ws.drop ks.length = back at hback
    cases hback with
    | cons hw hnil =>
        cases hnil with
        | nil => exact ⟨_, rfl, hw⟩
  have hfront : ∀ x ∈ ws.take ks.length, sameLetters word x = false := by
    have hsame := List.forall₂_take_append ws ks [word] hws
    generalize ws.take ks.length = front at hsame
    clear heq hws hlast
    induction hsame with
    | nil => exact nofun
    | @cons x k xs ks hx _ ih =>
        obtain ⟨hk, hks⟩ := List.forall_mem_cons.mp hks
        refine List.forall_mem_cons.mpr ⟨Bool.eq_false_iff.mpr fun hsame => ?_, ih hks⟩
        refine Bool.eq_false_iff.mp hk (Text.sameLetters_iff.mpr ?_)
        exact (Text.sameLetters_iff.mp hsame).trans (Text.sameLetters_iff.mp hx).symm
  rw [← List.take_append_drop ks.length ws, hlast] at hrestarts
  exact recovers_of_restarts hkind hrestarts hw hfront

/-- The table is found, however its name is written and whatever stands behind it,
    exactly when the scan begins anew behind the opening and has found the word
    that the table follows once, at the end; so it is without block comments. -/
theorem targetTable_iff :
    (Recovers kind cs ↔ ∃ front w, Words.Restarts cs (front ++ [w]) ∧ sameLetters word w = true
      ∧ ∀ x ∈ front, sameLetters word x = false)
      ∧ ((∀ g ∈ gaps, holdsBlock false g = false) → Recovers kind cs) := by
  refine ⟨⟨fun hrecovers => ?_, ?_⟩, recovers_of_opening hkind h⟩
  · obtain ⟨ks, heq, -⟩ := StatementKind.opening_eq hkind
    obtain ⟨front, c, rfl, hc⟩ := h.ends_break (by rw [heq]; simp)
    exact restarts_of_recovers hkind hc hrecovers
  · rintro ⟨front, w, hrestarts, hw, hfront⟩
    exact recovers_of_restarts hkind hrestarts hw hfront

end Targets

/-- Keywords in both cases, with a line comment that names another table between them. -/
theorem targetTable_iff_lineComment :
    StatementKind.insert.targetWord? = some "INTO"
      ∧ Opening StatementKind.insert.opening [" -- into x\n".toList, ['\t']]
        "insert -- into x\nInTo\t".toList
      ∧ (∀ g ∈ [" -- into x\n".toList, ['\t']], holdsBlock false g = false)
      ∧ Recovers .insert "insert -- into x\nInTo\t".toList
      ∧ targetTable? (String.ofList ("insert -- into x\nInTo\t".toList
        ++ ("\"my table\"".toList ++ "(a)".toList))) .insert = some "my table" := by
  have hopening : Opening StatementKind.insert.opening [" -- into x\n".toList, ['\t']]
      "insert -- into x\nInTo\t".toList := by
    have htext : "insert -- into x\nInTo\t".toList
        = "insert".toList ++ (" -- into x\n".toList ++ ("InTo".toList ++ (['\t'] ++ []))) := by decide
    have hgap : Gap false " -- into x\n".toList := by
      rw [show " -- into x\n".toList = ' ' :: '-' :: '-' :: (" into x".toList ++ ['\n']) by decide]
      exact .blank rfl (.line (by simp) .nil)
    rw [htext]
    exact .cons (by decide) hgap (by simp)
      (.cons (by decide) (.blank rfl .nil) (List.cons_ne_nil _ _) .nil)
  have hblock : ∀ g ∈ [" -- into x\n".toList, ['\t']], holdsBlock false g = false := by decide
  have hrecovers := (targetTable_iff rfl hopening).2 hblock
  have hnamed : Named "\"my table\"".toList "my table" := by
    have hquoted := @Named.quoted "my table".toList (by simp)
    rwa [String.ofList_toList,
      show '"' :: ("my table".toList ++ ['"']) = "\"my table\"".toList by decide] at hquoted
  have hends : EndsName "(a)".toList := by
    rw [show "(a)".toList = '(' :: "a)".toList by decide]
    exact fun _ hc => .inr (Option.some.inj hc).symm
  exact ⟨rfl, hopening, hblock, hrecovers, hrecovers _ _ _ hnamed hends⟩

/-- The first word of a block comment is taken for the table. -/
theorem targetTable_blockComment :
    Opening StatementKind.update.opening [" /* all of it */ ".toList]
        "UPDATE /* all of it */ ".toList
      ∧ Named ['t'] "t" ∧ EndsName " SET a = 1".toList
      ∧ targetTable? "UPDATE /* all of it */ t SET a = 1" .update = some "all" := by
  have hopening : Opening StatementKind.update.opening [" /* all of it */ ".toList]
      "UPDATE /* all of it */ ".toList := by
    have htext : "UPDATE /* all of it */ ".toList
        = "UPDATE".toList ++ (" /* all of it */ ".toList ++ []) := by decide
    have hgap : Gap false " /* all of it */ ".toList := by
      have hblock : Lexer.Block " all of it */".toList :=
        (Lexer.blockEnd_split (show Lexer.blockEnd? " all of it */".toList
          = some (" all of it */".toList, []) by decide)).2
      rw [show " /* all of it */ ".toList = ' ' :: '/' :: '*' :: (" all of it */".toList ++ [' '])
        by decide]
      exact .blank rfl (.block hblock (.blank rfl .nil))
    rw [htext]
    exact .cons (by decide) hgap (by simp) .nil
  exact ⟨hopening, .bare rfl nofun, fun _ hc => .inl (Option.some.inj hc ▸ by decide),
    by decide +kernel⟩

end QueryReplay.Sql
