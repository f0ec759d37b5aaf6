import Mathlib.Data.List.TakeDrop
import Mathlib.Data.List.TakeWhile
import QueryReplay.Sql.Token

/-! # Lexemes — what one token looks like

    A token is read off the front of a text, and how far it reaches depends on
    what stands behind it: `1` goes on before `.5`, a word before a letter, `<`
    before `=`.  Here the shape of a lexeme is told apart from that:

    * `Lexeme` lists the shapes, by class;
    * `joins` tells whether a text behind a lexeme makes it longer;
    * `token_append` and `token_split` say that reading a token is exactly
      finding a lexeme that what is behind it does not join. -/

namespace QueryReplay.Sql.Lexer

/-! ## Character classes -/

/-- A letter is one of these by its code. -/
theorem isAlpha_eq (c : Char) : c.isAlpha = (decide (c.val ≥ 'A'.val ∧ c.val ≤ 'Z'.val)
    || decide (c.val ≥ 'a'.val) && decide (c.val ≤ 'z'.val)) := rfl

/-- No word begins with a digit. -/
theorem isDigit_of_isWordStart {c : Char} (h : isWordStart c = true) : c.isDigit = false := by
  cases hd : c.isDigit with
  | false => rfl
  | true =>
      simp only [isWordStart, isAlpha_eq, Char.isDigit, Bool.or_eq_true, Bool.and_eq_true,
        decide_eq_true_eq, beq_iff_eq] at h hd
      have hupper := UInt32.le_iff_toNat_le.mp hd.2
      rcases h with (h | h) | rfl
      · have hlower := UInt32.le_iff_toNat_le.mp h.1
        simp at hupper hlower
        omega
      · have hlower := UInt32.le_iff_toNat_le.mp h.1
        simp at hupper hlower
        omega
      · exact absurd hd.2 (by decide)

/-- A digit begins no word. -/
theorem isWordStart_of_isDigit {c : Char} (h : c.isDigit = true) : isWordStart c = false := by
  cases hw : isWordStart c with
  | false => rfl
  | true => exact absurd h (by rw [isDigit_of_isWordStart hw]; exact Bool.false_ne_true)

/-- Digits may go on with a word. -/
theorem isWordChar_of_isDigit {c : Char} (h : c.isDigit = true) : isWordChar c = true := by
  rw [isWordChar, Char.isAlphanum, h, Bool.or_true, Bool.true_or]

/-- What begins a word may go on with it. -/
theorem isWordChar_of_isWordStart {c : Char} (h : isWordStart c = true) : isWordChar c = true := by
  rw [isWordStart, Bool.or_eq_true] at h
  rw [isWordChar, Char.isAlphanum]
  rcases h with h | h <;> simp [h]

/-! ## Shapes -/

/-- The rest of a text literal through its closing quote. -/
inductive TextBody : List Char → Prop
  | close : TextBody ['\'']
  | doubled {body : List Char} : TextBody body → TextBody ('\'' :: '\'' :: body)
  | char {c : Char} {body : List Char} (h : c ≠ '\'') : TextBody body → TextBody (c :: body)

/-- Operators and marks with their characters. -/
def symbols : List (Symbol × List Char) :=
  [(.concat, ['|', '|']), (.le, ['<', '=']), (.ge, ['>', '=']), (.ne, ['<', '>']),
    (.ne, ['!', '=']), (.eq, ['=']), (.lt, ['<']), (.gt, ['>']), (.comma, [',']),
    (.semicolon, [';']), (.dot, ['.']), (.openParen, ['(']), (.closeParen, [')']),
    (.star, ['*']), (.slash, ['/']), (.percent, ['%']), (.plus, ['+']), (.minus, ['-'])]

/-- The shapes of tokens. -/
inductive Lexeme : TokenKind → List Char → Prop
  | quoted {body : List Char} (h : ∀ c ∈ body, c ≠ '"') : Lexeme .quoted ('"' :: (body ++ ['"']))
  | text {body : List Char} (h : TextBody body) : Lexeme .text ('\'' :: body)
  | word {c : Char} {rest : List Char} (hstart : isWordStart c = true)
      (hrest : ∀ d ∈ rest, isWordChar d = true) : Lexeme (wordKind (c :: rest)) (c :: rest)
  | whole {d : Char} {digits : List Char} (hd : d.isDigit = true)
      (h : ∀ d ∈ digits, d.isDigit = true) : Lexeme .number (d :: digits)
  | fraction {digits places : List Char} {p : Char} (h : ∀ d ∈ digits, d.isDigit = true)
      (hp : p.isDigit = true) (hplaces : ∀ d ∈ places, d.isDigit = true) :
      Lexeme .number (digits ++ '.' :: p :: places)
  | symbol {s : Symbol} {cs : List Char} (h : (s, cs) ∈ symbols) : Lexeme (.symbol s) cs

/-- Whether what stands behind a number makes it longer. -/
def joinsNumber (lexeme : List Char) : List Char → Bool
  | '.' :: d :: _ => d.isDigit && lexeme.all Char.isDigit
  | d :: _ => d.isDigit
  | [] => false

/-- Whether what stands behind an operator or mark makes it longer. -/
def joinsSymbol : List Char → List Char → Bool
  | ['<'], c :: _ => c == '=' || c == '>'
  | ['>'], c :: _ => c == '='
  | ['.'], c :: _ => c.isDigit
  | _, _ => false

/-- Whether a lexeme becomes longer by what stands behind it. -/
def joins : TokenKind → List Char → List Char → Bool
  | .quoted, _, _ => false
  | .text, _, after => after.head? == some '\''
  | .name, _, after => after.head?.any isWordChar
  | .keyword _, _, after => after.head?.any isWordChar
  | .number, lexeme, after => joinsNumber lexeme after
  | .symbol _, lexeme, after => joinsSymbol lexeme after

/-! ## Reading a lexeme -/

section Runs

variable {p : Char → Bool} {cs after : List Char}

/-- Of a run in front of something else the run is taken. -/
theorem takeWhile_run (h : ∀ c ∈ cs, p c = true) (hafter : after.head?.any p = false) :
    (cs ++ after).takeWhile p = cs := by
  rw [List.takeWhile_append_of_pos h]
  cases after with
  | nil => exact List.append_nil cs
  | cons d after =>
      rw [List.takeWhile_cons_of_neg (by rw [show p d = false from hafter]; exact Bool.false_ne_true)]
      exact List.append_nil cs

/-- What is left is the rest. -/
theorem dropWhile_run (h : ∀ c ∈ cs, p c = true) (hafter : after.head?.any p = false) :
    (cs ++ after).dropWhile p = after := by
  rw [List.dropWhile_append_of_pos h]
  cases after with
  | nil => rfl
  | cons d after =>
      exact List.dropWhile_cons_of_neg (by rw [show p d = false from hafter]; exact Bool.false_ne_true)

/-- What is left does not go on with the run. -/
theorem head_dropWhile : ((cs.dropWhile p).head?.any p) = false := by
  induction cs with
  | nil => rfl
  | cons c cs ih =>
      by_cases hc : p c = true
      · rw [List.dropWhile_cons_of_pos hc]
        exact ih
      · rw [List.dropWhile_cons_of_neg hc]
        exact Bool.eq_false_iff.mpr hc

end Runs

/-- Behind a quote the next quote is looked for. -/
theorem token_quoted (rest : List Char) :
    token? ('"' :: rest) = match rest.dropWhile (· != '"') with
      | [] => none
      | _ :: after => some (.quoted, '"' :: rest.takeWhile (· != '"') ++ ['"'], after) := rfl

/-- Behind a mark the end of the text is looked for. -/
theorem token_text (rest : List Char) :
    token? ('\'' :: rest) = (textEnd? rest).map fun (body, rest) => (.text, '\'' :: body, rest) := rfl

/-- Without a quote or mark it is a word, a number or a sign, tried in this order. -/
theorem token_other {c : Char} (hquote : c ≠ '"') (hmark : c ≠ '\'') (cs : List Char) :
    token? (c :: cs) =
      if isWordStart c then
        some (wordKind ((c :: cs).takeWhile isWordChar), (c :: cs).takeWhile isWordChar,
          (c :: cs).dropWhile isWordChar)
      else if startsNumber (c :: cs) then
        some (.number, (number (c :: cs)).1, (number (c :: cs)).2)
      else (symbol? (c :: cs)).map fun (s, lexeme, rest) => (.symbol s, lexeme, rest) := by
  rw [token?]
  · rintro rfl
    exact hquote rfl
  · rintro rfl
    exact hmark rfl

/-- A text literal ends at the first single quote that is not doubled. -/
theorem TextBody.append {body : List Char} (h : TextBody body) {after : List Char}
    (hafter : (after.head? == some '\'') = false) : textEnd? (body ++ after) = some (body, after) := by
  induction h with
  | close =>
      cases after with
      | nil => rfl
      | cons c after =>
          have hc : c ≠ '\'' := by
            rintro rfl
            exact absurd hafter (by simp)
          show textEnd? ('\'' :: c :: after) = some (['\''], c :: after)
          rw [textEnd?]
          · rfl
          · rintro rest - heq
            exact hc (List.cons.inj heq).1
  | doubled _ ih =>
      rw [List.cons_append, List.cons_append, textEnd?, ih]
      rfl
  | char hc _ ih =>
      rw [List.cons_append, textEnd?]
      · rw [if_neg (by simpa using hc), ih]
        rfl
      · rintro rest heq -
        exact hc heq

/-- The end of a text is a mark that no other follows. -/
theorem textEnd_split : ∀ {cs body after : List Char}, textEnd? cs = some (body, after) →
    cs = body ++ after ∧ TextBody body ∧ (after.head? == some '\'') = false := by
  intro cs
  -- at the end, at a doubled quote, at the closing one, at any other character
  induction cs using textEnd?.induct with
  | case1 => intro body after h; exact nomatch h
  | case2 rest ih =>
      intro body after h
      rw [textEnd?] at h
      obtain ⟨⟨body', after'⟩, hbody, heq⟩ := Option.map_eq_some_iff.mp h
      obtain ⟨rfl, rfl⟩ := Prod.mk.inj heq
      obtain ⟨rfl, hread, hafter⟩ := ih hbody
      exact ⟨rfl, .doubled hread, hafter⟩
  | case3 c rest hne hc =>
      intro body after h
      rw [textEnd?, if_pos hc] at h
      · obtain ⟨rfl, rfl⟩ := Prod.mk.inj (Option.some.inj h)
        obtain rfl : c = '\'' := beq_iff_eq.mp hc
        refine ⟨rfl, .close, ?_⟩
        cases rest with
        | nil => rfl
        | cons d rest =>
            refine Bool.eq_false_iff.mpr (fun hd => ?_)
            obtain rfl : d = '\'' := by simpa using hd
            exact hne rest rfl rfl
      · exact hne
  | case4 c rest hne hc ih =>
      intro body after h
      rw [textEnd?, if_neg hc] at h
      · obtain ⟨⟨body', after'⟩, hbody, heq⟩ := Option.map_eq_some_iff.mp h
        obtain ⟨rfl, rfl⟩ := Prod.mk.inj heq
        obtain ⟨rfl, hread, hafter⟩ := ih hbody
        exact ⟨rfl, .char (fun heq => hc (beq_iff_eq.mpr heq)) hread, hafter⟩
      · exact hne

/-! ## Numbers -/

/-- What joins a number joins it by its first character or behind a point. -/
theorem head_of_joinsNumber {lexeme after : List Char} (h : joinsNumber lexeme after = false) :
    after.head?.any Char.isDigit = false := by
  cases after with
  | nil => rfl
  | cons d after =>
      cases hd : d.isDigit with
      | false => exact hd
      | true =>
          unfold joinsNumber at h
          split at h
          · rename_i heq
            obtain ⟨rfl, -⟩ := List.cons.inj heq
            exact absurd hd (by decide)
          · rename_i heq
            obtain ⟨rfl, -⟩ := List.cons.inj heq
            exact absurd h (by rw [hd]; exact fun h => nomatch h)
          · rename_i heq
            exact nomatch heq

/-- A number is digits, and behind a point digits again if there is one at least. -/
theorem number_eq (cs : List Char) :
    number cs = match cs.dropWhile Char.isDigit with
      | '.' :: d :: more =>
        if d.isDigit then
          (cs.takeWhile Char.isDigit ++ '.' :: (d :: more).takeWhile Char.isDigit,
            (d :: more).dropWhile Char.isDigit)
        else (cs.takeWhile Char.isDigit, cs.dropWhile Char.isDigit)
      | _ => (cs.takeWhile Char.isDigit, cs.dropWhile Char.isDigit) := by
  unfold number
  rw [List.span_eq_takeWhile_dropWhile]
  dsimp only
  cases cs.dropWhile Char.isDigit with
  | nil => rfl
  | cons c rest =>
      by_cases hc : c = '.'
      · subst hc
        cases rest with
        | nil => rfl
        | cons d more => simp only [List.span_eq_takeWhile_dropWhile]
      · simp [hc]

/-- Without a digit behind a point the number ends with its digits. -/
theorem number_whole {digits after : List Char} (h : ∀ d ∈ digits, d.isDigit = true)
    (hafter : joinsNumber digits after = false) : number (digits ++ after) = (digits, after) := by
  have hhead := head_of_joinsNumber hafter
  rw [number_eq, takeWhile_run h hhead, dropWhile_run h hhead]
  split
  · rename_i d more
    have hd : d.isDigit = false := by
      have hall : digits.all Char.isDigit = true := List.all_eq_true.mpr h
      rw [joinsNumber, hall, Bool.and_true] at hafter
      exact hafter
    rw [if_neg (by rw [hd]; exact Bool.false_ne_true)]
  · rfl

/-- With one it goes on up to the last of them. -/
theorem number_fraction {digits places after : List Char} {p : Char}
    (h : ∀ d ∈ digits, d.isDigit = true) (hp : p.isDigit = true)
    (hplaces : ∀ d ∈ places, d.isDigit = true)
    (hafter : joinsNumber (digits ++ '.' :: p :: places) after = false) :
    number ((digits ++ '.' :: p :: places) ++ after)
      = (digits ++ '.' :: p :: places, after) := by
  have hhead := head_of_joinsNumber hafter
  have hpplaces : ∀ d ∈ p :: places, d.isDigit = true := by
    intro d hd
    rcases List.mem_cons.mp hd with rfl | hd
    · exact hp
    · exact hplaces d hd
  have hpoint : ('.' :: (p :: places ++ after)).head?.any Char.isDigit = false := rfl
  rw [List.append_assoc, List.cons_append, number_eq, takeWhile_run h hpoint,
    dropWhile_run h hpoint]
  show (if p.isDigit then (digits ++ '.' :: (p :: places ++ after).takeWhile Char.isDigit,
    (p :: places ++ after).dropWhile Char.isDigit) else _) = _
  rw [if_pos hp, takeWhile_run hpplaces hhead, dropWhile_run hpplaces hhead]

/-- A number that begins here has the shape of one, and nothing joins it. -/
theorem number_split {cs : List Char} (h : startsNumber cs = true) :
    cs = (number cs).1 ++ (number cs).2 ∧ Lexeme .number (number cs).1
      ∧ joinsNumber (number cs).1 (number cs).2 = false := by
  have hdigits : ∀ d ∈ cs.takeWhile Char.isDigit, d.isDigit = true :=
    fun d hd => List.mem_takeWhile_imp hd
  have hsplit : cs = cs.takeWhile Char.isDigit ++ cs.dropWhile Char.isDigit :=
    List.takeWhile_append_dropWhile.symm
  have hhead : (cs.dropWhile Char.isDigit).head?.any Char.isDigit = false := head_dropWhile
  -- a number without a fraction begins with a digit
  have hwhole : (∀ d more, cs.dropWhile Char.isDigit = '.' :: d :: more → d.isDigit = false) →
      Lexeme .number (cs.takeWhile Char.isDigit)
        ∧ joinsNumber (cs.takeWhile Char.isDigit) (cs.dropWhile Char.isDigit) = false := by
    intro hpoint
    constructor
    · cases hw : cs.takeWhile Char.isDigit with
      | cons d digits =>
          rw [hw] at hdigits
          exact .whole (hdigits d List.mem_cons_self)
            (fun e he => hdigits e (List.mem_cons_of_mem d he))
      | nil =>
          rw [hw, List.nil_append] at hsplit
          rw [hsplit] at h
          unfold startsNumber at h
          split at h
          · rename_i d more heq
            exact absurd h (by rw [hpoint d more heq]; exact Bool.false_ne_true)
          · rename_i c more _ heq
            rw [heq] at hhead
            exact absurd h (by rw [show c.isDigit = false from hhead]; exact Bool.false_ne_true)
          · exact nomatch h
    · unfold joinsNumber
      split
      · rename_i d more heq
        rw [hpoint d more heq, Bool.false_and]
      · rename_i heq
        rw [heq] at hhead
        exact hhead
      · rfl
  rw [number_eq]
  split
  · rename_i d more heq
    by_cases hd : d.isDigit = true
    · rw [if_pos hd]
      have hplaces : ∀ e ∈ more.takeWhile Char.isDigit, e.isDigit = true :=
        fun e he => List.mem_takeWhile_imp he
      have hrun : (d :: more).takeWhile Char.isDigit = d :: more.takeWhile Char.isDigit :=
        List.takeWhile_cons_of_pos hd
      refine ⟨?_, ?_, ?_⟩
      · rw [List.append_assoc, List.cons_append, List.takeWhile_append_dropWhile, ← heq, ← hsplit]
      · rw [hrun]
        exact .fraction hdigits hd hplaces
      · have hafter : ((d :: more).dropWhile Char.isDigit).head?.any Char.isDigit = false :=
          head_dropWhile
        have hall : (cs.takeWhile Char.isDigit ++ '.' :: (d :: more).takeWhile Char.isDigit).all
            Char.isDigit = false := by
          simp
        unfold joinsNumber
        rw [hall]
        split
        · exact Bool.and_false _
        · rename_i heq'
          rw [show (d :: more).dropWhile Char.isDigit = _ from heq'] at hafter
          exact hafter
        · rfl
    · rw [if_neg hd]
      refine ⟨hsplit, hwhole (fun d' more' heq' => ?_)⟩
      rw [heq] at heq'
      obtain ⟨rfl, -⟩ := List.cons.inj (List.cons.inj heq').2
      exact Bool.eq_false_iff.mpr hd
  · rename_i hne
    exact ⟨hsplit, hwhole fun d more heq => absurd heq (hne d more)⟩

/-! ## Operators and marks -/

/-- By itself it is the short sign. -/
theorem symbol_lt {c : Char} (heq : c ≠ '=') (hgt : c ≠ '>') (rest : List Char) :
    symbol? ('<' :: c :: rest) = some (.lt, ['<'], c :: rest) := by
  simp [symbol?, heq, hgt]

theorem symbol_gt {c : Char} (heq : c ≠ '=') (rest : List Char) :
    symbol? ('>' :: c :: rest) = some (.gt, ['>'], c :: rest) := by
  simp [symbol?, heq]

/-- A sign ends there if what follows does not make it a longer one. -/
theorem symbol_append {s : Symbol} {cs : List Char} (h : (s, cs) ∈ symbols) {after : List Char}
    (hafter : joinsSymbol cs after = false) :
    symbol? (cs ++ after) = some (s, cs, after) := by
  simp only [symbols, List.mem_cons, Prod.mk.injEq, List.not_mem_nil, or_false] at h
  rcases h with ⟨rfl, rfl⟩ | ⟨rfl, rfl⟩ | ⟨rfl, rfl⟩ | ⟨rfl, rfl⟩ | ⟨rfl, rfl⟩ | ⟨rfl, rfl⟩ |
    ⟨rfl, rfl⟩ | ⟨rfl, rfl⟩ | ⟨rfl, rfl⟩ | ⟨rfl, rfl⟩ | ⟨rfl, rfl⟩ | ⟨rfl, rfl⟩ | ⟨rfl, rfl⟩ |
    ⟨rfl, rfl⟩ | ⟨rfl, rfl⟩ | ⟨rfl, rfl⟩ | ⟨rfl, rfl⟩ | ⟨rfl, rfl⟩ <;> try rfl
  · cases after with
    | nil => rfl
    | cons c after =>
        obtain ⟨heq, hgt⟩ : c ≠ '=' ∧ c ≠ '>' := by simpa [joinsSymbol] using hafter
        exact symbol_lt heq hgt after
  · cases after with
    | nil => rfl
    | cons c after =>
        have heq : c ≠ '=' := by simpa [joinsSymbol] using hafter
        exact symbol_gt heq after

/-- The reader finds an operator or mark, the longest one. -/
theorem symbol_split {cs lexeme after : List Char} {s : Symbol}
    (h : symbol? cs = some (s, lexeme, after)) :
    cs = lexeme ++ after ∧ (s, lexeme) ∈ symbols
      ∧ (lexeme ≠ ['.'] → joinsSymbol lexeme after = false) := by
  unfold symbol? at h
  split at h <;> simp only [Option.some.injEq, Prod.mk.injEq, reduceCtorEq] at h
  all_goals
    obtain ⟨rfl, rfl, rfl⟩ := h
    refine ⟨rfl, by simp [symbols], fun hdot => ?_⟩
    first
      | rfl
      | exact absurd rfl hdot
      | skip
  · rename_i rest hle hne
    cases rest with
    | nil => rfl
    | cons c rest =>
        have heq : c ≠ '=' := fun hc => hle rest (by rw [hc])
        have hgt : c ≠ '>' := fun hc => hne rest (by rw [hc])
        simp [joinsSymbol, heq, hgt]
  · rename_i rest hge
    cases rest with
    | nil => rfl
    | cons c rest =>
        have heq : c ≠ '=' := fun hc => hge rest (by rw [hc])
        simp [joinsSymbol, heq]

/-! ## Reading a token -/

/-- What begins a number begins neither a word nor a quotation. -/
theorem startsNumber_head {c : Char} {cs : List Char} (h : startsNumber (c :: cs) = true) :
    c ≠ '"' ∧ c ≠ '\'' ∧ isWordStart c = false := by
  have hc : c = '.' ∨ c.isDigit = true := by
    unfold startsNumber at h
    split at h
    · rename_i heq
      exact Or.inl (List.cons.inj heq).1
    · rename_i heq
      obtain ⟨rfl, -⟩ := List.cons.inj heq
      exact Or.inr h
    · exact nomatch h
  rcases hc with rfl | hd
  · exact ⟨by decide, by decide, rfl⟩
  · refine ⟨?_, ?_, isWordStart_of_isDigit hd⟩ <;> rintro rfl <;> exact absurd hd (by decide)

/-- Digits, or a point in front of one, begin a number. -/
theorem token_number {cs : List Char} (h : startsNumber cs = true) :
    token? cs = some (.number, (number cs).1, (number cs).2) := by
  cases cs with
  | nil => exact nomatch h
  | cons c cs =>
      obtain ⟨hquote, hmark, hword⟩ := startsNumber_head h
      rw [token_other hquote hmark, if_neg (by rw [hword]; exact Bool.false_ne_true), if_pos h]

/-- A word goes on as long as its characters do. -/
theorem token_word {c : Char} (h : isWordStart c = true) (cs : List Char) :
    token? (c :: cs) = some (wordKind ((c :: cs).takeWhile isWordChar),
      (c :: cs).takeWhile isWordChar, (c :: cs).dropWhile isWordChar) := by
  have hquote : c ≠ '"' := by
    rintro rfl
    exact absurd h (by decide)
  have hmark : c ≠ '\'' := by
    rintro rfl
    exact absurd h (by decide)
  rw [token_other hquote hmark, if_pos h]

/-- A number begins where digits stand, or a point before one. -/
theorem startsNumber_of_digit {d : Char} (hd : d.isDigit = true) (cs : List Char) :
    startsNumber (d :: cs) = true := by
  unfold startsNumber
  split
  · rename_i heq
    obtain ⟨rfl, -⟩ := List.cons.inj heq
    exact absurd hd (by decide)
  · rename_i heq
    obtain ⟨rfl, -⟩ := List.cons.inj heq
    exact hd
  · rename_i heq
    exact nomatch heq

/-- An operator or mark begins neither a word nor a quotation, and no number
    unless it is a point that a digit joins. -/
theorem symbol_starts {s : Symbol} {cs : List Char} (h : (s, cs) ∈ symbols) {after : List Char}
    (hafter : joinsSymbol cs after = false) :
    ∃ c rest, cs = c :: rest ∧ c ≠ '"' ∧ c ≠ '\'' ∧ isWordStart c = false
      ∧ startsNumber (cs ++ after) = false := by
  have hpoint : joinsSymbol ['.'] after = false → startsNumber ('.' :: after) = false := by
    intro hjoin
    cases after with
    | nil => rfl
    | cons d after => exact hjoin
  simp only [symbols, List.mem_cons, Prod.mk.injEq, List.not_mem_nil, or_false] at h
  rcases h with ⟨rfl, rfl⟩ | ⟨rfl, rfl⟩ | ⟨rfl, rfl⟩ | ⟨rfl, rfl⟩ | ⟨rfl, rfl⟩ | ⟨rfl, rfl⟩ |
    ⟨rfl, rfl⟩ | ⟨rfl, rfl⟩ | ⟨rfl, rfl⟩ | ⟨rfl, rfl⟩ | ⟨rfl, rfl⟩ | ⟨rfl, rfl⟩ | ⟨rfl, rfl⟩ |
    ⟨rfl, rfl⟩ | ⟨rfl, rfl⟩ | ⟨rfl, rfl⟩ | ⟨rfl, rfl⟩ | ⟨rfl, rfl⟩
  all_goals
    refine ⟨_, _, rfl, by decide, by decide, by decide, ?_⟩
    first
      | rfl
      | exact hpoint hafter

/-- A lexeme is read as it is when nothing behind it joins it. -/
theorem token_append {k : TokenKind} {lexeme after : List Char} (h : Lexeme k lexeme)
    (hafter : joins k lexeme after = false) : token? (lexeme ++ after) = some (k, lexeme, after) := by
  -- each kind of lexeme begins with what its branch of the scanner asks for, and what is behind
  -- does not go on with it
  cases h with
  | quoted hbody =>
      rename_i body
      have hrun : ∀ c ∈ body, (c != '"') = true := fun c hc => bne_iff_ne.mpr (hbody c hc)
      have hquote : ('"' :: after).head?.any (· != '"') = false := rfl
      rw [List.cons_append, List.append_assoc, token_quoted, List.singleton_append,
        dropWhile_run hrun hquote, takeWhile_run hrun hquote]
      rfl
  | text hbody =>
      rw [List.cons_append, token_text, hbody.append hafter]
      rfl
  | word hstart hrest =>
      rename_i c rest
      have hrun : ∀ d ∈ c :: rest, isWordChar d = true := by
        intro d hd
        rcases List.mem_cons.mp hd with rfl | hd
        · exact isWordChar_of_isWordStart hstart
        · exact hrest d hd
      have hhead : after.head?.any isWordChar = false := by
        unfold wordKind at hafter
        split at hafter <;> exact hafter
      rw [List.cons_append, token_word hstart, ← List.cons_append, takeWhile_run hrun hhead,
        dropWhile_run hrun hhead]
  | whole hd hdigits =>
      rename_i d digits
      have hrun : ∀ e ∈ d :: digits, e.isDigit = true := by
        intro e he
        rcases List.mem_cons.mp he with rfl | he
        · exact hd
        · exact hdigits e he
      have hstarts : startsNumber (d :: digits ++ after) = true := startsNumber_of_digit hd _
      rw [token_number hstarts, number_whole hrun hafter]
  | fraction hdigits hp hplaces =>
      rename_i digits places p
      have hstarts : startsNumber ((digits ++ '.' :: p :: places) ++ after) = true := by
        cases digits with
        | nil => exact hp
        | cons d digits => exact startsNumber_of_digit (hdigits d List.mem_cons_self) _
      rw [token_number hstarts, number_fraction hdigits hp hplaces hafter]
  | symbol hs =>
      obtain ⟨c, rest, rfl, hquote, hmark, hword, hnumber⟩ := symbol_starts hs hafter
      have hread := symbol_append hs hafter
      rw [List.cons_append] at hread hnumber ⊢
      rw [token_other hquote hmark, if_neg (by rw [hword]; exact Bool.false_ne_true),
        if_neg (by rw [hnumber]; exact Bool.false_ne_true), hread]
      rfl

/-- What is read is a lexeme that nothing behind it joins. -/
theorem token_split {cs lexeme after : List Char} {k : TokenKind}
    (h : token? cs = some (k, lexeme, after)) :
    cs = lexeme ++ after ∧ Lexeme k lexeme ∧ joins k lexeme after = false := by
  cases cs with
  | nil => exact nomatch h
  | cons c rest =>
      -- in the order in which the scanner tries: a quoted name, a literal, a word, a number, a
      -- symbol
      by_cases hquote : c = '"'
      · subst hquote
        rw [token_quoted] at h
        split at h
        · exact nomatch h
        · rename_i d after' hdrop
          obtain ⟨rfl, heq⟩ := Prod.mk.inj (Option.some.inj h)
          obtain ⟨rfl, rfl⟩ := Prod.mk.inj heq
          have hd : d = '"' := by
            have hhead := @head_dropWhile (· != '"') rest
            rw [hdrop] at hhead
            simpa using hhead
          refine ⟨?_, .quoted fun e he => ?_, rfl⟩
          case refine_2 => exact bne_iff_ne.mp (List.mem_takeWhile_imp (p := (· != '"')) he)
          have hsplit := (List.takeWhile_append_dropWhile (p := (· != '"')) (l := rest)).symm
          rw [hdrop, hd] at hsplit
          rw [List.cons_append, List.cons_append, List.append_assoc, List.singleton_append, ← hsplit]
      by_cases hmark : c = '\''
      · subst hmark
        rw [token_text] at h
        obtain ⟨⟨body, after'⟩, hbody, heq⟩ := Option.map_eq_some_iff.mp h
        simp only [Prod.mk.injEq] at heq
        obtain ⟨rfl, rfl, rfl⟩ := heq
        obtain ⟨rfl, hread, hafter⟩ := textEnd_split hbody
        exact ⟨rfl, .text hread, hafter⟩
      by_cases hword : isWordStart c = true
      · rw [token_word hword] at h
        obtain ⟨rfl, heq⟩ := Prod.mk.inj (Option.some.inj h)
        obtain ⟨rfl, rfl⟩ := Prod.mk.inj heq
        have hrun : (c :: rest).takeWhile isWordChar = c :: rest.takeWhile isWordChar :=
          List.takeWhile_cons_of_pos (isWordChar_of_isWordStart hword)
        have hhead : ((c :: rest).dropWhile isWordChar).head?.any isWordChar = false :=
          head_dropWhile
        refine ⟨List.takeWhile_append_dropWhile.symm, ?_, ?_⟩
        · rw [hrun]
          exact .word hword fun d hd => List.mem_takeWhile_imp hd
        · unfold wordKind
          split <;> exact hhead
      by_cases hnumber : startsNumber (c :: rest) = true
      · rw [token_number hnumber] at h
        obtain ⟨rfl, heq⟩ := Prod.mk.inj (Option.some.inj h)
        obtain ⟨rfl, rfl⟩ := Prod.mk.inj heq
        exact number_split hnumber
      · rw [token_other hquote hmark, if_neg hword, if_neg hnumber] at h
        obtain ⟨⟨s, lexeme', after'⟩, hread, heq⟩ := Option.map_eq_some_iff.mp h
        simp only [Prod.mk.injEq] at heq
        obtain ⟨rfl, rfl, rfl⟩ := heq
        obtain ⟨hsplit, hmem, hjoins⟩ := symbol_split hread
        refine ⟨hsplit, .symbol hmem, ?_⟩
        by_cases hdot : lexeme' = ['.']
        · -- a point that a digit joins would have begun a number
          subst hdot
          rw [hsplit] at hnumber
          cases after' with
          | nil => rfl
          | cons d after' => exact Bool.eq_false_iff.mpr hnumber
        · exact hjoins hdot

end QueryReplay.Sql.Lexer
