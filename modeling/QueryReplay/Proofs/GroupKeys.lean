import Mathlib
import QueryReplay.Json.Reader
import QueryReplay.Relation.Groups

/-! # Group keys — a joined text tells tuples apart

    Rows are grouped by one text: the JSON texts of their key values with a bar
    between them.  Strings may hold bars, quotes and control characters, so that
    the text tells the values is a fact about how they are written.  The route:

    * what a string literal writes for a character is read back as it
      (`escapeChar_cases`), so a literal ends at its closing quote and nowhere
      before it (`escaped_append_inj`);
    * a double is written with a point or an exponent, an integer without
      (`isFraction_text`, `isWholeChar_int`), so their texts never meet;
    * values that are no strings are written without quotes and bars
      (`isPlainText_render`), so the first value ends where the text says
      (`Json.render_append_inj`), and the rest follows by induction
      (`groupKey_inj`).

    That two doubles with one text are one double is left to the caller, for the
    doubles that are there.

    Mathlib is imported whole here: that integers are told by their decimal texts
    (`Int.repr_inj`) comes with no smaller module of it. -/

namespace QueryReplay

namespace Json

/-! ## String literals -/

theorem hexValue?_hexDigit {n : Nat} (h : n < 16) : Read.hexValue? (hexDigit n) = some n := by
  revert n
  decide

/-- Four digits after `\u` that write a control character are read back as it. -/
theorem unicodeEscape?_low {n : Nat} (h : n < 32) (rest : List Char) :
    Read.unicodeEscape? ('0' :: '0' :: hexDigit (n / 16) :: hexDigit (n % 16) :: rest)
      = some (Char.ofNat n, rest) := by
  have hhigh := hexValue?_hexDigit (n := n / 16) (by omega)
  have hlow := hexValue?_hexDigit (n := n % 16) (by omega)
  have hzero : Read.hexValue? '0' = some 0 := rfl
  have hvalue : n / 16 * 16 + n % 16 = n := by omega
  have hunit : Read.codeUnit? ('0' :: '0' :: hexDigit (n / 16) :: hexDigit (n % 16) :: rest)
      = some (n, rest) := by
    simp [Read.codeUnit?, hzero, hhigh, hlow, hvalue]
  simp only [Read.unicodeEscape?, hunit, Option.bind_eq_bind, Option.bind_some]
  rw [if_neg (by simp; omega), if_neg (by simp; omega)]
  rfl

/-- A character of a literal is read back from its escape or stands for itself. -/
theorem escapeChar_cases (c : Char) :
    (∃ cs, escapeChar c = '\\' :: cs ∧ ∀ rest, Read.escape? (cs ++ rest) = some (c, rest))
      ∨ escapeChar c = [c] ∧ c ≠ '"' ∧ c ≠ '\\' := by
  have hcode : ∀ {n : Nat}, c.toNat = n → c = Char.ofNat n := fun h => h ▸ (Char.ofNat_toNat c).symm
  unfold escapeChar
  split
  · next h => exact .inl ⟨['"'], rfl, by simp [Read.escape?, h]⟩
  split
  · next h => exact .inl ⟨['\\'], rfl, by simp [Read.escape?, h]⟩
  next hquote hback =>
  split
  · next hlow =>
      split
      · next h => exact .inl ⟨['n'], rfl, by simp [Read.escape?, h]⟩
      split
      · next h => exact .inl ⟨['r'], rfl, by simp [Read.escape?, h]⟩
      split
      · next h => exact .inl ⟨['t'], rfl, by simp [Read.escape?, h]⟩
      split
      · next h => exact .inl ⟨['b'], rfl, by simp [Read.escape?, hcode h]⟩
      split
      · next h => exact .inl ⟨['f'], rfl, by simp [Read.escape?, hcode h]⟩
      · refine .inl ⟨_, rfl, fun rest => ?_⟩
        have hread := unicodeEscape?_low hlow rest
        rw [Char.ofNat_toNat] at hread
        exact hread
  · exact .inr ⟨rfl, hquote, hback⟩

/-- Escaped characters are told apart by their first one. -/
theorem escapeChar_append_inj {c d : Char} {r r' : List Char}
    (h : escapeChar c ++ r = escapeChar d ++ r') : c = d ∧ r = r' := by
  rcases escapeChar_cases c with ⟨cs, hc, hread⟩ | ⟨hc, -, hback⟩
  · rcases escapeChar_cases d with ⟨ds, hd, hread'⟩ | ⟨hd, -, hback⟩
    · rw [hc, hd, List.cons_append, List.cons_append] at h
      have hsame := hread r
      rw [(List.cons.inj h).2, hread' r'] at hsame
      obtain ⟨rfl, rfl⟩ := Prod.mk.inj (Option.some.inj hsame)
      exact ⟨rfl, rfl⟩
    · rw [hc, hd] at h
      exact absurd (List.cons.inj h).1.symm hback
  · rcases escapeChar_cases d with ⟨ds, hd, -⟩ | ⟨hd, -, -⟩
    · rw [hc, hd] at h
      exact absurd (List.cons.inj h).1 hback
    · rw [hc, hd] at h
      exact List.cons.inj h

/-- No escaped character is read as the closing quote. -/
theorem escapeChar_append_ne_quote (c : Char) (r r' : List Char) :
    escapeChar c ++ r ≠ '"' :: r' := by
  intro h
  rcases escapeChar_cases c with ⟨cs, hc, -⟩ | ⟨hc, hquote, -⟩
  · rw [hc] at h
    exact absurd (List.cons.inj h).1 (by decide)
  · rw [hc] at h
    exact hquote (List.cons.inj h).1

/-- A literal ends at its closing quote. -/
theorem escaped_append_inj {s t r r' : List Char}
    (h : s.flatMap escapeChar ++ '"' :: r = t.flatMap escapeChar ++ '"' :: r') : s = t ∧ r = r' := by
  induction s generalizing t with
  | nil =>
      cases t with
      | nil => exact ⟨rfl, (List.cons.inj h).2⟩
      | cons d t =>
          rw [List.flatMap_cons, List.append_assoc] at h
          exact absurd h.symm (escapeChar_append_ne_quote d _ r)
  | cons c s ih =>
      rw [List.flatMap_cons, List.append_assoc] at h
      cases t with
      | nil => exact absurd h (escapeChar_append_ne_quote c _ r')
      | cons d t =>
          rw [List.flatMap_cons, List.append_assoc] at h
          obtain ⟨rfl, hrest⟩ := escapeChar_append_inj h
          obtain ⟨rfl, hend⟩ := ih hrest
          exact ⟨rfl, hend⟩

end Json

/-! ## Numbers -/

/-- A character of a whole number. -/
def isWholeChar (c : Char) : Bool := c.isDigit || c == '-'

/-- A character that numbers have and whole numbers do not. -/
def isFractionMark (c : Char) : Bool := c == '.' || c == 'e'

/-- A character of a number. -/
def isNumberChar (c : Char) : Bool := isWholeChar c || isFractionMark c || c == '+'

theorem isWholeChar_of_mem_toDigits {n : Nat} {c : Char} (h : c ∈ Nat.toDigits 10 n) :
    isWholeChar c = true := by
  rw [isWholeChar, Nat.isDigit_of_mem_toDigits (by decide) (Nat.le_refl 10) h, Bool.true_or]

/-- An integer is written in whole characters. -/
theorem isWholeChar_int (n : Int) : ∀ c ∈ (toString n).toList, isWholeChar c = true := by
  intro c hc
  have hrepr : toString n = n.repr := rfl
  rw [hrepr, Int.repr_eq_if] at hc
  split at hc
  · rw [Nat.toList_repr] at hc
    exact isWholeChar_of_mem_toDigits hc
  · rw [String.toList_append, Nat.toList_repr] at hc
    rcases List.mem_append.mp hc with hc | hc
    · obtain rfl := List.mem_singleton.mp hc
      rfl
    · exact isWholeChar_of_mem_toDigits hc

/-- Characters of a number, one of which no whole number has. -/
structure IsFraction (cs : List Char) : Prop where
  number : ∀ c ∈ cs, isNumberChar c = true
  mark : ∃ c ∈ cs, isFractionMark c = true

/-- Further characters of numbers around a fraction leave it one. -/
theorem IsFraction.around {cs front back : List Char} (h : IsFraction cs)
    (hfront : ∀ c ∈ front, isNumberChar c = true) (hback : ∀ c ∈ back, isNumberChar c = true) :
    IsFraction (front ++ cs ++ back) where
  number := by
    intro c hc
    rcases List.mem_append.mp hc with hc | hc
    · exact (List.mem_append.mp hc).elim (hfront c) (h.number c)
    · exact hback c hc
  mark := by
    obtain ⟨c, hc, hmark⟩ := h.mark
    exact ⟨c, List.mem_append_left _ (List.mem_append_right _ hc), hmark⟩

theorem isFraction_mark {c : Char} (h : isFractionMark c = true) : IsFraction [c] where
  number := by simp [isNumberChar, h]
  mark := ⟨c, List.mem_cons_self, h⟩

theorem isNumberChar_of_mem_toDigits {n : Nat} {c : Char} (h : c ∈ Nat.toDigits 10 n) :
    isNumberChar c = true := by
  rw [isNumberChar, isWholeChar_of_mem_toDigits h, Bool.true_or, Bool.true_or]

theorem isFraction_pointAfter (n : Nat) {digits : List Char}
    (h : ∀ c ∈ digits, isNumberChar c = true) : IsFraction (pointAfter n digits).toList := by
  have hpoint : (pointAfter n digits).toList = digits.take n ++ ['.'] ++ digits.drop n := by
    simp [pointAfter]
  rw [hpoint]
  exact (isFraction_mark rfl).around (fun c hc => h c (List.mem_of_mem_take hc))
    fun c hc => h c (List.mem_of_mem_drop hc)

/-- A finite decimal is written with digits, signs, a point and an exponent only. -/
theorem isFraction_render (d : Decimal) :
    IsFraction (DecimalLayout.document.render d).toList := by
  have hdigits : ∀ {n : Nat}, ∀ c ∈ Nat.toDigits 10 n, isNumberChar c = true :=
    fun c hc => isNumberChar_of_mem_toDigits hc
  have hzeros : ∀ n : Nat, ∀ c ∈ List.replicate n '0', isNumberChar c = true := by
    intro n c hc
    rw [List.eq_of_mem_replicate hc]
    rfl
  -- In every layout a mark that no whole number has, a point or an e, stands between characters
  -- of numbers.
  unfold DecimalLayout.render
  dsimp only
  split
  · exact ⟨List.all_eq_true.mp (by decide), '.', by simp, rfl⟩
  split
  · split
    · rw [String.toList_ofList, List.append_cons _ '.' ['0']]
      refine (isFraction_mark rfl).around (fun c hc => ?_) (by simp [isNumberChar, isWholeChar])
      exact (List.mem_append.mp hc).elim (hdigits c) (hzeros _ c)
    split
    · exact isFraction_pointAfter _ hdigits
    · refine isFraction_pointAfter 1 fun c hc => ?_
      rcases List.mem_append.mp hc with hc | hc
      · exact hzeros ((-_ : Int).toNat.pred + 1) c hc
      · exact hdigits c hc
  · have hbody : ∀ c ∈ (if (Nat.toDigits 10 d.digits).length = 1
        then String.ofList (Nat.toDigits 10 d.digits)
        else pointAfter 1 (Nat.toDigits 10 d.digits)).toList, isNumberChar c = true := by
      split
      · rw [String.toList_ofList]
        exact hdigits
      · exact (isFraction_pointAfter 1 hdigits).number
    rw [String.toList_append, String.toList_append]
    refine (isFraction_mark (c := 'e') rfl).around hbody ?_
    have hexponent : ∀ (sign : String) (n : Nat), (∀ c ∈ sign.toList, isNumberChar c = true) →
        ∀ c ∈ (sign ++ toString n).toList, isNumberChar c = true := by
      intro sign n hsign c hc
      rw [String.toList_append] at hc
      exact (List.mem_append.mp hc).elim (hsign c) fun hc => hdigits c (Nat.toList_repr ▸ hc)
    split
    · exact hexponent _ _ (List.all_eq_true.mp (by decide))
    · exact hexponent _ _ (List.all_eq_true.mp (by decide))

/-- A double is written with a point or an exponent. -/
theorem isFraction_text (x : Double) : IsFraction (DecimalLayout.document.text x).toList := by
  have hsign : ∀ c ∈ (if x.isNegative then "-" else "").toList, isNumberChar c = true := by
    split
    · exact List.all_eq_true.mp (by decide)
    · exact List.all_eq_true.mp (by decide)
  unfold DecimalLayout.text
  rw [String.toList_append, ← List.append_nil (_ ++ _)]
  exact (isFraction_render x.shortest).around hsign nofun

/-! ## Texts of scalars -/

namespace Json

/-- A value that holds no others: a double that is a value is finite. -/
def isScalar : Json → Bool
  | .null => true
  | .bool _ => true
  | .number (.int _) => true
  | .number (.float x) => x.isFinite
  | .string _ => true
  | .array _ => false
  | .object _ => false

/-- The double that a value is. -/
def floating? : Json → Option Double
  | .number (.float x) => some x
  | _ => none

/-- Two values have texts of their own if they are doubles. -/
def DoublesDiffer (u v : Json) : Prop := ∀ x ∈ u.floating?, ∀ y ∈ v.floating?,
  DecimalLayout.document.text x = DecimalLayout.document.text y → x = y

theorem renderNumber_int (n : Int) : renderNumber (.int n) = toString n := rfl

theorem renderNumber_float {x : Double} (h : x.isFinite = true) :
    renderNumber (.float x) = DecimalLayout.document.text x := if_pos h

/-- A number is written in characters of numbers. -/
theorem isNumberChar_renderNumber {n : Json.Number} (h : isScalar (.number n) = true) :
    ∀ c ∈ (renderNumber n).toList, isNumberChar c = true := by
  cases n with
  | int n =>
      intro c hc
      rw [isNumberChar, isWholeChar_int n c hc, Bool.true_or, Bool.true_or]
  | float x =>
      rw [renderNumber_float h]
      exact (isFraction_text x).number

/-- Numbers are told apart by their texts, if doubles are. -/
theorem renderNumber_inj {m n : Json.Number} (hm : isScalar (.number m) = true)
    (hn : isScalar (.number n) = true) (hdoubles : DoublesDiffer (.number m) (.number n))
    (h : renderNumber m = renderNumber n) : m = n := by
  -- an integer has no mark, which a double has
  have hkinds : ∀ (k : Int) (x : Double), toString k ≠ DecimalLayout.document.text x := by
    intro k x heq
    obtain ⟨c, hc, hmark⟩ := (isFraction_text x).mark
    have hwhole := isWholeChar_int k c (heq ▸ hc)
    simp only [isFractionMark, Bool.or_eq_true, beq_iff_eq] at hmark
    rcases hmark with rfl | rfl
    · exact absurd hwhole (by decide)
    · exact absurd hwhole (by decide)
  cases m with
  | int k =>
      cases n with
      | int l => exact congrArg _ (Int.repr_inj.mp h)
      | float y =>
          rw [renderNumber_int, renderNumber_float hn] at h
          exact absurd h (hkinds k y)
  | float x =>
      rw [renderNumber_float hm] at h
      cases n with
      | int l =>
          rw [renderNumber_int] at h
          exact absurd h.symm (hkinds l x)
      | float y =>
          rw [renderNumber_float hn] at h
          exact congrArg _ (hdoubles x rfl y rfl h)

/-- No number is written like a word. -/
theorem renderNumber_ne_word {n : Json.Number} (h : isScalar (.number n) = true) :
    ∀ word ∈ ["null", "true", "false"], renderNumber n ≠ word := by
  have hletter : ∀ word ∈ ["null", "true", "false"], word.toList.all isNumberChar = false := by
    decide
  intro word hword hrender
  have hnumber := List.all_eq_true.mpr (isNumberChar_renderNumber h)
  rw [hrender, hletter word hword] at hnumber
  exact nomatch hnumber

/-- A string is written between quotes. -/
theorem render_string (s : String) :
    (render (.string s)).toList = '"' :: (s.toList.flatMap escapeChar ++ ['"']) := by
  simp [render, renderString]

/-- A scalar that is no string is written in other characters than quotes and bars, and not
    in none. -/
structure IsPlainText (cs : List Char) : Prop where
  ne_nil : cs ≠ []
  plain : ∀ c ∈ cs, (c != '"' && c != '|') = true

/-- A number's text holds neither a quote nor the separator of the key. -/
theorem isPlainText_renderNumber {n : Json.Number} (h : isScalar (.number n) = true) :
    IsPlainText (renderNumber n).toList where
  ne_nil := by
    cases n with
    | int n =>
        rw [renderNumber_int]
        show n.repr.toList ≠ []
        rw [Int.repr_eq_if]
        split
        · rw [Nat.toList_repr]
          exact Nat.toDigits_ne_nil
        · rw [String.toList_append]
          exact List.cons_ne_nil _ _
    | float x =>
        rw [renderNumber_float h]
        obtain ⟨c, hc, -⟩ := (isFraction_text x).mark
        exact List.ne_nil_of_mem hc
  plain := by
    intro c hc
    have hnumber := isNumberChar_renderNumber h c hc
    rw [Bool.and_eq_true, bne_iff_ne, bne_iff_ne]
    constructor
    · rintro rfl
      exact absurd hnumber (by decide)
    · rintro rfl
      exact absurd hnumber (by decide)

/-- So does every scalar that is not a string. -/
theorem isPlainText_render {v : Json} (h : v.isScalar = true) (hstring : ∀ s, v ≠ .string s) :
    IsPlainText (render v).toList := by
  cases v with
  | null => exact ⟨by decide, List.all_eq_true.mp (by decide)⟩
  | bool b => cases b <;> exact ⟨by decide, List.all_eq_true.mp (by decide)⟩
  | number n => exact isPlainText_renderNumber h
  | string s => exact absurd rfl (hstring s)
  | array items => exact nomatch h
  | object ms => exact nomatch h

/-- Scalars that are no strings are told apart by their texts, if doubles are. -/
theorem render_plain_inj {u v : Json} (hu : u.isScalar = true) (hv : v.isScalar = true)
    (hu' : ∀ s, u ≠ .string s) (hv' : ∀ s, v ≠ .string s) (hdoubles : DoublesDiffer u v)
    (h : render u = render v) : u = v := by
  have hbool : ∀ b, render (.bool b) ∈ ["null", "true", "false"] := by
    intro b
    cases b <;> decide
  -- pairs of different constructors differ in their first characters, or one is a word and the
  -- other a number
  cases u with
  | null =>
      cases v with
      | null => rfl
      | bool b => cases b <;> exact absurd h (by decide)
      | number n => exact absurd h.symm (renderNumber_ne_word hv _ (by decide))
      | string s => exact absurd rfl (hv' s)
      | array items => exact nomatch hv
      | object ms => exact nomatch hv
  | bool a =>
      cases v with
      | null => cases a <;> exact absurd h (by decide)
      | bool b => cases a <;> cases b <;> first | rfl | exact absurd h (by decide)
      | number n => exact absurd h.symm (renderNumber_ne_word hv _ (hbool a))
      | string s => exact absurd rfl (hv' s)
      | array items => exact nomatch hv
      | object ms => exact nomatch hv
  | number m =>
      cases v with
      | null => exact absurd h (renderNumber_ne_word hu _ (by decide))
      | bool b => exact absurd h (renderNumber_ne_word hu _ (hbool b))
      | number n => exact congrArg _ (renderNumber_inj hu hv hdoubles h)
      | string s => exact absurd rfl (hv' s)
      | array items => exact nomatch hv
      | object ms => exact nomatch hv
  | string s => exact absurd rfl (hu' s)
  | array items => exact nomatch hu
  | object ms => exact nomatch hu

/-- The first character tells a string from other scalars. -/
theorem render_ne_string {u : Json} (hu : u.isScalar = true) (hu' : ∀ s, u ≠ .string s)
    (s : String) (r r' : List Char) : (render u).toList ++ r ≠ (render (.string s)).toList ++ r' := by
  obtain ⟨hne, hplain⟩ := isPlainText_render hu hu'
  obtain ⟨c, cs, hcs⟩ := List.exists_cons_of_ne_nil hne
  rw [hcs, render_string]
  intro h
  have hc := hplain c (hcs ▸ List.mem_cons_self)
  rw [(List.cons.inj h).1] at hc
  exact nomatch hc

/-- Texts without bars end where a bar follows or nothing. -/
theorem append_bar_inj {cs ds r r' : List Char} (hcs : ∀ c ∈ cs, (c != '|') = true)
    (hds : ∀ c ∈ ds, (c != '|') = true) (hr : ∀ c ∈ r.head?, c = '|')
    (hr' : ∀ c ∈ r'.head?, c = '|') (h : cs ++ r = ds ++ r') : cs = ds ∧ r = r' := by
  have hcut : ∀ {xs rest : List Char}, (∀ c ∈ xs, (c != '|') = true) →
      (∀ c ∈ rest.head?, c = '|') → (xs ++ rest).takeWhile (· != '|') = xs := by
    intro xs rest hxs hrest
    rw [List.takeWhile_append_of_pos hxs]
    cases rest with
    | nil => exact List.append_nil xs
    | cons c rest =>
        rw [hrest c rfl, List.takeWhile_cons_of_neg (by simp), List.append_nil]
  have hsame : cs = ds := by rw [← hcut hcs hr, h, hcut hds hr']
  exact ⟨hsame, List.append_cancel_left (hsame ▸ h)⟩

/-- The text of a scalar ends where a bar follows or nothing. -/
theorem render_append_inj {u v : Json} (hu : u.isScalar = true) (hv : v.isScalar = true)
    (hdoubles : DoublesDiffer u v) {r r' : List Char} (hr : ∀ c ∈ r.head?, c = '|')
    (hr' : ∀ c ∈ r'.head?, c = '|')
    (h : (render u).toList ++ r = (render v).toList ++ r') : u = v ∧ r = r' := by
  have hkind : ∀ w : Json, (∃ s, w = .string s) ∨ ∀ s, w ≠ .string s := by
    intro w
    cases w <;> simp
  rcases hkind u with ⟨s, rfl⟩ | hu'
  · rcases hkind v with ⟨t, rfl⟩ | hv'
    · rw [render_string, render_string, List.cons_append, List.cons_append, List.append_assoc,
        List.append_assoc] at h
      obtain ⟨hsame, hrest⟩ := escaped_append_inj (List.cons.inj h).2
      exact ⟨congrArg _ (String.toList_inj.mp hsame), hrest⟩
    · exact absurd h.symm (render_ne_string hv hv' s r' r)
  · rcases hkind v with ⟨t, rfl⟩ | hv'
    · exact absurd h (render_ne_string hu hu' t r r')
    · have hbar : ∀ {w : Json}, IsPlainText (render w).toList →
          ∀ c ∈ (render w).toList, (c != '|') = true :=
        fun hw c hc => ((Bool.and_eq_true _ _).mp (hw.plain c hc)).2
      obtain ⟨hsame, hrest⟩ := append_bar_inj (hbar (isPlainText_render hu hu'))
        (hbar (isPlainText_render hv hv')) hr hr' h
      exact ⟨render_plain_inj hu hv hu' hv' hdoubles (String.toList_inj.mp hsame), hrest⟩

/-- No scalar is written as the empty text. -/
theorem render_ne_nil {v : Json} (h : v.isScalar = true) : (render v).toList ≠ [] := by
  intro hnil
  cases v with
  | string s =>
      rw [render_string] at hnil
      exact nomatch hnil
  | _ => exact (isPlainText_render h nofun).ne_nil hnil

end Json

/-! ## Keys -/

/-- What follows the first value of a key. -/
def afterFirst : List Json → List Char
  | [] => []
  | v :: vs => '|' :: (groupKey (v :: vs)).toList

/-- Behind the first value the key goes on with the separator, or ends. -/
theorem afterFirst_head? (vs : List Json) : ∀ c ∈ (afterFirst vs).head?, c = '|' := by
  cases vs with
  | nil => nofun
  | cons v vs =>
      rintro c ⟨⟩
      rfl

/-- A key is the first value's text, then the others behind separators. -/
theorem groupKey_cons (v : Json) (vs : List Json) :
    (groupKey (v :: vs)).toList = v.render.toList ++ afterFirst vs := by
  cases vs with
  | nil => simp [groupKey, afterFirst]
  | cons w vs =>
      simp [groupKey, afterFirst, groupSeparator, String.toList_intercalate]

/-- A scalar tuple is told by its key, whatever bars and quotes its strings hold. -/
theorem groupKey_inj {us vs : List Json} (hus : ∀ u ∈ us, u.isScalar = true)
    (hvs : ∀ v ∈ vs, v.isScalar = true) (hdoubles : ∀ u ∈ us, ∀ v ∈ vs, u.DoublesDiffer v)
    (h : groupKey us = groupKey vs) : us = vs := by
  have hempty : ∀ {w : Json} {ws : List Json}, w.isScalar = true → groupKey [] ≠ groupKey (w :: ws) := by
    intro w ws hw hkey
    have htext := groupKey_cons w ws
    rw [← hkey] at htext
    exact Json.render_ne_nil hw (List.append_eq_nil_iff.mp htext.symm).1
  -- The texts of two tuples agree up to the first bar, as no rendered value is a front of another
  -- with the bar or the end behind it.
  induction us generalizing vs with
  | nil =>
      cases vs with
      | nil => rfl
      | cons v vs => exact absurd h (hempty (hvs v List.mem_cons_self))
  | cons u us ih =>
      cases vs with
      | nil => exact absurd h.symm (hempty (hus u List.mem_cons_self))
      | cons v vs =>
          have htext := congrArg String.toList h
          rw [groupKey_cons, groupKey_cons] at htext
          obtain ⟨rfl, hafter⟩ := Json.render_append_inj (hus u List.mem_cons_self)
            (hvs v List.mem_cons_self) (hdoubles u List.mem_cons_self v List.mem_cons_self)
            (afterFirst_head? us) (afterFirst_head? vs) htext
          cases us with
          | nil =>
              cases vs with
              | nil => rfl
              | cons w vs => exact nomatch hafter
          | cons w us =>
              cases vs with
              | nil => exact nomatch hafter
              | cons w' vs =>
                  refine congrArg _ (ih (fun x hx => hus x (List.mem_cons_of_mem _ hx))
                    (fun x hx => hvs x (List.mem_cons_of_mem _ hx))
                    (fun x hx y hy => hdoubles x (List.mem_cons_of_mem _ hx) y
                      (List.mem_cons_of_mem _ hy)) ?_)
                  exact String.toList_inj.mp (List.cons.inj hafter).2

end QueryReplay
