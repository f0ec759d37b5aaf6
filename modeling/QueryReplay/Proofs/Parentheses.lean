import Mathlib.Control.Monad.Basic
import QueryReplay.Proofs.Splicing
import QueryReplay.Sql.Admission

/-! # Parentheses — the count over an accepted statement

    The count of parentheses knows texts in single quotes and nothing else: it
    goes into comments and into names in quotes.  Where those are settled on
    their own it follows the levels of the tokens (`counts_chars`), and the
    tokens of a statement are balanced (`Parts.within`), so it objects to no
    accepted statement with settled comments and names
    (`checkParentheses_of_parse`). -/

namespace QueryReplay.Sql

open QueryReplay.Sql.Parser QueryReplay.Sql.StatementParser
open QueryReplay.Sql.ExprParser (expr)
open Lexer (Lexeme TextBody Spelled chars)

/-! ## The count over a part of a text -/

/-- A part of a text that the count does not object to on its own. -/
def Settled (cs : List Char) : Prop := checkParentheses false 0 0 cs = .ok ()

instance (cs : List Char) : Decidable (Settled cs) := inferInstanceAs (Decidable (_ = _))

/-- The count goes over a part from one number of open parentheses to another. -/
def Counts (cs : List Char) (n m : Nat) : Prop :=
  ∀ closed rest, ∃ closed', checkParentheses false (closed + n) closed (cs ++ rest)
    = checkParentheses false (closed' + m) closed' rest

/-- Nothing changes no count. -/
theorem Counts.nil (n : Nat) : Counts [] n n := fun closed _ => ⟨closed, rfl⟩

/-- Two parts are counted one behind the other. -/
theorem Counts.append {cs ds : List Char} {n m k : Nat} (hcs : Counts cs n m) (hds : Counts ds m k) :
    Counts (cs ++ ds) n k := by
  intro closed rest
  obtain ⟨between, hfront⟩ := hcs closed (ds ++ rest)
  obtain ⟨closed', hback⟩ := hds between rest
  exact ⟨closed', by rw [List.append_assoc, hfront, hback]⟩

section Steps

variable (inText : Bool) (opened closed : Nat) (rest : List Char)

/-- The count looks at one character at a time. -/
theorem checkParentheses_cons (c : Char) : checkParentheses inText opened closed (c :: rest) =
    if c == '\'' then checkParentheses (!inText) opened closed rest
    else if c == '(' && !inText then checkParentheses inText (opened + 1) closed rest
    else if c == ')' && !inText then
      if opened ≤ closed then .error (.unbalancedParentheses opened (closed + 1))
      else checkParentheses inText opened (closed + 1) rest
    else checkParentheses inText opened closed rest := rfl

/-- A parenthesis that closes one of those that are open. -/
theorem checkParentheses_close (h : closed < opened) :
    checkParentheses false opened closed (')' :: rest)
      = checkParentheses false opened (closed + 1) rest :=
  if_neg (Nat.not_le.mpr h)

/-- Inside a text everything but a mark is passed. -/
theorem checkParentheses_inText {c : Char} (h : c ≠ '\'') :
    checkParentheses true opened closed (c :: rest) = checkParentheses true opened closed rest := by
  rw [checkParentheses_cons, if_neg (by simpa using h), Bool.not_true, Bool.and_false, Bool.and_false]
  rfl

/-- What is neither a mark nor a parenthesis is passed outside of texts, too. -/
theorem checkParentheses_plain {c : Char} (hquote : c ≠ '\'') (hopen : c ≠ '(') (hclose : c ≠ ')') :
    checkParentheses false opened closed (c :: rest)
      = checkParentheses false opened closed rest := by
  rw [checkParentheses_cons, if_neg (by simpa using hquote), if_neg (by simp [hopen]),
    if_neg (by simp [hclose])]

end Steps

/-- Characters that are none of the three change no count. -/
theorem Counts.plain {cs : List Char} (h : ∀ c ∈ cs, c ≠ '\'' ∧ c ≠ '(' ∧ c ≠ ')') (n : Nat) :
    Counts cs n n := by
  induction cs with
  | nil => exact .nil n
  | cons c cs ih =>
      obtain ⟨hquote, hopen, hclose⟩ := h c List.mem_cons_self
      intro closed rest
      obtain ⟨closed', hrest⟩ := ih (fun d hd => h d (List.mem_cons_of_mem c hd)) closed rest
      exact ⟨closed', by
        rw [List.cons_append, checkParentheses_plain _ _ _ hquote hopen hclose, hrest]⟩

/-- An opening parenthesis outside of texts counts. -/
theorem Counts.open (n : Nat) : Counts ['('] n (n + 1) := fun closed _ => ⟨closed, rfl⟩

/-- A closing one takes back the last of those that are open. -/
theorem Counts.close (n : Nat) : Counts [')'] (n + 1) n := by
  intro closed rest
  refine ⟨closed + 1, ?_⟩
  rw [List.singleton_append, checkParentheses_close _ _ _ (by omega), Nat.add_right_comm,
    Nat.add_assoc]

/-- A text literal is passed over. -/
theorem Counts.text {body : List Char} (h : TextBody body) (n : Nat) :
    Counts ('\'' :: body) n n := by
  have hbody : ∀ opened closed rest, checkParentheses true opened closed (body ++ rest)
      = checkParentheses false opened closed rest := by
    induction h with
    | close => exact fun _ _ _ => rfl
    | doubled _ ih => exact fun opened closed rest => ih opened closed rest
    | char hc _ ih =>
        intro opened closed rest
        rw [List.cons_append, checkParentheses_inText _ _ _ hc, ih]
  exact fun closed rest => ⟨closed, hbody _ closed rest⟩

/-- Above a level that is not gone below, the count is the same. -/
theorem checkParentheses_above {cs : List Char} : ∀ {inText : Bool} {opened closed : Nat},
    checkParentheses inText opened closed cs = .ok () → ∀ {a b : Nat}, b ≤ a →
    ∀ rest, ∃ k, checkParentheses inText (opened + a) (closed + b) (cs ++ rest)
      = checkParentheses false (k + a) (k + b) rest := by
  -- Parentheses that pass the check still do when more were opened before than closed; the counts
  -- shift by what came before.
  induction cs with
  | nil =>
      intro inText opened closed h a b _ rest
      cases inText with
      | true => exact nomatch h
      | false =>
          have h : (if opened = closed then Except.ok () else _) = .ok () := h
          split at h
          · rename_i heq
            exact ⟨closed, by rw [heq]; rfl⟩
          · exact nomatch h
  | cons c cs ih =>
      intro inText opened closed h a b hab rest
      rw [checkParentheses_cons] at h
      rw [List.cons_append, checkParentheses_cons]
      by_cases hquote : (c == '\'') = true
      · rw [if_pos hquote] at h ⊢
        exact ih h hab rest
      rw [if_neg hquote] at h ⊢
      by_cases hopen : (c == '(' && !inText) = true
      · rw [if_pos hopen] at h ⊢
        rw [Nat.add_right_comm]
        exact ih h hab rest
      rw [if_neg hopen] at h ⊢
      by_cases hclose : (c == ')' && !inText) = true
      · rw [if_pos hclose] at h ⊢
        by_cases hle : opened ≤ closed
        · rw [if_pos hle] at h
          exact nomatch h
        · rw [if_neg hle] at h
          rw [if_neg (by omega), Nat.add_right_comm]
          exact ih h hab rest
      · rw [if_neg hclose] at h ⊢
        exact ih h hab rest

/-- What is settled on its own changes no count wherever it stands. -/
theorem Settled.counts {cs : List Char} (h : Settled cs) (n : Nat) : Counts cs n n := by
  intro closed rest
  obtain ⟨k, hk⟩ := checkParentheses_above h (Nat.le_add_right closed n) rest
  rw [Nat.zero_add, Nat.zero_add] at hk
  exact ⟨k + closed, by rw [hk, Nat.add_assoc]⟩

/-! ## The count over tokens -/

/-- Neither the comments behind the token nor its quotes confuse the count. -/
def Token.IsSettled (t : Token) : Prop :=
  Settled t.gap.toList ∧ (t.kind = .quoted → Settled t.lexeme.toList)

instance (t : Token) : Decidable t.IsSettled := inferInstanceAs (Decidable (_ ∧ _))

/-- Words hold neither marks nor parentheses. -/
theorem wordChar_plain {c : Char} (h : Lexer.isWordChar c = true) : c ≠ '\'' ∧ c ≠ '(' ∧ c ≠ ')' := by
  refine ⟨?_, ?_, ?_⟩ <;> (rintro rfl; exact absurd h (by decide))

theorem wordKind_ne_symbol (cs : List Char) (s : Symbol) : Lexer.wordKind cs ≠ .symbol s := by
  rcases wordKind_cases cs with ⟨k, hk⟩ | hname
  · rw [hk]
    exact nofun
  · rw [hname]
    exact nofun

/-- A lexeme moves the count as it moves the level of parentheses: a text is settled by its own
marks, and a name in quotes by assumption. -/
theorem counts_lexeme {t : Token} (h : Lexeme t.kind t.lexeme.toList)
    (hquoted : t.kind = .quoted → Settled t.lexeme.toList) {n m : Nat} (hlevel : t.level? n = some m) :
    Counts t.lexeme.toList n m := by
  -- only the two parentheses change the level, and no other lexeme holds one that counts
  have hsame : t.kind ≠ .symbol .openParen → t.kind ≠ .symbol .closeParen → n = m := by
    intro hopen hclose
    rw [Token.level_other hopen hclose] at hlevel
    exact Option.some.inj hlevel
  generalize hk : t.kind = k at h hquoted hsame
  generalize t.lexeme.toList = lexeme at h hquoted
  cases h with
  | quoted _ =>
      obtain rfl := hsame (by simp) (by simp)
      exact (hquoted rfl).counts n
  | text hbody =>
      obtain rfl := hsame (by simp) (by simp)
      exact .text hbody n
  | @word c cs hstart hrest =>
      obtain rfl := hsame (wordKind_ne_symbol _ _) (wordKind_ne_symbol _ _)
      refine .plain (List.forall_mem_cons.mpr ⟨wordChar_plain ?_, fun d hd => ?_⟩) n
      · exact Lexer.isWordChar_of_isWordStart hstart
      · exact wordChar_plain (hrest d hd)
  | whole hd hdigits =>
      obtain rfl := hsame (by simp) (by simp)
      refine .plain (List.forall_mem_cons.mpr ⟨wordChar_plain ?_, fun d hd => ?_⟩) n
      · exact Lexer.isWordChar_of_isDigit hd
      · exact wordChar_plain (Lexer.isWordChar_of_isDigit (hdigits d hd))
  | fraction hdigits hp hplaces =>
      obtain rfl := hsame (by simp) (by simp)
      have hdigit : ∀ {d : Char}, d.isDigit = true → d ≠ '\'' ∧ d ≠ '(' ∧ d ≠ ')' :=
        fun hd => wordChar_plain (Lexer.isWordChar_of_isDigit hd)
      refine .plain (List.forall_mem_append.mpr ⟨fun d hd => hdigit (hdigits d hd), ?_⟩) n
      exact List.forall_mem_cons.mpr ⟨by decide,
        List.forall_mem_cons.mpr ⟨hdigit hp, fun d hd => hdigit (hplaces d hd)⟩⟩
  | @symbol s _ hs =>
      by_cases hopen : s = .openParen
      · subst hopen
        obtain rfl : lexeme = ['('] := by simpa [Lexer.symbols] using hs
        obtain rfl := Option.some.inj ((Token.level_open hk n).symm.trans hlevel)
        exact .open n
      by_cases hclose : s = .closeParen
      · subst hclose
        obtain rfl : lexeme = [')'] := by simpa [Lexer.symbols] using hs
        cases n with
        | zero => rw [Token.level?, Token.isSymbol, Token.isSymbol, hk] at hlevel; cases hlevel
        | succ n =>
            obtain rfl := Option.some.inj ((Token.level_close hk n).symm.trans hlevel)
            exact .close n
      · obtain rfl := hsame (fun h => hopen (TokenKind.symbol.inj h))
          (fun h => hclose (TokenKind.symbol.inj h))
        have hall : ∀ x ∈ Lexer.symbols, x.1 ≠ .openParen → x.1 ≠ .closeParen →
            (x.2.all fun c => c != '\'' && c != '(' && c != ')') = true := by decide +kernel
        have hplain := hall _ hs hopen hclose
        simp only [List.all_eq_true, Bool.and_eq_true, bne_iff_ne, and_assoc] at hplain
        exact .plain hplain n

/-- Over settled tokens the count follows the levels of the tokens. -/
theorem counts_chars {ts : List Token} (hspelled : Spelled ts) (hsettled : ∀ t ∈ ts, t.IsSettled)
    {n m : Nat} (hlevel : level? ts n = some m) : Counts (chars ts) n m := by
  induction ts generalizing n with
  | nil =>
      obtain rfl := Option.some.inj hlevel
      exact .nil n
  | cons t ts ih =>
      obtain ⟨hlexeme, -, -, -, hrest⟩ := hspelled
      obtain ⟨⟨hgap, hquoted⟩, hmore⟩ := List.forall_mem_cons.mp hsettled
      obtain ⟨k, hk, hlater⟩ := Option.bind_eq_some_iff.mp hlevel
      rw [Lexer.chars_cons]
      exact (counts_lexeme hlexeme hquoted hk).append ((hgap.counts k).append (ih hrest hmore hlater))

/-! ## A whole statement -/

/-- A text whose comments and quoted names are settled. -/
structure TokenStream.IsSettled (stream : TokenStream) : Prop where
  lead : Settled stream.lead.toList
  tokens : ∀ t ∈ stream.tokens, t.IsSettled

/-- The count does not object to an accepted statement with settled comments and names. -/
theorem checkParentheses_of_parse {sql : String} {s : Select} {stream : TokenStream}
    (h : parse sql = .ok s) (hstream : TokenStream.ofString? sql = some stream)
    (hsettled : stream.IsSettled) : checkParentheses false 0 0 sql.toList = .ok () := by
  obtain ⟨lead, tokens, list, items, sources, tables, rest, hstream', hparts, hended, -⟩ :=
    parts_of_parse h
  obtain rfl := Option.some.inj (hstream.symm.trans hstream')
  obtain ⟨used, hused, hwithin⟩ := hparts.within (expr_takes _)
  have hend : level? rest 0 = some 0 := by
    rcases hended.cases with rfl | ⟨t, rfl, ht⟩
    · rfl
    · show (t.level? 0).bind (level? []) = some 0
      rw [Token.level_other (by rw [ht]; decide) (by rw [ht]; decide)]
      rfl
  have hlevel : level? tokens 0 = some 0 := by
    rw [hused, level_append, hwithin.balanced, Option.bind_some, hend]
  obtain ⟨closed, hcount⟩ := (hsettled.lead.counts 0).append
    (counts_chars (spelled_of_stream hstream') hsettled.tokens hlevel) 0 []
  rw [List.append_nil, ← toList_of_stream hstream'] at hcount
  exact hcount.trans (if_pos rfl)

end QueryReplay.Sql
