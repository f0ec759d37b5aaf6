import QueryReplay.Database
import QueryReplay.Proofs.Meanings

/-! # Commands — what the database reads in a text

    The database has a grammar of its own, over the same tokens.  Every command that
    it reads begins behind a semicolon or at the front, with the word that says what
    it does, and so it is announced among the first words of the text
    (`firstWord_of_parseAll`).  A text that is admissible therefore holds no command
    that makes or drops a table (`keepsTables_of_admissible`).  The route:

    * what a reader takes is a front of the tokens without slashes (`Takes`), one rule
      for each way to build a reader; a slash would open what the first words take for
      a comment;
    * a command is known by its first token (`Opens`);
    * the tokens up to a semicolon do not change what is a first word behind it
      (`mem_firstKeywords`).

    The texts that the database puts together itself, with a name in double quotes as
    it stands, are read as they are meant when the name holds no double quote
    (`parseAll_drop`, `parseAll_count`). -/

namespace QueryReplay

open Sql (Token Symbol Keyword)

/-! ## First words behind semicolons -/

namespace Sql

open QueryReplay.Text (upper)
open Regions (scan IsIdle startsComment)
open Lexer (Gap Lexeme Spelled chars startsGap joins)

/-- A piece behind a semicolon is a piece of the whole. -/
theorem mem_splitOn_behind {α : Type} [BEq α] [LawfulBEq α] {x : α} {p : List α} (front : List α)
    {back : List α} (h : p ∈ back.splitOn x) : p ∈ (front ++ x :: back).splitOn x := by
  by_cases hx : x ∈ front
  · obtain ⟨before, rest, hfront, hbefore⟩ := List.eq_append_cons_of_mem hx
    have hshorter : rest.length < front.length := by
      rw [hfront, List.length_append, List.length_cons]
      omega
    rw [hfront, List.append_assoc, List.cons_append,
      List.splitOn_append_cons_self_of_not_mem hbefore]
    exact List.mem_cons_of_mem _ (mem_splitOn_behind rest h)
  · rw [List.splitOn_append_cons_self_of_not_mem hx]
    exact List.mem_cons_of_mem _ h
termination_by front.length

/-- A piece behind a semicolon is a piece of the whole, whatever stands in front. -/
theorem statementsOf_behind {ms p : List (Char × Region)} (front : List (Char × Region))
    (h : p ∈ statementsOf ms) : p ∈ statementsOf (front ++ endMark :: ms) := by
  obtain ⟨hpiece, hmore⟩ := mem_statementsOf.mp h
  exact mem_statementsOf.mpr ⟨mem_splitOn_behind front hpiece, hmore⟩

/-- Only a slash begins with one. -/
theorem Lexer.Lexeme.kind_of_slash {k : TokenKind} {cs : List Char} (h : Lexeme k ('/' :: cs)) :
    k = .symbol .slash := by
  have hmarks : ∀ x ∈ Lexer.symbols, x.2.head? = some '/' → x.1 = .slash := by decide
  generalize hlexeme : '/' :: cs = lexeme at h
  cases h with
  | word hstart _ =>
      rw [← (List.cons.inj hlexeme).1] at hstart
      exact absurd hstart (by decide)
  | whole hd _ =>
      rw [← (List.cons.inj hlexeme).1] at hd
      exact absurd hd (by decide)
  | @fraction digits _ _ hdigits _ _ =>
      cases digits with
      | nil => exact nomatch (List.cons.inj hlexeme).1
      | cons d digits =>
          have hd := hdigits d List.mem_cons_self
          rw [← (List.cons.inj hlexeme).1] at hd
          exact absurd hd (by decide)
  | symbol hs => exact congrArg TokenKind.symbol (hmarks _ hs (by rw [← hlexeme]; rfl))
  | _ => exact nomatch (List.cons.inj hlexeme).1

/-- Where no gap begins, a token that is no slash begins no comment. -/
theorem startsComment_lexeme {k : TokenKind} {lexeme rest : List Char} (h : Lexeme k lexeme)
    (hk : k ≠ .symbol .slash) (hgap : startsGap (lexeme ++ rest) = false) :
    startsComment (lexeme ++ rest) = false := by
  refine Bool.eq_false_iff.mpr fun hcomment => ?_
  obtain ⟨c, cs, rfl⟩ := List.exists_cons_of_ne_nil h.ne_nil
  unfold startsComment at hcomment
  split at hcomment
  · rename_i heq
    rw [heq] at hgap
    cases hgap
  · rename_i heq
    obtain rfl := (List.cons.inj heq).1
    exact hk h.kind_of_slash
  · cases hcomment

/-- Tokens without slashes that end in a semicolon, if there are any. -/
def AtStart (front : List Token) : Prop :=
  (∀ t ∈ front, t.kind ≠ .symbol .slash) ∧ ∀ t ∈ front.getLast?, t.kind = .symbol .semicolon

/-- A semicolon is followed by the start of a statement. -/
theorem AtStart.semicolon {front used : List Token} {mark : Token} (h : AtStart front)
    (hused : ∀ t ∈ used, t.kind ≠ .symbol .slash) (hmark : mark.kind = .symbol .semicolon) :
    AtStart (front ++ used ++ [mark]) := by
  refine ⟨fun t ht => ?_, fun t ht => ?_⟩
  · rcases List.mem_append.mp ht with ht | ht
    · exact (List.mem_append.mp ht).elim (h.1 t) (hused t)
    · rw [List.mem_singleton.mp ht, hmark]
      exact nofun
  · rw [List.getLast?_concat] at ht
    exact Option.some.inj ht ▸ hmark

/-- What is marked in front of a token that stands at the start of a statement: nothing,
    or something up to a semicolon, and then blanks and comments. -/
theorem scan_atStart {front back : List Token} {t : Token} (hfront : AtStart front)
    (hspelled : Spelled (front ++ t :: back))
    (hgap : startsGap (chars (front ++ t :: back)) = false) :
    Spelled (t :: back) ∧ ∃ before idle, (scan .bare (chars (front ++ t :: back))).1
        = before ++ (idle ++ (scan .bare (chars (t :: back))).1)
      ∧ (∀ m ∈ idle, IsIdle m)
      ∧ (front = [] ∧ before = [] ∨ ∃ more, before = more ++ [endMark]) := by
  induction front with
  | nil => exact ⟨hspelled, [], [], rfl, List.forall_mem_nil _, .inl ⟨rfl, rfl⟩⟩
  | cons u front ih =>
      obtain ⟨hlexeme, ⟨o, hugap, hopen⟩, hstart, -, hrest⟩ := hspelled
      have hslash := hfront.1 u List.mem_cons_self
      have hmore : front ++ t :: back ≠ [] :=
        List.append_ne_nil_of_right_ne_nil _ (List.cons_ne_nil _ _)
      -- there are tokens behind, so the gap is closed
      obtain rfl : o = false := by
        cases o with
        | false => rfl
        | true => exact absurd (hopen rfl) hmore
      obtain ⟨ms, hcrosses, hidle⟩ := Regions.crosses_gap hugap
      have hchars : chars (u :: front ++ t :: back)
          = u.lexeme.toList ++ (u.gap.toList ++ chars (front ++ t :: back)) := Lexer.chars_cons ..
      rw [hchars] at hgap ⊢
      rw [Regions.scan_lexeme hlexeme (startsComment_lexeme hlexeme hslash hgap), hcrosses]
      cases front with
      | nil =>
          have hu : u.kind = .symbol .semicolon := hfront.2 u rfl
          rw [hlexeme.semicolon hu, hu]
          exact ⟨hrest, [endMark], ms, rfl, hidle, .inr ⟨[], rfl⟩⟩
      | cons v front =>
          have hfront' : AtStart (v :: front) :=
            ⟨fun w hw => hfront.1 w (List.mem_cons_of_mem u hw), fun w hw => hfront.2 w hw⟩
          obtain ⟨hbehind, before, idle, hscan, hidle', hbefore⟩ := ih hfront' hrest hstart
          refine ⟨hbehind, u.lexeme.toList.map (·, Regions.regionOf u.kind) ++ ms ++ before, idle,
            ?_, hidle', .inr ?_⟩
          · simp only [Regions.mark, hscan, List.append_assoc]
          · rcases hbefore with ⟨hnone, -⟩ | ⟨more, rfl⟩
            · cases hnone
            · exact ⟨_, (List.append_assoc _ _ _).symm⟩

/-- The token is a word, reserved or not, and `w` when it is in upper case. -/
def Token.Reads (t : Token) (w : String) : Prop :=
  t.kind = .name ∧ upper t.lexeme = w ∨ ∃ k : Keyword, t.kind = .keyword k ∧ upper k.word = w

/-- A word at the start of a statement is the first word of one. -/
theorem mem_firstKeywords {sql lead w : String} {front back : List Token} {t : Token}
    (hstream : TokenStream.ofString? sql = some ⟨lead, front ++ t :: back⟩) (hfront : AtStart front)
    (hreads : t.Reads w) : w ∈ firstKeywords sql := by
  obtain ⟨htext, hstart, ⟨o, hlead, hopen⟩, hspelled⟩ := Lexer.ofString_iff.mp hstream
  obtain rfl : o = false := by
    cases o with
    | false => rfl
    | true =>
        exact absurd (hopen rfl) (List.append_ne_nil_of_right_ne_nil _ (List.cons_ne_nil _ _))
  obtain ⟨ms, hcrosses, hblank⟩ := Regions.crosses_gap hlead
  obtain ⟨hword, before, idle, hscan, hidle, hbefore⟩ := scan_atStart hfront hspelled hstart
  have ht : t.kind = .name ∨ ∃ k, t.kind = .keyword k :=
    hreads.imp And.left fun ⟨k, hk, _⟩ => ⟨k, hk⟩
  have hupper : upper t.lexeme = w := by
    rcases hreads with ⟨-, hw⟩ | ⟨k, hk, hw⟩
    · exact hw
    · rw [upper_of_kind hword.1 hk, hw]
  obtain ⟨c, cs, hcs, hcstart, hcrest, -⟩ := hword.1.isWord ht
  have hletters : ∀ d ∈ c :: cs, Lexer.isWordChar d = true :=
    List.forall_mem_cons.mpr ⟨Lexer.isWordChar_of_isWordStart hcstart, hcrest⟩
  obtain ⟨-, -, hdash, hslash⟩ := Regions.wordChar_bare (hletters c List.mem_cons_self)
  have hbare : Regions.regionOf t.kind = .bare := by
    rcases ht with ht | ⟨k, ht⟩ <;> rw [ht] <;> rfl
  have hscanword : (scan .bare (chars (t :: back))).1
      = (c :: cs).map (·, .bare) ++ (scan .bare (t.gap.toList ++ chars back)).1 := by
    rw [Lexer.chars_cons, Regions.scan_lexeme hword.1
      (by rw [hcs]; exact Regions.startsComment_of_ne _ hdash hslash), hbare, hcs]
    rfl
  -- behind blanks and comments, the word is the first one
  have hfirst : ∀ lead : List (Char × Region), (∀ m ∈ lead, IsIdle m) →
      ∃ p ∈ statementsOf (lead ++ (scan .bare (chars (t :: back))).1), firstWord p = t.lexeme := by
    intro lead hlead
    have hletter : ∃ m ∈ lead ++ (scan .bare (chars (t :: back))).1, isLetter m = true := by
      refine ⟨(c, .bare), List.mem_append_right _ ?_, isLetter_word (hletters c List.mem_cons_self)⟩
      rw [hscanword]
      exact List.mem_append_left _ List.mem_cons_self
    obtain ⟨p, hp, hpword⟩ := exists_firstWord _ hletter
    refine ⟨p, hp, ?_⟩
    rw [hpword, hscanword, firstWord_eq (fun m hm => isLetter_of_isIdle (hlead m hm))
      (fun d hd => isLetter_word (hletters d hd)) (not_isLetter_behind hword ht), ← hcs,
      String.ofList_toList]
  rw [firstKeywords, htext, hcrosses, hscan, ← hupper]
  rcases hbefore with ⟨-, rfl⟩ | ⟨more, rfl⟩
  · obtain ⟨p, hp, hpword⟩ := hfirst (ms ++ idle) fun m hm =>
      (List.mem_append.mp hm).elim (hblank m) (hidle m)
    rw [List.append_assoc] at hp
    exact List.mem_map.mpr ⟨p, hp, congrArg upper hpword⟩
  · obtain ⟨p, hp, hpword⟩ := hfirst idle hidle
    refine List.mem_map.mpr ⟨p, ?_, congrArg upper hpword⟩
    simpa using statementsOf_behind (ms ++ more) hp

end Sql

/-! ## What readers take -/

namespace CommandReader

variable {α β : Type} {r : CommandReader α}

/-- What is read is a front of the tokens, and holds no slash. -/
def Takes (r : CommandReader α) : Prop :=
  ∀ ts a rest, r ts = some (a, rest) →
    ∃ used, ts = used ++ rest ∧ ∀ t ∈ used, t.kind ≠ .symbol .slash

/-- A sequence that reads something is two readers that do, one behind the other. -/
theorem bind_some {f : α → CommandReader β} {ts rest : List Token} {b : β}
    (h : (r >>= f) ts = some (b, rest)) :
    ∃ a mid, r ts = some (a, mid) ∧ f a mid = some (b, rest) := by
  obtain ⟨⟨a, mid⟩, ha, hb⟩ := Option.bind_eq_some_iff.mp h
  exact ⟨a, mid, ha, hb⟩

/-- An alternative that reads something is one of the two. -/
theorem orElse_some {s : CommandReader α} {ts rest : List Token} {a : α}
    (h : (r <|> s) ts = some (a, rest)) : r ts = some (a, rest) ∨ s ts = some (a, rest) := by
  have h : (r ts <|> s ts) = some (a, rest) := h
  cases hr : r ts with
  | none =>
      rw [hr] at h
      exact .inr h
  | some found =>
      rw [hr] at h
      exact .inl h

/-- Reading nothing takes no slash. -/
theorem takes_pure (a : α) : Takes (pure a : CommandReader α) := by
  intro ts b rest h
  cases h
  exact ⟨[], rfl, nofun⟩

theorem takes_failure : Takes (failure : CommandReader α) := nofun

/-- What two readers take one behind the other has no slash if neither part has. -/
theorem takes_bind {f : α → CommandReader β} (hr : Takes r) (hf : ∀ a, Takes (f a)) :
    Takes (r >>= f) := by
  intro ts b rest h
  obtain ⟨a, mid, ha, hb⟩ := bind_some h
  obtain ⟨used, rfl, hused⟩ := hr ts a mid ha
  obtain ⟨more, rfl, hmore⟩ := hf a mid b rest hb
  refine ⟨used ++ more, (List.append_assoc _ _ _).symm, fun t ht => ?_⟩
  exact (List.mem_append.mp ht).elim (hused t) (hmore t)

theorem takes_map (f : α → β) (hr : Takes r) : Takes (f <$> r) :=
  takes_bind hr fun a => takes_pure (f a)

theorem takes_orElse {s : CommandReader α} (hr : Takes r) (hs : Takes s) : Takes (r <|> s) := by
  intro ts a rest h
  rcases orElse_some h with h | h
  · exact hr ts a rest h
  · exact hs ts a rest h

theorem takes_ite {c : Bool} {s : CommandReader α} (hr : Takes r) (hs : Takes s) :
    Takes (if c then r else s) := by
  cases c with
  | false => exact hs
  | true => exact hr

theorem takes_getM (a? : Option α) : Takes (a?.getM : CommandReader α) := by
  cases a? with
  | none => exact takes_failure
  | some a => exact takes_pure a

/-- A token is taken when it is of use and no slash. -/
theorem takes_token {f : Token → Option α} (hf : ∀ t a, f t = some a → t.kind ≠ .symbol .slash) :
    Takes (token f) := by
  intro ts a rest h
  match ts with
  | t :: ts =>
      obtain ⟨b, hb, heq⟩ := Option.map_eq_some_iff.mp h
      cases heq
      exact ⟨[t], rfl, fun u hu => List.mem_singleton.mp hu ▸ hf t a hb⟩

theorem takes_optional (hr : Takes r) : Takes (optional r) := by
  intro ts a? rest h
  unfold optional at h
  split at h
  · next a mid hread =>
      cases h
      exact hr ts a rest hread
  · cases h
    exact ⟨[], rfl, nofun⟩

theorem takes_given (hr : Takes r) : Takes (given r) := by
  intro ts b rest h
  unfold given at h
  split at h
  · next a mid hread =>
      cases h
      exact hr ts a rest hread
  · cases h
    exact ⟨[], rfl, nofun⟩

/-- Every other symbol may be taken. -/
theorem takes_symbol {s : Symbol} (hs : s ≠ .slash) : Takes (symbol s) := by
  refine takes_token fun t a h => ?_
  split at h
  · next hsymbol =>
      rw [eq_of_beq hsymbol]
      exact fun heq => hs (Sql.TokenKind.symbol.inj heq)
  · exact nomatch h

theorem takes_keyword (k : Keyword) : Takes (keyword k) := by
  refine takes_token fun t a h => ?_
  split at h
  · next hkeyword =>
      rw [eq_of_beq hkeyword]
      exact nofun
  · exact nomatch h

theorem takes_word (w : String) : Takes (word w) := by
  refine takes_token fun t a h => ?_
  split at h
  · next hword =>
      rw [eq_of_beq (Bool.and_eq_true_iff.mp hword).1]
      exact nofun
  · exact nomatch h

/-- The induction is on the number of items that are left to read. -/
theorem takes_listUpTo {item : CommandReader α} (h : Takes item) (n : Nat) :
    Takes (listUpTo item n) := by
  induction n with
  | zero => exact nofun
  | succ n ih =>
      exact takes_bind h fun a => takes_bind (takes_given (takes_symbol (by decide))) fun b =>
        takes_ite (takes_bind ih fun more => takes_pure _) (takes_pure _)

theorem takes_list {item : CommandReader α} (h : Takes item) : Takes (list item) := fun ts =>
  takes_listUpTo h (ts.length + 1) ts

theorem takes_parenthesized (hr : Takes r) : Takes (parenthesized r) :=
  takes_bind (takes_symbol (by decide)) fun _ => takes_bind hr fun a =>
    takes_bind (takes_symbol (by decide)) fun _ => takes_pure a

/-! ### Names and literals -/

/-- A name in quotes is a row of quoted tokens, one for each quote that is written twice. -/
theorem quotedChars_takes {ts rest : List Token} {cs : List Char}
    (h : quotedChars ts = some (cs, rest)) :
    ∃ used, ts = used ++ rest ∧ ∀ t ∈ used, t.kind ≠ .symbol .slash := by
  induction ts generalizing cs with
  | nil => exact nomatch h
  | cons t ts ih =>
      unfold quotedChars at h
      split at h
      · next hquoted =>
          have ht : t.kind ≠ .symbol .slash := by
            rw [eq_of_beq hquoted]
            exact nofun
          have hone : some ((t.lexeme.toList.drop 1).dropLast, ts) = some (cs, rest) →
              ∃ used, t :: ts = used ++ rest ∧ ∀ u ∈ used, u.kind ≠ .symbol .slash := by
            intro heq
            cases heq
            exact ⟨[t], rfl, fun u hu => List.mem_singleton.mp hu ▸ ht⟩
          split at h
          · split at h
            · next more rest' hmore =>
                cases h
                obtain ⟨used, hused, hnone⟩ := ih hmore
                exact ⟨t :: used, by rw [hused]; rfl, List.forall_mem_cons.mpr ⟨ht, hnone⟩⟩
            · exact hone h
          · exact hone h
      · exact nomatch h

theorem takes_quotedName : Takes quotedName := by
  intro ts a rest h
  unfold quotedName at h
  split at h
  · next c cs rest' hread =>
      cases h
      exact quotedChars_takes hread
  · exact nomatch h

/-- A token of one kind is taken when that is no slash. -/
theorem takes_kind {k : Sql.TokenKind} {f : Token → Option α} (hk : k ≠ .symbol .slash) :
    Takes (token fun t => if t.kind == k then f t else none) := by
  refine takes_token fun t a h => ?_
  split at h
  · next hkind => exact eq_of_beq hkind ▸ hk
  · exact nomatch h

theorem takes_name : Takes name := takes_orElse takes_quotedName (takes_kind nofun)

theorem takes_columnRef : Takes columnRef :=
  takes_bind takes_name fun _ => takes_bind (takes_given (takes_symbol (by decide))) fun _ =>
    takes_ite (takes_bind takes_name fun _ => takes_pure _) (takes_pure _)

/-- An exponent is the word behind a number, with a sign and digits behind it or not. -/
theorem exponentSource_takes {ts rest : List Token} {source : String}
    (h : exponentSource? ts = some (source, rest)) :
    ∃ used, ts = used ++ rest ∧ ∀ t ∈ used, t.kind ≠ .symbol .slash := by
  have hname : ∀ {t : Token}, (t.kind == .name) = true → t.kind ≠ .symbol .slash := fun ht =>
    eq_of_beq ht ▸ nofun
  cases ts with
  | nil => exact nomatch h
  | cons t ts =>
      simp only [exponentSource?] at h
      split at h
      · next e c digits ht _ =>
          obtain ⟨-, heq⟩ := Option.ite_none_right_eq_some.mp h
          cases heq
          exact ⟨[t], rfl, fun u hu => List.mem_singleton.mp hu ▸ hname ht⟩
      · next e ht _ =>
          split at h
          · next sign power rest' =>
              obtain ⟨hcond, heq⟩ := Option.ite_none_right_eq_some.mp h
              cases heq
              simp only [Bool.and_eq_true, Bool.or_eq_true] at hcond
              refine ⟨[t, sign, power], rfl, ?_⟩
              simp only [List.forall_mem_cons]
              refine ⟨hname ht, ?_, eq_of_beq hcond.2 ▸ nofun, nofun⟩
              rcases hcond.1.2 with hsign | hsign <;> exact eq_of_beq hsign ▸ nofun
          · exact nomatch h
      · exact nomatch h

theorem takes_number (negative : Bool) : Takes (number negative) := by
  intro ts a rest h
  cases ts with
  | nil => exact nomatch h
  | cons t ts =>
      simp only [number] at h
      split at h
      · next hnumber =>
          have ht : t.kind ≠ .symbol .slash := eq_of_beq hnumber ▸ nofun
          split at h
          · next power rest' hpower =>
              obtain ⟨n, -, heq⟩ := Option.map_eq_some_iff.mp h
              cases heq
              obtain ⟨-, hsource⟩ := Option.ite_none_right_eq_some.mp hpower
              obtain ⟨used, hused, hnone⟩ := exponentSource_takes hsource
              exact ⟨t :: used, by rw [hused]; rfl, List.forall_mem_cons.mpr ⟨ht, hnone⟩⟩
          · cases h
            exact ⟨[t], rfl, fun u hu => List.mem_singleton.mp hu ▸ ht⟩
      · exact nomatch h

theorem takes_text : Takes text := by
  refine takes_token fun t a h => ?_
  obtain ⟨content, hcontent, -⟩ := Option.map_eq_some_iff.mp h
  obtain ⟨hkind, -⟩ := Option.ite_none_right_eq_some.mp hcontent
  exact eq_of_beq hkind ▸ nofun

theorem takes_typedText (w : String) (type : ColumnType) : Takes (typedText w type) := by
  refine takes_bind (takes_word w) fun _ => takes_bind takes_text fun c => ?_
  split
  · exact takes_pure _
  · exact takes_failure

theorem takes_literal : Takes literal :=
  takes_orElse (takes_number false) <|
  takes_orElse (takes_bind (takes_symbol (by decide)) fun _ => takes_number true) <|
  takes_orElse takes_text <|
  takes_orElse (takes_bind (takes_keyword _) fun _ => takes_pure _) <|
  takes_orElse (takes_bind (takes_keyword _) fun _ => takes_pure _) <|
  takes_orElse (takes_bind (takes_keyword _) fun _ => takes_pure _) <|
  takes_orElse (takes_typedText _ _) (takes_typedText _ _)

theorem takes_count : Takes count := by
  refine takes_token fun t n h => ?_
  obtain ⟨hkind, -⟩ := Option.ite_none_right_eq_some.mp h
  exact eq_of_beq (Bool.and_eq_true_iff.mp hkind).1 ▸ nofun

/-! ### Conditions and queries -/

theorem takes_operand : Takes operand :=
  takes_orElse (takes_map _ takes_literal) (takes_map _ takes_columnRef)

theorem takes_comparison : Takes (token comparison?) := by
  refine takes_token fun t op h hslash => ?_
  rw [comparison?, hslash] at h
  exact nomatch h

/-- A condition compares a column, or asks whether it is NULL. -/
theorem takes_condition : Takes condition :=
  takes_bind takes_operand fun _ => takes_bind (takes_given (takes_keyword _)) fun _ =>
    takes_ite
      (takes_bind (takes_given (takes_keyword _)) fun _ =>
        takes_bind (takes_keyword _) fun _ => takes_pure _)
      (takes_bind takes_comparison fun _ => takes_bind takes_operand fun _ => takes_pure _)

theorem takes_filter : Takes filter :=
  takes_optional (takes_bind (takes_keyword _) fun _ => takes_condition)

theorem takes_optAlias : Takes optAlias :=
  takes_optional (takes_bind (takes_given (takes_keyword _)) fun _ => takes_name)

theorem takes_item : Takes item :=
  takes_orElse (takes_bind (takes_symbol (by decide)) fun _ => takes_pure _) <|
  takes_orElse
    (takes_bind takes_name fun _ => takes_bind (takes_symbol (by decide)) fun _ =>
      takes_bind (takes_symbol (by decide)) fun _ => takes_pure _) <|
  takes_orElse
    (takes_bind (takes_word _) fun _ =>
      takes_bind (takes_parenthesized (takes_symbol (by decide))) fun _ =>
        takes_bind takes_optAlias fun _ => takes_pure _) <|
  takes_bind takes_columnRef fun _ => takes_bind takes_optAlias fun _ => takes_pure _

theorem takes_sortKey : Takes sortKey := by
  refine takes_bind (takes_orElse (takes_map _ takes_count) (takes_map _ takes_columnRef)) fun _ =>
    takes_bind (takes_given (takes_keyword _)) fun _ => ?_
  exact takes_ite (takes_bind (takes_given (takes_keyword _)) fun _ => takes_pure _) (takes_pure _)

theorem takes_sortKeys : Takes sortKeys :=
  takes_bind
    (takes_optional (takes_bind (takes_keyword _) fun _ => takes_bind (takes_keyword _) fun _ =>
      takes_list takes_sortKey))
    fun _ => takes_pure _

/-- A query takes a front without slashes, through all of its optional parts. -/
theorem takes_query : Takes query :=
  takes_bind (takes_keyword _) fun _ => takes_bind (takes_given (takes_keyword _)) fun _ =>
  takes_bind (takes_list takes_item) fun _ => takes_bind (takes_keyword _) fun _ =>
  takes_bind takes_name fun _ => takes_bind takes_optAlias fun _ =>
  takes_bind takes_filter fun _ => takes_bind takes_sortKeys fun _ =>
  takes_bind (takes_optional (takes_bind (takes_keyword _) fun _ => takes_count)) fun _ =>
  takes_bind (takes_optional (takes_bind (takes_keyword _) fun _ => takes_count)) fun _ =>
    takes_pure _

/-! ### Commands -/

theorem takes_columnType : Takes columnType := by
  refine takes_orElse ?_ (takes_kind nofun)
  refine takes_bind (takes_word _) fun _ =>
    takes_bind (takes_optional (takes_parenthesized (takes_list takes_count))) fun sizes? => ?_
  split
  · exact takes_pure _
  · exact takes_getM _
  · exact takes_getM _
  · exact takes_failure

theorem takes_constraint : Takes constraint :=
  takes_orElse
    (takes_bind (takes_word _) fun _ => takes_bind (takes_word _) fun _ => takes_pure _)
    (takes_bind (takes_keyword _) fun _ => takes_bind (takes_keyword _) fun _ => takes_pure _)

theorem takes_createTable : Takes createTable :=
  takes_bind (takes_word _) fun _ => takes_bind (takes_word _) fun _ =>
  takes_bind takes_name fun _ =>
  takes_bind (takes_parenthesized (takes_list
    (takes_bind takes_name fun _ => takes_bind takes_columnType fun _ =>
      takes_bind (takes_optional takes_constraint) fun _ => takes_pure _))) fun _ => takes_pure _

theorem takes_dropTable : Takes dropTable :=
  takes_bind (takes_word _) fun _ => takes_bind (takes_word _) fun _ =>
  takes_bind (takes_given (takes_bind (takes_word _) fun _ => takes_word _)) fun _ =>
  takes_bind takes_name fun _ => takes_pure _

theorem takes_insert : Takes insert :=
  takes_bind (takes_word _) fun _ => takes_bind (takes_word _) fun _ =>
  takes_bind takes_name fun _ => takes_bind (takes_word _) fun _ =>
  takes_bind (takes_list (takes_parenthesized (takes_list takes_literal))) fun _ => takes_pure _

theorem takes_update : Takes update :=
  takes_bind (takes_word _) fun _ => takes_bind takes_name fun _ =>
  takes_bind (takes_word _) fun _ =>
  takes_bind (takes_list (takes_bind takes_name fun _ =>
    takes_bind (takes_symbol (by decide)) fun _ => takes_bind takes_literal fun _ =>
      takes_pure _)) fun _ =>
  takes_bind takes_filter fun _ => takes_pure _

theorem takes_delete : Takes delete :=
  takes_bind (takes_word _) fun _ => takes_bind (takes_keyword _) fun _ =>
  takes_bind takes_name fun _ => takes_bind takes_filter fun _ => takes_pure _

/-- Every command does, and so the first words of the text announce all of them. -/
theorem takes_command : Takes command :=
  takes_orElse takes_createTable <| takes_orElse takes_dropTable <| takes_orElse takes_insert <|
  takes_orElse takes_update <| takes_orElse takes_delete <| takes_map _ takes_query

/-! ## How commands begin -/

/-- Every value that is read satisfies `P`. -/
def Gives (r : CommandReader α) (P : α → Prop) : Prop :=
  ∀ ts a rest, r ts = some (a, rest) → P a

theorem gives_pure {P : α → Prop} {a : α} (h : P a) : Gives (pure a : CommandReader α) P := by
  intro ts b rest hread
  cases hread
  exact h

/-- What a sequence gives is what its last reader gives. -/
theorem gives_bind {P : β → Prop} {f : α → CommandReader β} (h : ∀ a, Gives (f a) P) :
    Gives (r >>= f) P := by
  intro ts b rest hread
  obtain ⟨a, mid, -, hb⟩ := bind_some hread
  exact h a mid b rest hb

end CommandReader

/-- The word that a command begins with. -/
def Command.word : Command → String
  | createTable _ _ => "CREATE"
  | dropTable _ _ => "DROP"
  | insert _ _ => "INSERT"
  | update _ _ _ => "UPDATE"
  | delete _ _ => "DELETE"
  | query _ => "SELECT"

namespace CommandReader

/-- A command is announced by the first token that is taken for it. -/
def Begins (r : CommandReader Command) : Prop :=
  ∀ ts c rest, r ts = some (c, rest) → ∃ t more, ts = t :: more ∧ t.Reads c.word

/-- A reader that begins with a word gives the command of that word. -/
theorem begins_word {w : String} {f : Unit → CommandReader Command}
    (h : ∀ u, Gives (f u) fun c => c.word = Text.upper w) : Begins (word w >>= f) := by
  intro ts c rest hread
  obtain ⟨u, mid, hword, hrest⟩ := bind_some hread
  cases ts with
  | nil => exact nomatch hword
  | cons t ts =>
      obtain ⟨v, hv, -⟩ := Option.map_eq_some_iff.mp hword
      obtain ⟨hletters, -⟩ := Option.ite_none_right_eq_some.mp hv
      obtain ⟨hname, hsame⟩ := Bool.and_eq_true_iff.mp hletters
      refine ⟨t, ts, rfl, .inl ⟨eq_of_beq hname, ?_⟩⟩
      rw [h u mid c rest hrest, Sql.sameLetters_iff_upper.mp hsame]

/-- Alternatives may begin with different words. -/
theorem begins_orElse {r s : CommandReader Command} (hr : Begins r) (hs : Begins s) :
    Begins (r <|> s) := by
  intro ts c rest h
  rcases orElse_some h with h | h
  · exact hr ts c rest h
  · exact hs ts c rest h

/-- A query begins with SELECT. -/
theorem begins_query : Begins (Command.query <$> query) := by
  intro ts c rest h
  have h : (query >>= fun q => pure (Command.query q)) ts = some (c, rest) := h
  obtain ⟨q, mid, hquery, hdone⟩ := bind_some h
  cases hdone
  obtain ⟨u, behind, hselect, -⟩ := bind_some hquery
  cases ts with
  | nil => exact nomatch hselect
  | cons t ts =>
      obtain ⟨v, hv, -⟩ := Option.map_eq_some_iff.mp hselect
      obtain ⟨hkind, -⟩ := Option.ite_none_right_eq_some.mp hv
      exact ⟨t, ts, rfl, .inr ⟨.select, eq_of_beq hkind, rfl⟩⟩

/-- All commands begin with the word that says what they do. -/
theorem begins_command : Begins command := by
  refine begins_orElse ?_ <| begins_orElse ?_ <| begins_orElse ?_ <| begins_orElse ?_ <|
    begins_orElse ?_ begins_query
  · exact begins_word fun _ => gives_bind fun _ => gives_bind fun _ => gives_bind fun _ =>
      gives_pure rfl
  · exact begins_word fun _ => gives_bind fun _ => gives_bind fun _ => gives_bind fun _ =>
      gives_pure rfl
  · exact begins_word fun _ => gives_bind fun _ => gives_bind fun _ => gives_bind fun _ =>
      gives_bind fun _ => gives_pure rfl
  · exact begins_word fun _ => gives_bind fun _ => gives_bind fun _ => gives_bind fun _ =>
      gives_bind fun _ => gives_pure rfl
  · exact begins_word fun _ => gives_bind fun _ => gives_bind fun _ => gives_bind fun _ =>
      gives_pure rfl

/-- Every command that is read from tokens stands at the start of a statement. -/
theorem commandsUpTo_begins {n : Nat} {front ts : List Token} {cs : List Command} {c : Command}
    (h : commandsUpTo n ts = some cs) (hc : c ∈ cs) (hfront : Sql.AtStart front) :
    ∃ before t back, front ++ ts = before ++ t :: back ∧ Sql.AtStart before ∧ t.Reads c.word := by
  -- A command is found behind the front, or behind a semicolon, which starts a new one.
  induction n generalizing front ts cs with
  | zero => exact nomatch h
  | succ n ih =>
      cases ts with
      | nil =>
          cases h
          exact nomatch hc
      | cons t ts =>
          simp only [commandsUpTo] at h
          split at h
          · next hmark =>
              have hnext : Sql.AtStart (front ++ [] ++ [t]) :=
                hfront.semicolon (fun _ hu => nomatch hu) (eq_of_beq hmark)
              rw [List.append_nil] at hnext
              rw [List.append_cons]
              exact ih h hc hnext
          · split at h
            · next d hread =>
                cases h
                obtain rfl := List.mem_singleton.mp hc
                obtain ⟨u, back, hu, hreads⟩ := begins_command _ _ _ hread
                exact ⟨front, u, back, by rw [hu], hfront, hreads⟩
            · next d mark rest hread =>
                obtain ⟨hmark, hmap⟩ := Option.ite_none_right_eq_some.mp h
                obtain ⟨more, hmore, rfl⟩ := Option.map_eq_some_iff.mp hmap
                rcases List.mem_cons.mp hc with rfl | hc
                · obtain ⟨u, back, hu, hreads⟩ := begins_command _ _ _ hread
                  exact ⟨front, u, back, by rw [hu], hfront, hreads⟩
                · obtain ⟨used, hused, hnone⟩ := takes_command _ _ _ hread
                  obtain ⟨before, u, back, heq, hbefore⟩ :=
                    ih hmore hc (hfront.semicolon hnone (eq_of_beq hmark))
                  refine ⟨before, u, back, ?_, hbefore⟩
                  rw [← heq, hused]
                  simp
            · exact nomatch h

end CommandReader

/-- The first word of every command is one of the first words of the text. -/
theorem firstWord_of_parseAll {sql : String} {cs : List Command} {c : Command}
    (h : Command.parseAll? sql = some cs) (hc : c ∈ cs) : c.word ∈ Sql.firstKeywords sql := by
  obtain ⟨⟨lead, ts⟩, hstream, hcommands⟩ := Option.bind_eq_some_iff.mp h
  have hstart : Sql.AtStart [] := ⟨nofun, nofun⟩
  obtain ⟨before, t, back, hts, hbefore, hreads⟩ :=
    CommandReader.commandsUpTo_begins hcommands hc hstart
  have hts : ts = before ++ t :: back := hts
  rw [hts] at hstream
  exact Sql.mem_firstKeywords hstream hbefore hreads

/-- Whether a command leaves the tables that there are. -/
def Command.keepsTables : Command → Bool
  | createTable _ _ => false
  | dropTable _ _ => false
  | _ => true

/-- A text that is one statement which reads or writes rows neither makes nor drops a
    table. -/
theorem keepsTables_of_admissible {sql : String} {cs : List Command} (h : Sql.Admissible sql)
    (hcs : Command.parseAll? sql = some cs) : ∀ c ∈ cs, c.keepsTables := by
  intro c hc
  have hword := firstWord_of_parseAll hcs hc
  have hfour : ∀ ws ∈ [["SELECT"], ["INSERT"], ["UPDATE"], ["DELETE"]],
      ∀ w ∈ ws, w ≠ "CREATE" ∧ w ≠ "DROP" := by decide
  obtain ⟨hcreate, hdrop⟩ := hfour _ h _ hword
  cases c with
  | createTable name columns => exact absurd rfl hcreate
  | dropTable name ifExists => exact absurd rfl hdrop
  | _ => rfl

/-! ## Texts with a name in quotes -/

/-- The token of a name in double quotes. -/
def nameToken (name : String) : Token := ⟨.quoted, Connection.inQuotes name, ""⟩

/-- The name stands between two quotes as it is. -/
theorem toList_inQuotes (name : String) :
    (Connection.inQuotes name).toList = '"' :: (name.toList ++ ['"']) := by
  simp [Connection.inQuotes, String.toList_append]

/-- A name without double quotes in double quotes, behind a blank, is one token. -/
theorem stream_inQuotes {text lead name : String} (ts : List Token) {t : Token}
    (h : Sql.TokenStream.ofString? text = some ⟨lead, ts ++ [t]⟩) (hname : '"' ∉ name.toList)
    (hfinal : Sql.Lexer.IsFinal t) (hapart : (ts ++ [t]).IsChain Sql.Lexer.Apart)
    (hgap : t.gap = " ") :
    Sql.TokenStream.ofString? (text ++ Connection.inQuotes name)
      = some ⟨lead, ts ++ [t] ++ [nameToken name]⟩ := by
  have hchars : Sql.Lexer.chars [nameToken name] = (Connection.inQuotes name).toList := by
    simp [nameToken, Sql.Lexer.chars_cons]
  have hspelled : Sql.Lexer.Spelled [nameToken name] := by
    refine ⟨?_, ⟨false, .nil, by simp⟩, rfl, rfl, trivial⟩
    rw [nameToken, toList_inQuotes]
    exact .quoted fun c hc heq => hname (heq ▸ hc)
  have hblank : t.gap.toList = [' '] := by
    rw [hgap]
    decide
  have hstream := Sql.stream_append h hspelled
    (by rw [hchars, toList_inQuotes]
        exact Sql.Lexer.startsGap_cons _ (by decide) (by decide) (by decide))
    hfinal hapart (by rw [hblank]; exact .blank rfl .nil)
    (by rw [hblank]; exact Sql.joins_blank rfl _ _ _)
  rw [hchars, String.ofList_toList] at hstream
  rw [hstream, List.append_assoc, List.singleton_append]

namespace CommandReader

/-- A reader that is known goes first. -/
theorem bind_read {α β : Type} {r : CommandReader α} {f : α → CommandReader β}
    {ts mid : List Token} {a : α} (h : r ts = some (a, mid)) : (r >>= f) ts = f a mid := by
  show (r ts).bind (fun p => f p.1 p.2) = _
  rw [h]
  rfl

/-- The first alternative that reads something is taken. -/
theorem orElse_left {α : Type} {r s : CommandReader α} {ts : List Token} {x : α × List Token}
    (h : r ts = some x) : (r <|> s) ts = some x := by
  show (r ts <|> s ts) = _
  rw [h]
  rfl

/-- An alternative that fails is passed by. -/
theorem orElse_right {α : Type} {r s : CommandReader α} {ts : List Token} (h : r ts = none) :
    (r <|> s) ts = s ts := by
  show (r ts <|> s ts) = _
  rw [h]
  rfl

/-- A name in quotes is read as the name, if there is one. -/
theorem name_nameToken {n : String} (hn : n ≠ "") : name [nameToken n] = some (n, []) := by
  have hown : ((nameToken n).lexeme.toList.drop 1).dropLast = n.toList := by
    simp [nameToken, toList_inQuotes]
  have hchars : quotedChars [nameToken n] = some (n.toList, []) := by
    rw [← hown]
    rfl
  obtain ⟨c, cs, hcs⟩ := List.exists_cons_of_ne_nil (l := n.toList) (by simpa using hn)
  have hquoted : quotedName [nameToken n] = some (n, []) := by
    rw [quotedName, hchars, hcs]
    simp only [← hcs, String.ofList_toList]
  exact orElse_left hquoted

/-- The tokens in front of the name of a table that is dropped. -/
def dropTokens : List Token :=
  [⟨.name, "DROP", " "⟩, ⟨.name, "TABLE", " "⟩, ⟨.name, "IF", " "⟩, ⟨.name, "EXISTS", " "⟩]

/-- The tokens in front of the name of a table whose rows are counted. -/
def countTokens : List Token :=
  [⟨.keyword .select, "SELECT", " "⟩, ⟨.name, "COUNT", ""⟩, ⟨.symbol .openParen, "(", ""⟩,
    ⟨.symbol .star, "*", ""⟩, ⟨.symbol .closeParen, ")", " "⟩, ⟨.keyword .from, "FROM", " "⟩]

/-- The query for the number of the rows. -/
def countQuery (table : String) : Query := ⟨false, [.count none], table, none, none, [], none, 0⟩

/-- The tokens of a drop are the command that drops the table if it is there. -/
theorem command_drop {n : String} (hn : n ≠ "") :
    command (dropTokens ++ [nameToken n]) = some (.dropTable n true, []) := by
  have hdrop : dropTable (dropTokens ++ [nameToken n]) = some (.dropTable n true, []) := by
    refine (bind_read rfl).trans ?_
    refine (bind_read rfl).trans ?_
    refine (bind_read rfl).trans ?_
    exact (bind_read (name_nameToken hn)).trans rfl
  exact (orElse_right rfl).trans (orElse_left hdrop)

/-- The tokens of a count are the query that counts the rows. -/
theorem command_count {n : String} (hn : n ≠ "") :
    command (countTokens ++ [nameToken n]) = some (.query (countQuery n), []) := by
  have hquery : query (countTokens ++ [nameToken n]) = some (countQuery n, []) := by
    refine (bind_read rfl).trans ?_
    refine (bind_read rfl).trans ?_
    refine (bind_read rfl).trans ?_
    refine (bind_read rfl).trans ?_
    exact (bind_read (name_nameToken hn)).trans rfl
  have hdone : (query >>= fun q => pure (Command.query q)) (countTokens ++ [nameToken n])
      = some (.query (countQuery n), []) := (bind_read hquery).trans rfl
  iterate 5 refine (orElse_right rfl).trans ?_
  exact hdone

/-- Tokens of one command. -/
theorem commandsUpTo_one {t : Token} {ts : List Token} {c : Command} (n : Nat)
    (ht : t.isSymbol .semicolon = false) (h : command (t :: ts) = some (c, [])) :
    commandsUpTo (n + 1) (t :: ts) = some [c] := by
  rw [commandsUpTo, if_neg (by rw [ht]; decide), h]

end CommandReader

/-- The command that drops a table is read as it is meant. -/
theorem parseAll_drop {n : String} (h : PlainName n) :
    Command.parseAll? (Connection.dropText n) = some [.dropTable n true] := by
  have hfront : Sql.TokenStream.ofString? "DROP TABLE IF EXISTS "
      = some ⟨"", CommandReader.dropTokens⟩ := by decide +kernel
  have hstream := stream_inQuotes CommandReader.dropTokens.dropLast hfront h.2
    ⟨nofun, nofun, nofun⟩ (by simp [CommandReader.dropTokens, Sql.Lexer.Apart]) rfl
  have hread : Sql.TokenStream.ofString? (Connection.dropText n) = _ := hstream
  rw [Command.parseAll?, hread, Option.bind_some]
  exact CommandReader.commandsUpTo_one _ rfl (CommandReader.command_drop h.1)

/-- So is the command that counts the rows of a table. -/
theorem parseAll_count {n : String} (h : PlainName n) :
    Command.parseAll? (Connection.countText n) = some [.query (CommandReader.countQuery n)] := by
  have hfront : Sql.TokenStream.ofString? "SELECT COUNT(*) FROM "
      = some ⟨"", CommandReader.countTokens⟩ := by decide +kernel
  have hstream := stream_inQuotes CommandReader.countTokens.dropLast hfront h.2
    ⟨nofun, nofun, nofun⟩ (by simp [CommandReader.countTokens, Sql.Lexer.Apart]) rfl
  have hread : Sql.TokenStream.ofString? (Connection.countText n) = _ := hstream
  rw [Command.parseAll?, hread, Option.bind_some]
  exact CommandReader.commandsUpTo_one _ rfl (CommandReader.command_count h.1)

end QueryReplay
