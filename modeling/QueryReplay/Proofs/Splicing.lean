import QueryReplay.Proofs.Cutting

/-! # Splicing — further items at the end of a SELECT list

    `withSelectAppended?` puts a comma and further items behind the text of a
    SELECT list and cuts the statement before some clause.  That text is told by
    where the list was read to, and two things can go wrong at its end:

    * it ends inside a line comment, which swallows the further items
      (`endsInComment`);
    * FROM stands right behind it, and the last further item runs into FROM
      (`runsInto`).

    In all other cases the items are added and nothing else changes, and in these
    two the text never says what it should (`says_withSelectAppended_iff`). -/

namespace QueryReplay.Sql

open QueryReplay.Sql.Parser QueryReplay.Sql.StatementParser
open QueryReplay.Sql.ExprParser (expr)
open QueryReplay.Text (bytes slice)
open Lexer (chars Spelled Gap Lexeme startsGap joins isGapBlank isWordChar isWordStart)

/-! ## The text of a spliced statement -/

/-- Whether a text ends inside a line comment. -/
def endsInComment (text : String) : Bool :=
  match TokenStream.ofString? text with
  | some ts => Lexer.endsOpen ((ts.tokens.getLast?.map Token.gap).getD ts.lead).toList
  | none => false

/-- Whether the last word of a text and the first of the text behind it would be one. -/
def runsInto (text behind : String) : Bool :=
  text.toList.getLast?.any isWordChar && behind.toList.head?.any isWordChar

theorem endsInComment_of_stream {text lead : String} {ts : List Token} {t : Token} {o : Bool}
    (h : TokenStream.ofString? text = some ⟨lead, ts ++ [t]⟩) (hgap : Gap o t.gap.toList) :
    endsInComment text = o := by
  rw [endsInComment, h]
  show Lexer.endsOpen (((ts ++ [t]).getLast?.map Token.gap).getD lead).toList = o
  rw [List.getLast?_concat]
  exact Lexer.endsOpen_eq hgap

/-- A statement cut before a clause is a front of the statement. -/
theorem truncateBefore_front (d : Descriptor) (k : ClauseKind) :
    ∃ behind, d.sql.toList = (d.truncateBefore k).toList ++ behind := by
  obtain ⟨blanks, hblanks, -, -⟩ :=
    Text.dropTrailing_split Text.isBlank (slice d.sql 0 (d.cutBefore k)).toList
  refine ⟨blanks ++ Text.dropBytes (d.cutBefore k) d.sql.toList, ?_⟩
  have hslice : (slice d.sql 0 (d.cutBefore k)).toList
      = Text.takeBytes (d.cutBefore k) d.sql.toList := by
    rw [slice, String.toList_ofList, Nat.sub_zero, show Text.dropBytes 0 d.sql.toList = d.sql.toList
      from Text.dropBytes_append [] d.sql.toList]
  rw [Descriptor.truncateBefore, Text.trimEnd, String.toList_ofList, ← List.append_assoc, ← hblanks,
    hslice, Text.takeBytes_append_dropBytes]

namespace Layout

variable {sql : String} {s : Select} {k : ClauseKind} (l : Layout sql s k)

/-- The characters through the end of the SELECT list. -/
def listChars : List Char :=
  l.lead.toList ++ (chars (l.words ++ l.front) ++ (l.t.lexeme.toList ++ l.gap))

theorem chars_eq : l.lead.toList ++ chars (l.words ++ (l.front ++ l.t :: l.body))
    = l.listChars ++ (l.back ++ chars l.body) := by
  rw [listChars, Lexer.chars_append, Lexer.chars_append, Lexer.chars_append, Lexer.chars_cons,
    l.gap_eq]
  simp only [List.append_assoc]

theorem truncateBefore_eq : (Descriptor.extract sql).truncateBefore k
    = String.ofList (l.listChars ++ (l.back ++ chars l.body)) := by
  rw [← l.chars_eq, ← String.ofList_toList (s := (Descriptor.extract sql).truncateBefore k)]
  exact congrArg String.ofList (toList_of_stream l.stream)

/-- The statement from the SELECT list on. -/
theorem sql_eq : ∃ behind, sql = String.ofList (l.listChars ++ (l.back ++ chars l.body ++ behind)) := by
  obtain ⟨behind, hbehind⟩ := truncateBefore_front (Descriptor.extract sql) k
  refine ⟨behind, ?_⟩
  rw [l.truncateBefore_eq, String.toList_ofList] at hbehind
  rw [← List.append_assoc, ← hbehind, Descriptor.extract, String.ofList_toList]

theorem stop_eq' : s.itemsSpan.stop = bytes l.listChars := l.stop_eq

/-- The text through the end of the SELECT list. -/
theorem slice_list : slice sql 0 s.itemsSpan.stop = String.ofList l.listChars := by
  obtain ⟨behind, hsql⟩ := l.sql_eq
  rw [l.stop_eq']
  exact (congrArg (slice · 0 (bytes l.listChars)) hsql).trans (Text.slice_front _ _)

/-- The text that is put together. -/
theorem withSelectAppended_eq (h : Sql.parse sql = .ok s) (extra : String) :
    (Descriptor.extract sql).withSelectAppended? extra k
      = some (String.ofList l.listChars ++ ", " ++ extra
        ++ String.ofList (l.back ++ chars l.body)) := by
  obtain ⟨behind, hsql⟩ := l.sql_eq
  have hselect := Descriptor.select?_extract h
  have hcut : ((Descriptor.extract sql).truncateBefore k).utf8ByteSize
      = bytes l.listChars + bytes (l.back ++ chars l.body) := by
    rw [l.truncateBefore_eq, Text.utf8ByteSize_ofList, Text.bytes_append]
  have hbehind : slice sql s.itemsSpan.stop ((Descriptor.extract sql).truncateBefore k).utf8ByteSize
      = String.ofList (l.back ++ chars l.body) := by
    rw [hcut, l.stop_eq']
    exact (congrArg (slice · _ _) hsql).trans (Text.slice_middle _ _ _)
  rw [Descriptor.withSelectAppended?, hselect]
  show (if s.itemsSpan.stop ≤ _ then some (slice sql 0 s.itemsSpan.stop ++ ", " ++ extra
    ++ slice sql s.itemsSpan.stop _) else none) = _
  rw [hbehind, l.slice_list, if_pos (by rw [hcut, l.stop_eq']; exact Nat.le_add_right _ _)]

/-- The text through the end of the SELECT list, in tokens. -/
theorem list_stream : TokenStream.ofString? (String.ofList l.listChars)
    = some ⟨l.lead, l.words ++ l.front ++ [{ l.t with gap := String.ofList l.gap }]⟩ := by
  have hstream := l.stream
  rw [← List.append_assoc] at hstream
  exact stream_cut hstream l.gap_eq l.halves.front_gap

theorem endsInComment_eq : endsInComment (slice sql 0 s.itemsSpan.stop) = l.swallows := by
  rw [l.slice_list]
  refine endsInComment_of_stream l.list_stream ?_
  rw [String.toList_ofList]
  exact l.halves.front_gap

theorem shape : ItemShape l.front l.t := l.listed.shape

theorem spelled_body : Spelled l.body := by
  have hspelled := spelled_of_stream l.stream
  rw [← List.append_assoc, List.append_cons] at hspelled
  exact hspelled.behind

/-- Behind the SELECT list stand FROM and a table. -/
theorem body_eq : ∃ f a name tail, l.body = f :: a :: tail ∧ f.kind = .keyword .from
    ∧ a.identifier? = some name := by
  obtain ⟨joins, clauses, hbody, -⟩ :=
    l.readsBody l.b.gap l.rest 0 (l.bodyFront.length + 2) l.ended (Nat.le_refl _)
  obtain ⟨sources, taken, hfrom, htables, -⟩ := hbody.read
  obtain ⟨f, hf, hkind⟩ := keyword_some hfrom
  unfold commaList table at htables
  cases hname : identifier sources with
  | none => rw [hname] at htables; exact nomatch htables
  | some name =>
      obtain ⟨a, ha, hidentifier⟩ := identifier_some hname
      exact ⟨f, a, name.value, name.rest, hf.trans (congrArg (f :: ·) ha), hkind, hidentifier⟩

/-- What is behind the SELECT list begins with a word. -/
theorem body_word : ∃ c cs, chars l.body = c :: cs ∧ isWordStart c = true := by
  obtain ⟨f, a, name, tail, hbody, hf, -⟩ := l.body_eq
  have hspelled := l.spelled_body
  rw [hbody] at hspelled ⊢
  obtain ⟨c, more, hlexeme, hstart, -⟩ := hspelled.1.keyword hf
  exact ⟨c, _, by rw [Lexer.chars_cons, hlexeme]; rfl, hstart⟩

theorem startsGap_body : startsGap (chars l.body) = false := by
  obtain ⟨c, cs, hchars, hstart⟩ := l.body_word
  rw [hchars]
  exact Lexer.startsGap_wordChar (Lexer.isWordChar_of_isWordStart hstart) cs

/-- The text behind the SELECT list. -/
theorem slice_behind : ∃ behind, slice sql s.itemsSpan.stop sql.utf8ByteSize
    = String.ofList (l.back ++ chars l.body ++ behind) := by
  obtain ⟨behind, hsql⟩ := l.sql_eq
  have hsize : sql.utf8ByteSize
      = bytes l.listChars + bytes (l.back ++ chars l.body ++ behind) := by
    rw [← Text.bytes_append, ← Text.utf8ByteSize_ofList]
    exact congrArg String.utf8ByteSize hsql
  have hwhole : sql
      = String.ofList (l.listChars ++ (l.back ++ chars l.body ++ behind ++ [])) := by
    rw [List.append_nil]
    exact hsql
  rw [hsize, l.stop_eq']
  exact ⟨behind, (congrArg (slice · _ _) hwhole).trans (Text.slice_middle _ _ _)⟩

/-- Behind a closed list a word begins exactly when nothing of the gap is left. -/
theorem head_behind (h : l.swallows = false) (cs : List Char) :
    (l.back ++ chars l.body ++ cs).head?.any isWordChar = l.back.isEmpty := by
  have hback : Gap false l.back := by
    have hhalves := l.halves
    rw [h] at hhalves
    cases hhalves with
    | closed _ hback => exact hback
  obtain ⟨c, more, hchars, hstart⟩ := l.body_word
  rw [hchars]
  cases hl : l.back with
  | nil => exact Lexer.isWordChar_of_isWordStart hstart
  | cons d back =>
      rw [hl] at hback
      exact hback.head_wordChar

end Layout

/-! ## Further items -/

/-- The items of a list without comments in which every item has an alias. -/
def aliasedItems? (text : String) : Option (List SelectItem) := do
  let stream ← TokenStream.ofString? text
  let list ← commaList (item (expr (stream.tokens.length + 1))) stream.tokens
  if list.rest.isEmpty && list.value.all SelectItem.isAliased
      && (stream.lead :: stream.tokens.map Token.gap).all (·.toList.all isGapBlank) then
    some (list.value.map SelectItem.bare)
  else none

/-- Such a list as its tokens; the last of them is the last alias. -/
structure Extra (text : String) (items : List SelectItem) where
  lead : String
  front : List Token
  u : Token
  name : String
  stream : TokenStream.ofString? text = some ⟨lead, front ++ [u]⟩
  identifier : u.identifier? = some name
  listed : Listed front u items
  items_ne : items ≠ []
  lead_blank : ∀ c ∈ lead.toList, isGapBlank c = true
  gap_blank : ∀ c ∈ u.gap.toList, isGapBlank c = true
  /-- With another last alias and in front of other tokens it is still a list. -/
  segments : ∀ {u' : Token} {name' : String} (rest : List Token) {depth : Nat},
    u'.identifier? = some name' → front.length + 2 ≤ depth →
    ∃ vs, Segments (item (expr depth)) rest (front ++ u' :: rest) vs

theorem extra_of_aliasedItems {text : String} {items : List SelectItem}
    (h : aliasedItems? text = some items) : Nonempty (Extra text items) := by
  obtain ⟨⟨lead, tokens⟩, hstream, h⟩ := Option.bind_eq_some_iff.mp h
  obtain ⟨list, hlist, h⟩ := Option.bind_eq_some_iff.mp h
  split at h
  · rename_i hcond
    obtain rfl := Option.some.inj h
    rw [Bool.and_eq_true, Bool.and_eq_true, List.isEmpty_iff] at hcond
    obtain ⟨⟨hrest, haliased⟩, hblank⟩ := hcond
    have hsegments := segments_of_commaList hlist
    rw [hrest] at hsegments
    obtain ⟨front, u, name, htokens, hu, hagain⟩ :=
      segments_aliased hsegments haliased (Nat.lt_succ_self _)
    obtain ⟨front', u', htokens', hlisted⟩ :=
      listed_of_segments hsegments Edge.nil (Nat.lt_succ_self _)
    obtain ⟨rfl, hlast⟩ := List.append_inj' (htokens'.symm.trans htokens) rfl
    obtain rfl := (List.cons.inj hlast).1
    have hblanks : ∀ gap ∈ lead :: tokens.map Token.gap, ∀ c ∈ gap.toList, isGapBlank c = true :=
      fun gap hgap => List.all_eq_true.mp (List.all_eq_true.mp hblank gap hgap)
    obtain rfl : tokens = front' ++ [u'] := htokens
    have hgap : u'.gap ∈ (front' ++ [u']).map Token.gap :=
      List.mem_map_of_mem (List.mem_append_right _ List.mem_cons_self)
    exact ⟨⟨lead, front', u', name, hstream, hu, hlisted, hlisted.ne_nil,
      hblanks _ List.mem_cons_self, hblanks _ (List.mem_cons_of_mem _ hgap), hagain⟩⟩
  · exact nomatch h

namespace Extra

variable {text : String} {items : List SelectItem} (x : Extra text items)

/-- The comma in front, with the blank behind it. -/
def comma : Token := ⟨.symbol .comma, ",", String.ofList (' ' :: x.lead.toList)⟩

/-- The comma and the items behind it but for the last token. -/
def behindComma : List Token := x.comma :: x.front

/-- The items end in a word exactly when the last token is one without a gap. -/
theorem endsInWord_eq :
    text.toList.getLast?.any isWordChar = (x.u.kind == .name && x.u.gap.toList.isEmpty) := by
  have htext : text.toList
      = x.lead.toList ++ chars x.front ++ x.u.lexeme.toList ++ x.u.gap.toList := by
    rw [toList_of_stream x.stream, Lexer.chars_append, Lexer.chars_cons]
    simp only [Lexer.chars_nil, List.append_nil, List.append_assoc]
  have hlexeme : Lexeme x.u.kind x.u.lexeme.toList := lexeme_of_spelled (spelled_of_stream x.stream)
  rw [htext]
  rcases List.eq_nil_or_concat x.u.gap.toList with hgap | ⟨gap, c, hgap⟩
  · rw [hgap, List.append_nil, List.getLast?_append_of_ne_nil _ hlexeme.ne_nil, List.isEmpty_nil,
      Bool.and_true]
    rcases Token.kind_of_identifier x.identifier with hk | hk
    · obtain ⟨c, rest, hcs, hstart, hrest, -⟩ := hlexeme.isWord (.inl hk)
      have hall : ∀ d ∈ x.u.lexeme.toList, isWordChar d = true := by
        rw [hcs]
        exact List.forall_mem_cons.mpr ⟨Lexer.isWordChar_of_isWordStart hstart, hrest⟩
      rcases List.eq_nil_or_concat x.u.lexeme.toList with hnil | ⟨front, d, hd⟩
      · exact absurd hnil hlexeme.ne_nil
      · have hword := hall d (by rw [hd]; simp)
        rw [hd, List.concat_eq_append, List.getLast?_concat, hk]
        exact hword
    · obtain ⟨body, hcs, -⟩ := hlexeme.inQuotes hk
      rw [hcs, hk, ← List.cons_append, List.getLast?_concat]
      rfl
  · have hblank : isWordChar c = false := by
      have hc : isGapBlank c = true := x.gap_blank c (by rw [hgap]; simp)
      exact (Lexer.Gap.blank hc .nil).head_wordChar
    rw [hgap, List.concat_eq_append, ← List.append_assoc, List.getLast?_concat]
    simp [hblank]

end Extra

/-! ## Spliced statements -/

section Spliced

variable {sql extra : String} {s : Select} {k : ClauseKind} {items : List SelectItem}
  (l : Layout sql s k) (x : Extra extra items)

/-- The SELECT list of the statement and the further items behind it. -/
def splicedFront : List Token :=
  l.front ++ { l.t with gap := String.ofList l.gap } :: x.behindComma

theorem spliced_listed :
    Listed (splicedFront l x) x.u (s.items.map SelectItem.bare ++ items) :=
  l.listed.append rfl x.listed _

theorem spliced_undistinct (h : s.distinct = false) (ts : List Token) :
    keyword .distinct (splicedFront l x ++ ts) = none := by
  rw [splicedFront, List.append_assoc]
  exact keyword_gap (l.undistinct h) _ _

/-- Behind a closed list the further items are cut into their tokens. -/
theorem spliced_stream (hclosed : l.swallows = false) :
    TokenStream.ofString? (String.ofList l.listChars ++ ", " ++ extra)
      = some ⟨l.lead, l.words ++ splicedFront l x ++ [x.u]⟩ := by
  have hstream := stream_comma l.list_stream l.shape.final
    (by rw [List.append_assoc]; exact l.heads.apart (l.shape.gap _).apart)
    (by rw [String.toList_ofList]; exact hclosed ▸ l.halves.front_gap) x.stream
  rw [hstream, splicedFront, Extra.behindComma, Extra.comma]
  simp only [List.append_assoc, List.cons_append]

theorem runsInto_eq (hclosed : l.swallows = false) :
    runsInto extra (slice sql s.itemsSpan.stop sql.utf8ByteSize)
      = (x.u.kind == .name && x.u.gap.toList.isEmpty && l.back.isEmpty) := by
  obtain ⟨behind, hbehind⟩ := l.slice_behind
  rw [runsInto, hbehind, String.toList_ofList, l.head_behind hclosed, x.endsInWord_eq]

theorem Layout.back_gap (hclosed : l.swallows = false) : Gap false l.back := by
  have hhalves := l.halves
  rw [hclosed] at hhalves
  cases hhalves with
  | closed _ hback => exact hback

/-- Further items that do not run into FROM are added to a closed list. -/
theorem parse_spliced (x : Extra extra items) (hclosed : l.swallows = false)
    (hapart : runsInto extra (slice sql s.itemsSpan.stop sql.utf8ByteSize) = false) :
    ∃ s', parse (String.ofList l.listChars ++ ", " ++ extra ++ String.ofList (l.back ++ chars l.body))
        = .ok s'
      ∧ s'.tree = { s.tree.upTo k with items := s.items.map SelectItem.bare ++ items } := by
  have hlisted := spliced_listed l x
  have hjoins : joins x.u.kind x.u.lexeme.toList (x.u.gap.toList ++ l.back ++ chars l.body)
      = false := by
    -- the alias of the last new item must not run into FROM, which a quoted one cannot
    rcases Token.kind_of_identifier x.identifier with hk | hk
    · rw [runsInto_eq l x hclosed, hk] at hapart
      rw [hk]
      show (x.u.gap.toList ++ l.back ++ chars l.body).head?.any isWordChar = false
      cases hgap : x.u.gap.toList with
      | nil =>
          rw [hgap] at hapart
          have hhead := l.head_behind hclosed []
          rw [List.append_nil] at hhead
          rw [List.nil_append, hhead]
          exact hapart
      | cons c gap =>
          have hc : isGapBlank c = true := x.gap_blank c (by rw [hgap]; exact List.mem_cons_self)
          exact (Gap.blank hc .nil).head_wordChar
    · rw [hk]
      rfl
  have hstream := stream_behind (spliced_stream l x hclosed) hlisted.shape.final
    (by rw [List.append_assoc]; exact l.heads.apart hlisted.shape.apart) l.spelled_body
    l.startsGap_body ((Lexer.gap_of_blanks x.gap_blank).append (l.back_gap hclosed)) nofun hjoins
  rw [List.append_assoc] at hstream
  exact l.parse hstream (fun h => spliced_undistinct l x h _)
    (hlisted.gap _)

/-- What is put on one line behind a list that ends inside a comment is lost. -/
theorem Layout.parse_swallowed (hopen : l.swallows = true) {cs : List Char}
    (hline : ∀ c ∈ cs, c ≠ '\n') :
    ∃ s', Sql.parse (String.ofList (l.listChars ++ (cs ++ (l.back ++ chars l.body)))) = .ok s'
      ∧ s'.tree = s.tree.upTo k := by
  have hgap : Gap false (l.gap ++ (cs ++ l.back)) := by
    have hhalves := l.halves
    rw [hopen] at hhalves
    cases hhalves with
    | swallow _ h => exact h cs hline
  have hne : l.gap ≠ [] := by
    have hfront := l.halves.front_gap
    rw [hopen] at hfront
    intro hnil
    rw [hnil] at hfront
    exact nomatch hfront
  have hspelled := (spelled_of_stream l.list_stream).behind
  have hlexeme : Lexeme l.t.kind l.t.lexeme.toList := hspelled.1
  have hjoins : joins l.t.kind l.t.lexeme.toList l.gap = false := by
    have hjoins := hspelled.2.2.2.1
    rw [String.toList_ofList, Lexer.chars_nil, List.append_nil] at hjoins
    exact hjoins
  -- the gap behind the last item takes up what is appended, as all of it is one comment
  have hseam : Spelled ({ l.t with gap := String.ofList (l.gap ++ (cs ++ l.back)) } :: l.body) := by
    refine ⟨hlexeme, ⟨false, ?_, nofun⟩, l.startsGap_body, ?_, l.spelled_body⟩
    · rw [String.toList_ofList]
      exact hgap
    · rw [String.toList_ofList, List.append_assoc]
      exact l.halves.front_gap.not_joins hne hjoins _
  have hstream := stream_replaceLast l.list_stream l.shape.final
    (by rw [List.append_assoc]; exact l.heads.apart (l.shape.gap _).apart) hseam
    (List.append_nil _).symm
  have htext : l.listChars ++ (cs ++ (l.back ++ chars l.body))
      = l.lead.toList ++ chars (l.words ++ l.front
        ++ { l.t with gap := String.ofList (l.gap ++ (cs ++ l.back)) } :: l.body) := by
    rw [Lexer.chars_append, Lexer.chars_cons, String.toList_ofList, Layout.listChars]
    simp only [List.append_assoc]
  rw [← htext, List.append_assoc l.words] at hstream
  exact l.parse hstream (fun h => keyword_gap (l.undistinct h) _ _) (l.listed.gap _)

/-- A word is a keyword in any letter case. -/
theorem word_of_wordKind {cs : List Char} {k : Keyword} (h : Lexer.wordKind cs = .keyword k) :
    k.word.toList = cs.map Char.toLower := by
  unfold Lexer.wordKind at h
  split at h
  · rename_i j hj
    obtain rfl : j = k := TokenKind.keyword.inj h
    have hlower := List.find?_some hj
    rw [beq_iff_eq.mp hlower, Text.lower, String.toList_ofList, String.toList_ofList]
  · exact nomatch h

/-- Every word is a keyword or a name. -/
theorem wordKind_cases (cs : List Char) :
    (∃ k, Lexer.wordKind cs = .keyword k) ∨ Lexer.wordKind cs = .name := by
  unfold Lexer.wordKind
  split
  · exact .inl ⟨_, rfl⟩
  · exact .inr rfl

/-- A longer word that ends in FROM is no keyword. -/
theorem wordKind_endsInFrom {word from' : List Char} (hword : word ≠ [])
    (hfrom : Lexer.wordKind from' = .keyword .from) : Lexer.wordKind (word ++ from') = .name := by
  have hends : ∀ k : Keyword, ['f', 'r', 'o', 'm'] <:+ k.word.toList → k = .from := by
    intro k
    cases k <;> decide
  have hlast : from'.map Char.toLower = ['f', 'r', 'o', 'm'] := by
    rw [← word_of_wordKind hfrom]
    decide
  rcases wordKind_cases (word ++ from') with ⟨k, hkind⟩ | hname
  · have hletters := word_of_wordKind hkind
    rw [List.map_append, hlast] at hletters
    obtain rfl := hends k ⟨_, hletters.symm⟩
    have hlen := congrArg List.length hletters
    simp only [List.length_append, List.length_map] at hlen
    have hpos := List.length_pos_iff.mpr hword
    have hfour : Keyword.from.word.toList.length = 4 := by decide
    simp only [List.length_cons, List.length_nil] at hlen
    omega
  · exact hname

/-- A name that runs into FROM is one name with it. -/
theorem spelled_intoFrom {u f : Token} {rest : List Token} (hu : Lexeme u.kind u.lexeme.toList)
    (hk : u.kind = .name) (hf : f.kind = .keyword .from) (h : Spelled (f :: rest)) :
    Spelled (⟨.name, String.ofList (u.lexeme.toList ++ f.lexeme.toList), f.gap⟩ :: rest) := by
  obtain ⟨hfrom, hgap, hstart, hjoins, hrest⟩ := h
  obtain ⟨c, cs, hcs, hcstart, hcrest, -⟩ := hu.isWord (.inl hk)
  obtain ⟨d, ds, hds, hdstart, hdrest, hfkind⟩ := hfrom.isWord (.inr ⟨_, hf⟩)
  have hword : Lexer.wordKind (u.lexeme.toList ++ f.lexeme.toList) = .name :=
    wordKind_endsInFrom hu.ne_nil (hfkind.symm.trans hf)
  have hletters : ∀ e ∈ cs ++ f.lexeme.toList, isWordChar e = true := by
    intro e he
    rcases List.mem_append.mp he with he | he
    · exact hcrest e he
    · rw [hds] at he
      rcases List.mem_cons.mp he with rfl | he
      · exact Lexer.isWordChar_of_isWordStart hdstart
      · exact hdrest e he
  have hlexeme : Lexeme .name (u.lexeme.toList ++ f.lexeme.toList) := by
    have hshape := Lexeme.word hcstart hletters
    rw [← List.cons_append, ← hcs, hword] at hshape
    exact hshape
  refine ⟨?_, hgap, hstart, ?_, hrest⟩
  · rw [String.toList_ofList]
    exact hlexeme
  · rw [hf] at hjoins
    exact hjoins

/-- Further items that run into FROM take its place. -/
theorem stream_runTogether (hclosed : l.swallows = false)
    (hjoined : runsInto extra (slice sql s.itemsSpan.stop sql.utf8ByteSize) = true) :
    ∃ f a name word tail, l.body = f :: a :: tail ∧ a.identifier? = some name ∧ word.kind = .name
      ∧ TokenStream.ofString?
          (String.ofList l.listChars ++ ", " ++ extra ++ String.ofList (l.back ++ chars l.body))
        = some ⟨l.lead, l.words ++ (splicedFront l x ++ word :: a :: tail)⟩ := by
  rw [runsInto_eq l x hclosed, Bool.and_eq_true, Bool.and_eq_true, beq_iff_eq, List.isEmpty_iff,
    List.isEmpty_iff] at hjoined
  obtain ⟨⟨hk, hgap⟩, hback⟩ := hjoined
  obtain ⟨f, a, name, tail, hbody, hf, ha⟩ := l.body_eq
  have hspelled := l.spelled_body
  rw [hbody] at hspelled
  have hlast : Lexeme x.u.kind x.u.lexeme.toList := lexeme_of_spelled (spelled_of_stream x.stream)
  -- the alias and FROM are spelled as one word, which is a name
  have hseam := spelled_intoFrom hlast hk hf hspelled
  have hlisted := spliced_listed l x
  have hstream := stream_replaceLast (spliced_stream l x hclosed) hlisted.shape.final
    (by rw [List.append_assoc]; exact l.heads.apart hlisted.shape.apart) hseam String.toList_ofList
  have htext : String.ofList (l.lead.toList ++ chars (l.words ++ splicedFront l x
        ++ ⟨.name, String.ofList (x.u.lexeme.toList ++ f.lexeme.toList), f.gap⟩ :: a :: tail))
      = String.ofList l.listChars ++ ", " ++ extra ++ String.ofList (l.back ++ chars l.body) := by
    have hfront := toList_of_stream (spliced_stream l x hclosed)
    rw [Lexer.chars_append, Lexer.chars_cons, hgap, Lexer.chars_nil, List.append_nil,
      List.append_nil] at hfront
    rw [← String.toList_inj, String.toList_ofList, String.toList_append, String.toList_ofList,
      hfront, hback, hbody, Lexer.chars_append, Lexer.chars_cons, Lexer.chars_cons f,
      String.toList_ofList]
    simp only [List.append_assoc, List.nil_append]
  rw [htext, List.append_assoc] at hstream
  exact ⟨f, a, name, _, tail, hbody, ha, rfl, hstream⟩

/-- So no FROM is left. -/
theorem parse_runTogether (x : Extra extra items) (hclosed : l.swallows = false)
    (hjoined : runsInto extra (slice sql s.itemsSpan.stop sql.utf8ByteSize) = true) (s' : Select) :
    parse (String.ofList l.listChars ++ ", " ++ extra ++ String.ofList (l.back ++ chars l.body))
      ≠ .ok s' := by
  obtain ⟨f, a, name, word, tail, -, ha, hword, hstream⟩ := stream_runTogether l x hclosed hjoined
  -- the list is read through that name, and a table stands behind it
  have hkind := Token.kind_of_identifier ha
  have hcomma : symbol .comma (a :: tail) = none := by
    refine if_neg (fun h => ?_)
    rw [beq_iff_eq.mp (show (a.kind == .symbol .comma) = true from h)] at hkind
    rcases hkind with h | h <;> exact nomatch h
  have hfrom : keyword .from (a :: tail) = none := by
    refine if_neg (fun h => ?_)
    rw [beq_iff_eq.mp (show (a.kind == .keyword .from) = true from h)] at hkind
    rcases hkind with h | h <;> exact nomatch h
  refine parse_ne_ok hstream l.heads (fun h => spliced_undistinct l x h _) (fun depth hdepth => ?_)
    hcomma hfrom s'
  have hname : word.identifier? = some word.lexeme := by rw [Token.identifier?, hword]
  rw [splicedFront, Extra.behindComma] at hdepth ⊢
  simp only [List.length_append, List.length_cons] at hdepth
  obtain ⟨vs, hsegments⟩ := @Extra.segments _ _ x word _ (a :: tail) depth hname (by omega)
  obtain ⟨vs', hwhole⟩ := l.listed.segments_before (String.ofList l.gap)
    (show x.comma.kind = .symbol .comma from rfl) (by omega) hsegments
  refine ⟨vs', ?_⟩
  rw [List.append_assoc, List.cons_append, List.cons_append]
  exact hwhole

end Spliced

/-- Further items are added to the SELECT list of a statement, which keeps all
    else before the clause, exactly when its list does not end inside a line
    comment and they do not run into FROM.  A comment swallows them as far as
    they are on one line. -/
theorem says_withSelectAppended_iff {sql extra : String} {s : Select} {items : List SelectItem}
    (h : parse sql = .ok s) (hextra : aliasedItems? extra = some items) (k : ClauseKind)
    (hline : endsInComment (slice sql 0 s.itemsSpan.stop) = true → '\n' ∉ extra.toList) :
    ∃ text, (Descriptor.extract sql).withSelectAppended? extra k = some text
      ∧ (Says text { s.tree.upTo k with items := s.tree.items ++ items }
        ↔ endsInComment (slice sql 0 s.itemsSpan.stop) = false
          ∧ runsInto extra (slice sql s.itemsSpan.stop sql.utf8ByteSize) = false) := by
  obtain ⟨l⟩ := layout_of_parse h k
  obtain ⟨x⟩ := extra_of_aliasedItems hextra
  refine ⟨_, l.withSelectAppended_eq h extra, ?_⟩
  rw [l.endsInComment_eq] at hline ⊢
  cases hswallows : l.swallows with
  | true =>
      refine iff_of_false (fun hsays => ?_) (fun hcond => nomatch hcond.1)
      have hcs : ∀ c ∈ ", ".toList ++ extra.toList, c ≠ '\n' := by
        intro c hc heq
        rcases List.mem_append.mp hc with hc | hc
        · exact absurd (heq ▸ hc) (by decide)
        · exact hline hswallows (heq ▸ hc)
      obtain ⟨s', hparse, htree⟩ := l.parse_swallowed hswallows hcs
      have htext : String.ofList (l.listChars ++ (", ".toList ++ extra.toList
          ++ (l.back ++ chars l.body)))
          = String.ofList l.listChars ++ ", " ++ extra ++ String.ofList (l.back ++ chars l.body) := by
        rw [← String.toList_inj]
        simp only [String.toList_append, String.toList_ofList, List.append_assoc]
      rw [htext] at hparse
      -- the items are those of the statement alone
      obtain ⟨s'', hparse', htree'⟩ := hsays
      obtain rfl : s' = s'' := Except.ok.inj (hparse.symm.trans hparse')
      have hitems : s.tree.items = s.tree.items ++ items := by
        have hsame := congrArg Tree.items (htree.symm.trans htree')
        exact hsame
      exact x.items_ne (List.append_right_eq_self.mp hitems.symm)
  | false =>
      cases hjoined : runsInto extra (slice sql s.itemsSpan.stop sql.utf8ByteSize) with
      | false => exact iff_of_true (parse_spliced l x hswallows hjoined) ⟨rfl, rfl⟩
      | true =>
          refine iff_of_false (fun hsays => ?_) (fun hcond => nomatch hcond.2)
          obtain ⟨s', hparse, -⟩ := hsays
          exact parse_runTogether l x hswallows hjoined s' hparse

/-- A key for the groups, in front of HAVING. -/
theorem says_withSelectAppended_iff_key :
    ∃ s items, parse "SELECT COUNT(*) FROM t GROUP BY d HAVING COUNT(*) > 1" = .ok s
      ∧ aliasedItems? "d AS k" = some items
      ∧ ∃ text, (Descriptor.extract
          "SELECT COUNT(*) FROM t GROUP BY d HAVING COUNT(*) > 1").withSelectAppended? "d AS k" .having
          = some text
        ∧ (Says text { s.tree.upTo .having with items := s.tree.items ++ items }
          ↔ endsInComment (slice "SELECT COUNT(*) FROM t GROUP BY d HAVING COUNT(*) > 1" 0
              s.itemsSpan.stop) = false
            ∧ runsInto "d AS k" (slice "SELECT COUNT(*) FROM t GROUP BY d HAVING COUNT(*) > 1"
              s.itemsSpan.stop "SELECT COUNT(*) FROM t GROUP BY d HAVING COUNT(*) > 1".utf8ByteSize)
              = false) := by
  obtain ⟨s, hs⟩ := accepted_of_isOk
    (show (parse "SELECT COUNT(*) FROM t GROUP BY d HAVING COUNT(*) > 1").isOk = true by decide +kernel)
  obtain ⟨items, hitems⟩ := Option.isSome_iff_exists.mp
    (show (aliasedItems? "d AS k").isSome = true by decide +kernel)
  exact ⟨s, items, hs, hitems, says_withSelectAppended_iff hs hitems .having fun _ => by decide⟩

/-- A comment behind the SELECT list swallows the further item: the text is
    accepted, and it has no second item. -/
theorem withSelectAppended_swallowed :
    ∃ s items text, parse "SELECT COUNT(*) -- n\nFROM t GROUP BY d" = .ok s
      ∧ aliasedItems? "d AS k" = some items
      ∧ (Descriptor.extract "SELECT COUNT(*) -- n\nFROM t GROUP BY d").withSelectAppended? "d AS k"
          .having = some text
      ∧ text = "SELECT COUNT(*) -- n, d AS k\nFROM t GROUP BY d"
      ∧ ¬ Says text { s.tree.upTo .having with items := s.tree.items ++ items } := by
  have hlength : ∀ {sql : String} {s : Select} {n : Nat},
      (parse sql).toOption.map (·.items.length) = some n → parse sql = .ok s →
      s.tree.items.length = n := by
    intro sql s n hn hs
    rw [hs] at hn
    have hlen : s.items.length = n := Option.some.inj hn
    exact (List.length_map _).trans hlen
  obtain ⟨s, hs⟩ := accepted_of_isOk
    (show (parse "SELECT COUNT(*) -- n\nFROM t GROUP BY d").isOk = true by decide +kernel)
  obtain ⟨items, hitems, hone⟩ := Option.map_eq_some_iff.mp
    (show (aliasedItems? "d AS k").map List.length = some 1 by decide +kernel)
  refine ⟨s, items, _, hs, hitems, by decide +kernel, rfl, ?_⟩
  rintro ⟨s', hs', htree⟩
  have hbefore : s.tree.items.length = 1 := hlength (by decide +kernel) hs
  have hbehind : s'.tree.items.length = 1 := hlength (by decide +kernel) hs'
  rw [htree] at hbehind
  have hsum : (s.tree.items ++ items).length = 1 := hbehind
  rw [List.length_append, hbefore, hone] at hsum
  exact absurd hsum (by decide)

/-- On more than one line what is left behind the comment may be the items after
    all, here because another comment holds them once more. -/
example :
    ((Descriptor.extract "SELECT a -- c\nFROM t WHERE 1 -- */, '\n/*' AS k FROM t WHERE 1 --*/"
      ).withSelectAppended? "'\n/*' AS k" .offset).map
        (fun text => (parse text).toOption.map (·.items.length)) = some (some 2) := by
  decide +kernel

end QueryReplay.Sql
