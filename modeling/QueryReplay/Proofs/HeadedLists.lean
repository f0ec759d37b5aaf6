import QueryReplay.Proofs.Expressions
import QueryReplay.Proofs.Splicing
import QueryReplay.Replay.Queries

/-! # Headed lists — texts of expressions under numbered headers

    A composed statement lists the texts of expressions, each with AS and a
    numbered header behind it.  A text is cut into the tokens of its expression and
    a part of the gap behind them, and that gap decides what the list says:

    * where no text ends in a line comment the items are the expressions under
      their headers (`Extra`), however many there are (`Extra.append`);
    * where one does, its header and all that is behind it on the line are lost
      (`Swallowing`), and a statement that has the rest of its text there is
      not accepted (`parse_open`).

    Each headed list is one or the other (`headed_cases`). -/

namespace QueryReplay.Sql

open QueryReplay.Sql.Parser QueryReplay.Sql.StatementParser
open QueryReplay.Sql.ExprParser (expr)
open Lexer (chars Spelled Gap Lexeme startsGap joins isGapBlank isWordChar)

/-! ## Headers -/

/-- A header with which numbered names begin. -/
structure IsHeader (header : String) : Prop where
  underscore : header.toList.head? = some '_'
  letters : header.toList.all isWordChar = true

/-- No keyword begins with an underscore. -/
theorem wordKind_underscore (cs : List Char) : Lexer.wordKind ('_' :: cs) = .name := by
  have hhead : ∀ k : Keyword, k.word.toList.head? ≠ some '_' := by
    intro k
    cases k <;> decide
  refine (wordKind_cases ('_' :: cs)).resolve_left ?_
  rintro ⟨k, hk⟩
  exact hhead k (by rw [word_of_wordKind hk]; rfl)

/-- A numbered header is a name. -/
theorem IsHeader.lexeme {header : String} (h : IsHeader header) (n : Nat) :
    Lexeme .name (header ++ toString n).toList := by
  obtain ⟨cs, hcs⟩ := List.head?_eq_some_iff.mp h.underscore
  have hletters : ∀ c ∈ cs ++ n.repr.toList, isWordChar c = true := by
    intro c hc
    rcases List.mem_append.mp hc with hc | hc
    · exact List.all_eq_true.mp h.letters c (hcs ▸ List.mem_cons_of_mem _ hc)
    · rw [Nat.toList_repr] at hc
      exact Lexer.isWordChar_of_isDigit
        (Nat.isDigit_of_mem_toDigits (by decide) (Nat.le_refl 10) hc)
  have hlexeme := Lexeme.word (show Lexer.isWordStart '_' = true by decide) hletters
  rw [wordKind_underscore] at hlexeme
  rw [String.toList_append, hcs]
  exact hlexeme

/-! ## Lists of items with aliases -/

section Append

variable {text more : String} {items items' : List SelectItem} (x : Extra text items)
  (y : Extra more items')

/-- Two texts with a comma between are one stream of the tokens of both. -/
theorem Extra.append_stream : TokenStream.ofString? (text ++ ", " ++ more)
    = some ⟨x.lead, x.front ++ x.u :: y.behindComma ++ [y.u]⟩ := by
  rw [stream_comma x.stream x.listed.shape.final x.listed.shape.apart
    (Lexer.gap_of_blanks x.gap_blank) y.stream, Extra.behindComma, Extra.comma, List.append_assoc]
  rfl

theorem Extra.append_segments {u : Token} {name : String} (rest : List Token) {depth : Nat}
    (hu : u.identifier? = some name)
    (hdepth : (x.front ++ x.u :: y.behindComma).length + 2 ≤ depth) :
    ∃ vs, Segments (item (expr depth)) rest (x.front ++ x.u :: y.behindComma ++ u :: rest) vs := by
  simp only [Extra.behindComma, List.length_append, List.length_cons] at hdepth
  obtain ⟨vs, hsegments⟩ := y.segments rest hu (show y.front.length + 2 ≤ depth by omega)
  obtain ⟨vs', hwhole⟩ := x.listed.segments_before x.u.gap
    (show y.comma.kind = .symbol .comma from rfl) (by omega) hsegments
  refine ⟨vs', ?_⟩
  rw [List.append_assoc]
  exact hwhole

/-- Two lists with a comma between them. -/
def Extra.append : Extra (text ++ ", " ++ more) (items ++ items') where
  lead := x.lead
  front := x.front ++ x.u :: y.behindComma
  u := y.u
  name := y.name
  stream := x.append_stream y
  identifier := y.identifier
  listed := x.listed.append rfl y.listed x.u.gap
  items_ne := List.append_ne_nil_of_left_ne_nil x.items_ne items'
  lead_blank := x.lead_blank
  gap_blank := y.gap_blank
  segments := x.append_segments y

end Append

/-- AS and a name without quotes. -/
def aliasTokens (name : String) : List Token := [⟨.keyword .as, "AS", " "⟩, ⟨.name, name, ""⟩]

/-- `AS` and a name are written as they are lexed, and no gap starts there. -/
theorem aliasTokens_spelled {name : String} (h : Lexeme .name name.toList) :
    Spelled (aliasTokens name) ∧ chars (aliasTokens name) = 'A' :: 'S' :: ' ' :: name.toList
      ∧ startsGap (chars (aliasTokens name)) = false := by
  have hchars : chars (aliasTokens name) = 'A' :: 'S' :: ' ' :: name.toList := by
    rw [aliasTokens, Lexer.chars_cons, Lexer.chars_cons, Lexer.chars_nil,
      show ("AS" : String).toList = ['A', 'S'] by decide, show (" " : String).toList = [' '] by decide,
      show ("" : String).toList = [] by decide, List.append_nil, List.append_nil]
    rfl
  have hstart : startsGap name.toList = false := by
    obtain ⟨c, cs, hcs, hc, -⟩ := h.isWord (.inl rfl)
    rw [hcs]
    exact Lexer.startsGap_wordChar (Lexer.isWordChar_of_isWordStart hc) cs
  refine ⟨⟨?_, ⟨false, ?_, nofun⟩, ?_, ?_, h, ⟨false, ?_, nofun⟩, rfl, rfl, trivial⟩, hchars, ?_⟩
  · exact (Lexeme.word (by decide) (List.all_eq_true.mp (by decide)) :
      Lexeme (Lexer.wordKind ['A', 'S']) ['A', 'S'])
  · exact .blank (by decide) .nil
  · rw [Lexer.chars_cons, Lexer.chars_nil, show ("" : String).toList = [] by decide,
      List.append_nil, List.append_nil]
    exact hstart
  · exact joins_blank (c := ' ') (by decide) _ _ _
  · exact .nil
  · rw [hchars]
    exact Lexer.startsGap_wordChar (by decide) _

/-- The gap behind the tokens of a text is open exactly when the text ends in a comment. -/
theorem Reading.gap_eq {text : String} {e : Expr} (r : Reading text e) :
    Gap (endsInComment text) r.gap.toList := by
  obtain ⟨o, hgap, -⟩ := gap_of_spelled (spelled_of_stream r.stream)
  rw [endsInComment_of_stream r.stream hgap]
  exact hgap

theorem Reading.shape {text : String} {e : Expr} (r : Reading text e) (gap : String) :
    ItemShape r.front { r.t with gap } := by
  obtain ⟨used, hused, hphrase⟩ := expr_takes r.depth _ _ r.read
  obtain rfl : used = r.front ++ [r.t] :=
    List.append_cancel_right (hused.symm.trans (List.append_cons r.front r.t r.rest))
  exact hphrase.itemShape.gap gap

/-- The text of an expression, and AS with a name behind it. -/
theorem Reading.stream_aliased {text : String} {e : Expr} (r : Reading text e)
    (hclosed : endsInComment text = false) {name : String} (hname : Lexeme .name name.toList) :
    TokenStream.ofString? (text ++ " AS " ++ name) = some ⟨"", r.front
      ++ { r.t with gap := String.ofList (r.gap.toList ++ [' ']) } :: aliasTokens name⟩ := by
  obtain ⟨hspelled, hchars, hstart⟩ := aliasTokens_spelled hname
  have hgap : Gap false r.gap.toList := hclosed ▸ r.gap_eq
  have hjoins : joins r.t.kind r.t.lexeme.toList
      (r.gap.toList ++ [' '] ++ chars (aliasTokens name)) = false := by
    rw [List.append_assoc]
    exact not_joins_behind r.stream hgap fun _ => joins_blank (by decide) _ _ _
  have hstream := stream_behind r.stream (r.shape r.gap).final (r.shape r.gap).apart hspelled hstart
    (hgap.append (.blank (by decide) .nil)) nofun hjoins
  have htext : text ++ " AS " ++ name = text ++ String.ofList ([' '] ++ chars (aliasTokens name)) := by
    rw [hchars, String.append_assoc, ← String.toList_inj, String.toList_append,
      String.toList_append, String.toList_append, String.toList_ofList, String.toList_ofList]
    rfl
  rw [htext]
  exact hstream

/-- An expression with an alias behind its text is an item. -/
def Reading.aliased {text : String} {e : Expr} (r : Reading text e)
    (hclosed : endsInComment text = false) {name : String} (hname : Lexeme .name name.toList) :
    Extra (text ++ " AS " ++ name) [.expr e (some name) ""] := by
  -- read as an item with any alias in this place
  have hitem : ∀ {u : Token} {name' : String} (rest : List Token) {depth : Nat},
      u.identifier? = some name' → r.front.length + 2 ≤ depth →
      ∃ text', item (expr depth) (r.front
          ++ { r.t with gap := String.ofList (r.gap.toList ++ [' ']) }
            :: ([⟨.keyword .as, "AS", " "⟩] ++ u :: rest))
        = some ⟨.expr e (some name') text', rest, false⟩ := fun rest _ hu hdepth =>
    item_of_expr r.read r.stop r.unstarred r.depth_le _ hu (.inr ⟨_, rfl, rfl⟩) rest hdepth
  exact
    { lead := ""
      front := r.front ++ [{ r.t with gap := String.ofList (r.gap.toList ++ [' ']) },
        ⟨.keyword .as, "AS", " "⟩]
      u := ⟨.name, name, ""⟩
      name := name
      stream := by
        rw [r.stream_aliased hclosed hname, List.append_assoc]
        rfl
      identifier := rfl
      listed := by
        refine .one (fun gap rest depth _ hdepth => ?_) ⟨?_, nofun, nofun, nofun⟩
        · rw [List.length_append] at hdepth
          obtain ⟨text', hread⟩ := hitem (u := ⟨.name, name, gap⟩) rest rfl
            (show r.front.length + 2 ≤ depth by omega)
          refine ⟨.expr e (some name) text', false, ?_, rfl⟩
          rw [List.append_assoc]
          exact hread
        · have hwords : (aliasTokens name).IsChain Lexer.Apart :=
            List.isChain_cons_cons.mpr ⟨fun h => (nomatch h.1), .singleton _⟩
          have hchain := (r.shape (String.ofList (r.gap.toList ++ [' ']))).apart.append hwords
            fun x hx y _ h => by
              rw [List.getLast?_concat] at hx
              obtain rfl := Option.some.inj hx
              exact (r.shape r.gap).final.2.1 h.1
          rw [List.append_assoc] at hchain ⊢
          exact hchain
      items_ne := List.cons_ne_nil _ _
      lead_blank := fun _ hc => nomatch hc
      gap_blank := fun _ hc => nomatch hc
      segments := by
        intro u' name' rest depth hu' hdepth
        rw [List.length_append] at hdepth
        obtain ⟨text', hread⟩ := hitem rest hu' (show r.front.length + 2 ≤ depth by omega)
        refine ⟨_, .last (v := .expr e (some name') text') (o := false) ?_⟩
        rw [List.append_assoc]
        exact hread }

/-! ## Lists that end in a comment -/

/-- A list that ends inside a line comment, and what is behind it in the text. -/
structure Swallowing (text : String) where
  list : String
  behind : String
  text_eq : text = list ++ behind
  lead : String
  front : List Token
  u : Token
  items : List SelectItem
  stream : TokenStream.ofString? list = some ⟨lead, front ++ [u]⟩
  listed : Listed front u items
  gap_open : Gap true u.gap.toList

/-- A text among others is split where its list ends. -/
theorem Swallowing.between_eq {text : String} (w : Swallowing text) (before more : String) :
    before ++ text ++ more = before ++ w.list ++ String.ofList (w.behind.toList ++ more.toList) := by
  refine (congrArg (before ++ · ++ more) w.text_eq).trans ?_
  rw [String.ofList_append, String.ofList_toList, String.ofList_toList]
  simp only [String.append_assoc]

/-- An expression whose text ends in a comment, without the alias behind it. -/
def Reading.swallowing {text : String} {e : Expr} (r : Reading text e)
    (hopen : endsInComment text = true) (behind : String) : Swallowing (text ++ behind) where
  list := text
  behind := behind
  text_eq := rfl
  lead := ""
  front := r.front
  u := { r.t with gap := r.gap }
  items := [.expr e none ""]
  stream := r.stream
  listed := .one (fun gap => readsItem_of_expr r.read r.stop r.unstarred r.depth_le gap)
    (r.shape r.gap)
  gap_open := hopen ▸ r.gap_eq

/-- Items in front of a list that ends in a comment. -/
def Extra.swallow {text more : String} {items : List SelectItem} (x : Extra text items)
    (w : Swallowing more) : Swallowing (text ++ ", " ++ more) where
  list := text ++ ", " ++ w.list
  behind := w.behind
  text_eq := (congrArg (text ++ ", " ++ ·) w.text_eq).trans String.append_assoc.symm
  lead := x.lead
  front := x.front ++ x.u :: ⟨.symbol .comma, ",", String.ofList (' ' :: w.lead.toList)⟩ :: w.front
  u := w.u
  items := items ++ w.items
  stream := by
    rw [stream_comma x.stream x.listed.shape.final x.listed.shape.apart
      (Lexer.gap_of_blanks x.gap_blank) w.stream, List.append_assoc, List.cons_append, List.cons_append]
  listed := x.listed.append rfl w.listed x.u.gap
  gap_open := w.gap_open

/-- Behind a list that ends in a comment nothing on the line is read, so there is no
    FROM. -/
theorem parse_open {list lead : String} {words front : List Token} {u : Token} {distinct : Bool}
    {items : List SelectItem}
    (hstream : TokenStream.ofString? list = some ⟨lead, words ++ (front ++ [u])⟩)
    (hwords : Heads distinct words)
    (hdistinct : distinct = false → keyword .distinct (front ++ [u]) = none)
    (hlisted : Listed front u items) (hopen : Gap true u.gap.toList) {cs : List Char}
    (hline : ∀ c ∈ cs, c ≠ '\n') (s : Select) : parse (list ++ String.ofList cs) ≠ .ok s := by
  have hne : u.gap.toList ≠ [] := fun hnil => by
    rw [hnil] at hopen
    exact nomatch hopen
  have hapart := hwords.apart hlisted.shape.apart
  rw [← List.append_assoc] at hstream hapart
  have hwhole := stream_behind hstream hlisted.shape.final hapart (show Spelled [] from trivial) rfl
    (hopen.swallow hline) (fun _ => rfl)
    (by rw [Lexer.chars_nil, List.append_nil]
        exact not_joins_behind hstream hopen fun hnil => absurd hnil hne)
  rw [Lexer.chars_nil, List.append_nil, List.append_assoc] at hwhole
  -- the list is the end of the tokens
  refine parse_ne_ok hwhole hwords (fun h => keyword_gap (hdistinct h) _ _)
    (fun depth hdepth => ?_) (show symbol .comma [] = none from rfl) rfl s
  rw [List.length_append, List.length_cons] at hdepth
  obtain ⟨vs, -, hsegments⟩ := hlisted.segments _ Edge.nil (show front.length + 2 ≤ depth by omega)
  exact ⟨vs, hsegments⟩

/-! ## Lists with numbered headers -/

/-- Expressions as items with numbered headers. -/
def headedItems (header : String) (ks : List GroupKey) : List SelectItem :=
  ks.zipIdx.map fun (k, n) => .expr k.expr (some (header ++ toString n)) ""

/-- What a list of expressions under headers says: all of them where no text ends in a
    comment, or less than that. -/
inductive Headed (ks : List GroupKey) (text : String) (items : List SelectItem) : Prop
  | whole (hclosed : ∀ k ∈ ks, endsInComment k.text = false) (x : Extra text items)
  | cut (hopen : ∃ k ∈ ks, endsInComment k.text = true) (w : Swallowing text)

/-- Texts that are read as their expressions, under numbered headers. -/
theorem headed_cases {header : String} (hheader : IsHeader header) {ks : List GroupKey}
    (hne : ks ≠ []) (h : ∀ k ∈ ks, Nonempty (Reading k.text k.expr)) :
    Headed ks (headed header (ks.map GroupKey.text)) (headedItems header ks) := by
  -- the numbers of the headers may begin anywhere
  have hfrom : ∀ (ks : List GroupKey) (n : Nat), ks ≠ [] →
      (∀ k ∈ ks, Nonempty (Reading k.text k.expr)) →
      Headed ks (", ".intercalate (((ks.map GroupKey.text).zipIdx n).map
          fun p => p.1 ++ " AS " ++ header ++ toString p.2))
        ((ks.zipIdx n).map fun p => .expr p.1.expr (some (header ++ toString p.2)) "") := by
    intro ks
    induction ks with
    | nil => intro n hne; exact absurd rfl hne
    | cons k ks ih =>
        intro n _ h
        obtain ⟨r⟩ := h k List.mem_cons_self
        rw [List.map_cons, List.zipIdx_cons, List.map_cons]
        cases hk : endsInComment k.text with
        | true =>
            -- its header and all that is behind it are in the comment
            refine .cut ⟨k, List.mem_cons_self, hk⟩ ?_
            simp only [String.append_assoc, String.intercalate_cons_append]
            exact r.swallowing hk _
        | false =>
            have x := r.aliased hk (hheader.lexeme n)
            rw [← String.append_assoc] at x
            cases ks with
            | nil =>
                refine .whole (fun k' hk' => List.mem_singleton.mp hk' ▸ hk) ?_
                rw [List.map_nil, List.zipIdx_nil, List.map_nil, String.intercalate_singleton]
                exact x
            | cons k' ks =>
                rw [List.map_cons, List.zipIdx_cons, List.map_cons, String.intercalate_cons_cons]
                -- what the list says is decided behind the comma
                cases ih (n + 1) (List.cons_ne_nil k' ks)
                  fun k'' hk'' => h k'' (List.mem_cons_of_mem k hk'') with
                | whole hclosed y =>
                    exact .whole (List.forall_mem_cons.mpr ⟨hk, hclosed⟩) (x.append y)
                | cut hopen w =>
                    obtain ⟨k'', hmem, hk''⟩ := hopen
                    exact .cut ⟨k'', List.mem_cons_of_mem k hmem, hk''⟩ (x.swallow w)
  exact hfrom ks 0 hne h

end QueryReplay.Sql
