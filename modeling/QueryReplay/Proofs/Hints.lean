import Mathlib.Data.List.Infix
import QueryReplay.Proofs.Spelling
import QueryReplay.Replay.Hint

/-! # Hints — what a message is taken for

    Five shapes of complaints are looked for, one after another, and each of them in the
    whole message (`ofMessage_found`).  An engine puts its complaint into the first line,
    and behind it come names that are close and the statement itself.  So a first line
    with one shape is taken for what it says unless a shape that is looked for earlier
    is found behind it (`ofMessage_alone`), where the one who wrote the statement chose
    the words.  Only the shape that is looked for first is safe from that
    (`hintFor_alone`). -/

namespace QueryReplay

/-! ## Where a part is found -/

namespace Text

variable {part : List Char}

/-- What does not begin in the front is looked for behind it. -/
theorem after?_behind (front : List Char) {rest : List Char}
    (h : ∀ a b, front = a ++ b → b ≠ [] → ¬part <+: b ++ rest) :
    after? part (front ++ rest) = after? part rest := by
  induction front with
  | nil => rfl
  | cons c front ih =>
      have hhere : part.isPrefixOf (c :: (front ++ rest)) = false := by
        rw [Bool.eq_false_iff]
        intro hbegins
        exact h [] (c :: front) rfl (List.cons_ne_nil _ _) (List.isPrefixOf_iff_prefix.mp hbegins)
      rw [List.cons_append, after?, if_neg (by simp [hhere])]
      refine ih fun a b hsplit hb => h (c :: a) b ?_ hb
      rw [hsplit, List.cons_append]

theorem after?_here (h : part ≠ []) (rest : List Char) :
    after? part (part ++ rest) = some rest := by
  obtain ⟨c, cs, rfl⟩ := List.exists_cons_of_ne_nil h
  have hbegins : (c :: cs).isPrefixOf (c :: (cs ++ rest)) = true :=
    List.isPrefixOf_iff_prefix.mpr ⟨rest, rfl⟩
  rw [List.cons_append, after?, if_pos hbegins]
  simp

/-- Before a part that begins nowhere in the front, and stands behind it or is missed. -/
theorem before_front {c : Char} {cs : List Char} (front : List Char) {rest : List Char}
    (hfront : c ∉ front) (hrest : rest = [] ∨ (c :: cs) <+: rest) :
    before (c :: cs) (front ++ rest) = front := by
  induction front with
  | nil =>
      rcases hrest with rfl | ⟨more, rfl⟩
      · rfl
      · have hbegins : (c :: cs).isPrefixOf (c :: (cs ++ more)) = true :=
          List.isPrefixOf_iff_prefix.mpr ⟨more, rfl⟩
        rw [List.nil_append, List.cons_append, before, if_pos hbegins]
  | cons d front ih =>
      have hne : c ≠ d := fun heq => hfront (heq ▸ List.mem_cons_self)
      have hhere : (c :: cs).isPrefixOf (d :: (front ++ rest)) = false := by
        simp [List.isPrefixOf, hne]
      rw [List.cons_append, before, if_neg (by simp [hhere]),
        ih fun hmem => hfront (List.mem_cons_of_mem d hmem)]

/-- A text is left whole where nothing of it is to be taken off. -/
theorem dropWhile_none {p : Char → Bool} {cs : List Char} (h : ∀ c ∈ cs, p c = false) :
    cs.dropWhile p = cs :=
  List.dropWhile_eq_self_iff.mpr fun hl => by simp [h _ (List.getElem_mem hl)]

theorem dropTrailing_none {p : Char → Bool} {cs : List Char} (h : ∀ c ∈ cs, p c = false) :
    dropTrailing p cs = cs := by
  rw [dropTrailing, dropWhile_none fun c hc => h c (List.mem_reverse.mp hc), List.reverse_reverse]

end Text

namespace Complaint

/-! ## Shapes -/

/-- The shapes of complaints that are known. -/
inductive Shape where
  | noTable | tableNamed | noColumn | columnReferenced | columnNamed
deriving DecidableEq

namespace Shape

/-- What stands in front of the name. -/
def opening : Shape → String
  | noTable => "no such table:"
  | tableNamed => "Table with name "
  | noColumn => "no such column:"
  | columnReferenced => "Referenced column \""
  | columnNamed => "Column with name "

/-- What stands behind the name, unless the message ends there. -/
def closing : Shape → String
  | noTable => "\n"
  | tableNamed => " does not exist"
  | noColumn => "\n"
  | columnReferenced => "\""
  | columnNamed => " does not exist"

/-- Whether the name comes last in its line, and behind a blank. -/
def atEnd : Shape → Bool
  | noTable => true
  | noColumn => true
  | _ => false

/-- What a name in the shape is called. -/
def complaint : Shape → String → Complaint
  | noTable => .missingTable
  | tableNamed => .missingTable
  | _ => .missingColumn

/-- The name that is found in a message. -/
def read? (s : Shape) (message : String) : Option String := between? message s.opening s.closing

/-- The shapes in the order in which they are looked for. -/
def order : List Shape := [noTable, tableNamed, noColumn, columnReferenced, columnNamed]

/-- The shapes that are looked for before. -/
def earlier (s : Shape) : List Shape := order.takeWhile (· ≠ s)

/-- What stands behind the opening when the shape is about a name. -/
def phrase (s : Shape) (name : String) : List Char :=
  if s.atEnd then ' ' :: name.toList else name.toList ++ s.closing.toList

theorem opening_ne_nil (s : Shape) : s.opening.toList ≠ [] := by
  cases s <;> decide

theorem newline_not_mem_opening (s : Shape) : '\n' ∉ s.opening.toList := by
  cases s <;> decide

end Shape

/-- The first shape that is found. -/
def found (shapes : List Shape) (message : String) : Option Complaint :=
  shapes.findSome? fun s => (s.read? message).map s.complaint

theorem found_congr {shapes : List Shape} {m m' : String}
    (h : ∀ s ∈ shapes, s.read? m = s.read? m') : found shapes m = found shapes m' := by
  induction shapes with
  | nil => rfl
  | cons s rest ih =>
      have hrest : found rest m = found rest m' := ih fun r hr => h r (List.mem_cons_of_mem s hr)
      rw [found, List.findSome?_cons, h s List.mem_cons_self, found, List.findSome?_cons]
      cases s.read? m' with
      | some name => rfl
      | none => exact hrest

/-- What is found in the order of the shapes is what the message complains of. -/
theorem ofMessage_found {message : String} {c : Complaint}
    (h : found Shape.order message = some c) : ofMessage message = c := by
  have htable : missingTable? message
      = (Shape.noTable.read? message).or (Shape.tableNamed.read? message) := rfl
  have hcolumn : missingColumn? message
      = (Shape.noColumn.read? message).or
        ((Shape.columnReferenced.read? message).or (Shape.columnNamed.read? message)) := rfl
  simp only [found, Shape.order, List.findSome?_cons, List.findSome?_nil] at h
  rw [ofMessage, htable, hcolumn]
  cases hnoTable : Shape.noTable.read? message with
  | some name => simpa [hnoTable, Shape.complaint] using h
  | none =>
  cases htableNamed : Shape.tableNamed.read? message with
  | some name => simpa [hnoTable, htableNamed, Shape.complaint] using h
  | none =>
  cases hnoColumn : Shape.noColumn.read? message with
  | some name => simpa [hnoTable, htableNamed, hnoColumn, Shape.complaint] using h
  | none =>
  cases hreferenced : Shape.columnReferenced.read? message with
  | some name =>
      simpa [hnoTable, htableNamed, hnoColumn, hreferenced, Shape.complaint] using h
  | none =>
  cases hcolumnNamed : Shape.columnNamed.read? message with
  | some name =>
      simpa [hnoTable, htableNamed, hnoColumn, hreferenced, hcolumnNamed, Shape.complaint] using h
  | none => simp [hnoTable, htableNamed, hnoColumn, hreferenced, hcolumnNamed] at h

/-! ## First lines and what follows them -/

/-- The line holds the shape about a name of letters, digits and underscores, and no opening
    of any shape stands anywhere else in it. -/
structure Alone (s : Shape) (name line : String) : Prop where
  name_ne : name ≠ ""
  name_chars : ∀ c ∈ name.toList, Sql.Lexer.isWordChar c = true
  stands : ∃ front back, line.toList = front ++ (s.opening.toList ++ (s.phrase name ++ back))
    ∧ (s.atEnd = true → back = [])
    ∧ ∀ (other : Shape) (a b : List Char), line.toList = a ++ (other.opening.toList ++ b) →
      other = s ∧ a = front

/-- What can follow the first line: nothing, or more lines. -/
def IsTail (tail : String) : Prop := tail.toList = [] ∨ ∃ more, tail.toList = '\n' :: more

/-- An opening that stands nowhere in a line is looked for in what follows it. -/
theorem read?_behind {s : Shape} {line tail : String}
    (hnot : ∀ a b, line.toList ≠ a ++ (s.opening.toList ++ b)) (htail : IsTail tail) :
    s.read? (line ++ tail) = s.read? tail := by
  have hafter : Text.after? s.opening.toList (line ++ tail).toList
      = Text.after? s.opening.toList tail.toList := by
    rw [String.toList_append]
    refine Text.after?_behind _ fun a b hsplit hb hbegins => ?_
    obtain ⟨rest, hrest⟩ := hbegins
    rcases List.append_eq_append_iff.mp hrest with ⟨more, hb', -⟩ | ⟨more, hopening, htail'⟩
    · exact hnot a more (by rw [hsplit, hb'])
    · -- an opening that reaches into the tail would hold a line break
      cases more with
      | nil =>
          rw [List.append_nil] at hopening
          exact hnot a [] (by rw [hsplit, hopening, List.append_nil])
      | cons c more =>
          rcases htail with hnil | ⟨lines, hlines⟩
          · rw [hnil] at htail'
            exact nomatch htail'
          · rw [hlines] at htail'
            obtain ⟨rfl, -⟩ := List.cons.inj htail'
            refine s.newline_not_mem_opening ?_
            rw [hopening]
            simp
  rw [Shape.read?, between?, hafter, Shape.read?, between?]

/-- What stands behind the only opening of a line, whatever follows the line. -/
theorem after?_alone {line : String} (tail : String) {front rest : List Char} {s : Shape}
    (hline : line.toList = front ++ (s.opening.toList ++ rest))
    (honce : ∀ a b, line.toList = a ++ (s.opening.toList ++ b) → a = front) :
    Text.after? s.opening.toList (line ++ tail).toList = some (rest ++ tail.toList) := by
  rw [String.toList_append, hline, List.append_assoc, List.append_assoc]
  rw [Text.after?_behind front, Text.after?_here s.opening_ne_nil]
  intro a b hsplit hb hbegins
  -- an opening that begins in the front ends in front of what stands behind the other one
  have hwithin : s.opening.toList <+: b ++ s.opening.toList := by
    refine List.prefix_of_prefix_length_le hbegins ⟨rest ++ tail.toList, ?_⟩ ?_
    · rw [List.append_assoc]
    · rw [List.length_append]
      omega
  obtain ⟨more, hmore⟩ := hwithin
  have ha : a = front := by
    refine honce a (more ++ rest) ?_
    rw [hline, hsplit, List.append_assoc, ← List.append_assoc b, ← hmore, List.append_assoc]
  rw [ha] at hsplit
  exact hb (List.self_eq_append_right.mp hsplit)

/-- Blanks in front of a name are taken off, and nothing of the name. -/
theorem name_trimmed {name : String} (h : ∀ c ∈ name.toList, Sql.Lexer.isWordChar c = true)
    {blanks : List Char} (hblanks : ∀ c ∈ blanks, Text.isBlank c = true) :
    Text.dropTrailing (· == '"')
      ((Text.trim (String.ofList (blanks ++ name.toList))).toList.dropWhile (· == '"'))
      = name.toList := by
  have hblank : ∀ c ∈ name.toList, Text.isBlank c = false := fun c hc =>
    Sql.Lexer.isBlank_of_isWordChar (h c hc)
  have hquote : ∀ c ∈ name.toList, (c == '"') = false := by
    intro c hc
    rw [beq_eq_false_iff_ne]
    rintro rfl
    exact absurd (h _ hc) (by decide)
  have htrim : (Text.trim (String.ofList (blanks ++ name.toList))).toList = name.toList := by
    rw [Text.trim, Text.trimEnd, Text.trimStart, String.toList_ofList, String.toList_ofList,
      String.toList_ofList, List.dropWhile_append_of_pos hblanks, Text.dropWhile_none hblank,
      Text.dropTrailing_none hblank]
  rw [htrim, Text.dropWhile_none hquote, Text.dropTrailing_none hquote]

/-- What stands before the closing of a shape. -/
theorem before_closing {s : Shape} {name : String}
    (h : ∀ c ∈ name.toList, Sql.Lexer.isWordChar c = true) {back : List Char}
    (hend : s.atEnd = true → back = []) {tail : String} (htail : IsTail tail) :
    ∃ blanks, (∀ c ∈ blanks, Text.isBlank c = true)
      ∧ Text.before s.closing.toList (s.phrase name ++ back ++ tail.toList)
        = blanks ++ name.toList := by
  have hnot {c : Char} (hc : Sql.Lexer.isWordChar c = false) : c ∉ name.toList := fun hmem =>
    absurd ((h c hmem).symm.trans hc) nofun
  -- a name that ends its line stands behind a blank, and a line break or nothing behind it
  have hatEnd (hback : back = []) :
      Text.before ['\n'] (' ' :: name.toList ++ back ++ tail.toList) = [' '] ++ name.toList := by
    rw [hback, List.append_nil]
    refine Text.before_front (' ' :: name.toList) ?_ ?_
    · rw [List.mem_cons, not_or]
      exact ⟨by decide, hnot (by decide)⟩
    · rcases htail with hnil | ⟨more, hmore⟩
      · exact .inl hnil
      · rw [hmore]
        exact .inr ⟨more, rfl⟩
  have hclosed {c : Char} {cs : List Char} (hc : Sql.Lexer.isWordChar c = false) :
      Text.before (c :: cs) (name.toList ++ c :: cs ++ back ++ tail.toList) = name.toList := by
    rw [List.append_assoc, List.append_assoc]
    exact Text.before_front name.toList (hnot hc) (.inr ⟨back ++ tail.toList, rfl⟩)
  cases s with
  | noTable => exact ⟨[' '], by simp; decide, hatEnd (hend rfl)⟩
  | noColumn => exact ⟨[' '], by simp; decide, hatEnd (hend rfl)⟩
  | tableNamed => exact ⟨[], nofun, hclosed (by decide)⟩
  | columnNamed => exact ⟨[], nofun, hclosed (by decide)⟩
  | columnReferenced => exact ⟨[], nofun, hclosed (by decide)⟩

/-- Nothing is found without the opening. -/
theorem read?_none {s : Shape} {message : String}
    (h : ¬s.opening.toList <:+: message.toList) : s.read? message = none := by
  have hafter : Text.after? s.opening.toList message.toList = none := by
    rw [← List.append_nil message.toList, Text.after?_behind]
    · rw [Text.after?, if_neg (by simpa using s.opening_ne_nil)]
    · rintro a b hsplit - ⟨more, hmore⟩
      rw [List.append_nil] at hmore
      exact h ⟨a, more, by rw [hsplit, ← hmore, List.append_assoc]⟩
  rw [Shape.read?, between?, hafter]

/-- The name in the shape is found whatever follows the line. -/
theorem Alone.read? {s : Shape} {name line : String} (h : Alone s name line) {tail : String}
    (htail : IsTail tail) : s.read? (line ++ tail) = some name := by
  obtain ⟨front, back, hline, hend, honce⟩ := h.stands
  have hafter := after?_alone tail hline fun a b hab => (honce s a b hab).2
  obtain ⟨blanks, hblanks, hbefore⟩ := before_closing (s := s) h.name_chars hend htail
  have hname : name.toList.isEmpty = false := by
    simpa using h.name_ne
  rw [Shape.read?, between?, hafter]
  simp only [hbefore, name_trimmed h.name_chars hblanks, hname, Bool.false_eq_true, if_false,
    String.ofList_toList]

/-! ## What decides -/

theorem order_split (s : Shape) : ∃ later, Shape.order = s.earlier ++ s :: later := by
  cases s
  · exact ⟨[.tableNamed, .noColumn, .columnReferenced, .columnNamed], rfl⟩
  · exact ⟨[.noColumn, .columnReferenced, .columnNamed], rfl⟩
  · exact ⟨[.columnReferenced, .columnNamed], rfl⟩
  · exact ⟨[.columnNamed], rfl⟩
  · exact ⟨[], rfl⟩

theorem not_mem_earlier (s : Shape) : s ∉ s.earlier := by
  cases s <;> decide

/-- A line with one shape is taken for what it says, unless a shape that is looked for earlier
    is found behind it. -/
theorem ofMessage_alone {s : Shape} {name line : String} (h : Alone s name line) {tail : String}
    (htail : IsTail tail) :
    ofMessage (line ++ tail) = (found s.earlier tail).getD (s.complaint name) := by
  obtain ⟨front, back, -, -, honce⟩ := h.stands
  obtain ⟨later, horder⟩ := order_split s
  have hbehind : found s.earlier (line ++ tail) = found s.earlier tail := by
    refine found_congr fun other hother => read?_behind ?_ htail
    intro a b hab
    exact not_mem_earlier s ((honce other a b hab).1 ▸ hother)
  refine ofMessage_found ?_
  rw [horder, found, List.findSome?_append, List.findSome?_cons, h.read? htail]
  show (found s.earlier (line ++ tail)).or _ = _
  rw [hbehind]
  cases found s.earlier tail <;> rfl

/-- What is found is a table or a column that is missing. -/
theorem found_complaint {shapes : List Shape} {message : String} {c : Complaint}
    (h : found shapes message = some c) : ∃ (s : Shape) (name : String), c = s.complaint name := by
  obtain ⟨s, -, hs⟩ := List.exists_of_findSome?_eq_some h
  obtain ⟨name, -, rfl⟩ := Option.map_eq_some_iff.mp hs
  exact ⟨s, name, rfl⟩

/-- The name stands at one place in the hint for a missing table. -/
theorem hint_table (known : List String) :
    ∃ behind : String, ∀ name, (missingTable name).hint known = "Table '" ++ name ++ behind := by
  refine ⟨"' does not exist. " ++ (if known.isEmpty then "No tables are loaded."
    else "Available tables: " ++ ", ".intercalate known ++ "."), fun name => ?_⟩
  rw [← String.append_assoc]
  rfl

/-- The name stands at one place in the hint for a missing column. -/
theorem hint_column (known : List String) :
    ∃ behind : String, ∀ name, (missingColumn name).hint known = "Column '" ++ name ++ behind := by
  refine ⟨"' does not exist. Check the spelling, and when the query uses "
    ++ "table aliases make sure the prefix (for example e.name) points at the right table.",
    fun name => ?_⟩
  rw [← String.append_assoc]
  rfl

/-- Hints for tables and for columns begin with different letters. -/
theorem hint_table_ne_column (a b : String) (known : List String) :
    (missingTable a).hint known ≠ (missingColumn b).hint known := by
  intro h
  obtain ⟨behind, htable⟩ := hint_table known
  obtain ⟨behind', hcolumn⟩ := hint_column known
  have hhead {u v w : String} {c : Char} (hu : u.toList.head? = some c) :
      (u ++ v ++ w).toList.head? = some c := by
    rw [String.append_assoc, String.toList_append, List.head?_append, hu]
    rfl
  have hchars := congrArg (fun s : String => s.toList.head?) h
  rw [htable, hcolumn] at hchars
  have htableHead := hhead (u := "Table '") (v := a) (w := behind) (c := 'T') (by decide)
  have hcolumnHead := hhead (u := "Column '") (v := b) (w := behind') (c := 'C') (by decide)
  exact nomatch Option.some.inj (htableHead.symm.trans (hchars.trans hcolumnHead))

/-- The hints for what is missing tell what it is and its name. -/
theorem hint_injective (known : List String) {s s' : Shape} {name name' : String}
    (h : (s.complaint name).hint known = (s'.complaint name').hint known) :
    s.complaint name = s'.complaint name' := by
  have hkind (s : Shape) : s.complaint = missingTable ∨ s.complaint = missingColumn := by
    cases s <;> simp [Shape.complaint]
  rcases hkind s with hs | hs <;> rcases hkind s' with hs' | hs' <;> rw [hs, hs'] at h ⊢
  · obtain ⟨behind, htable⟩ := hint_table known
    rw [htable, htable, String.append_left_inj, String.append_right_inj] at h
    rw [h]
  · exact absurd h (hint_table_ne_column name name' known)
  · exact absurd h.symm (hint_table_ne_column name' name known)
  · obtain ⟨behind, hcolumn⟩ := hint_column known
    rw [hcolumn, hcolumn, String.append_left_inj, String.append_right_inj] at h
    rw [h]

/-- A tail that hides every complaint but one about the shape that is looked for first. -/
theorem found_noTable {s : Shape} (h : s ≠ .noTable) :
    found s.earlier "\nno such table: ?" = some (.missingTable "?") := by
  have hread : Shape.noTable.read? "\nno such table: ?" = some "?" := by decide +kernel
  have hearlier : ∃ more, s.earlier = .noTable :: more := by
    cases s with
    | noTable => exact absurd rfl h
    | tableNamed => exact ⟨[], rfl⟩
    | noColumn => exact ⟨[.tableNamed], rfl⟩
    | columnReferenced => exact ⟨[.tableNamed, .noColumn], rfl⟩
    | columnNamed => exact ⟨[.tableNamed, .noColumn, .columnReferenced], rfl⟩
  obtain ⟨more, hmore⟩ := hearlier
  rw [hmore, found, List.findSome?_cons, hread]
  rfl

section Alone

variable {s : Shape} {name line : String} (h : Alone s name line) {tail tail' : String}
  (htail : IsTail tail) (known : List String)
include h htail

/-- Two hints are the same exactly if what is found behind the line says the same. -/
theorem Alone.hint_eq_iff (htail' : IsTail tail') :
    hintFor (line ++ tail) known = hintFor (line ++ tail') known
      ↔ (found s.earlier tail).getD (s.complaint name)
        = (found s.earlier tail').getD (s.complaint name) := by
  have hshape (tail : String) : ∃ (s' : Shape) (name' : String),
      (found s.earlier tail).getD (s.complaint name) = s'.complaint name' := by
    cases hfound : found s.earlier tail with
    | none => exact ⟨s, name, rfl⟩
    | some c => exact found_complaint hfound
  obtain ⟨s₁, name₁, h₁⟩ := hshape tail
  obtain ⟨s₂, name₂, h₂⟩ := hshape tail'
  rw [hintFor, hintFor, ofMessage_alone h htail, ofMessage_alone h htail', h₁, h₂]
  exact ⟨hint_injective known, congrArg (hint known)⟩

/-- The hint is the one for the line exactly if what is found behind it says no other. -/
theorem Alone.hint_iff : hintFor (line ++ tail) known = (s.complaint name).hint known
    ↔ ∀ c ∈ found s.earlier tail, c = s.complaint name := by
  rw [hintFor, ofMessage_alone h htail]
  cases hfound : found s.earlier tail with
  | none => simp
  | some c =>
      obtain ⟨s', name', rfl⟩ := found_complaint hfound
      constructor
      · rintro heq c ⟨⟩
        exact hint_injective known heq
      · intro hall
        rw [Option.getD_some, hall _ rfl]

theorem Alone.hint_silent (hnone : ∀ e ∈ s.earlier, ¬e.opening.toList <:+: tail.toList) :
    hintFor (line ++ tail) known = (s.complaint name).hint known := by
  refine (h.hint_iff htail known).mpr fun c hc => ?_
  obtain ⟨e, he, hread⟩ := List.exists_of_findSome?_eq_some hc
  rw [read?_none (hnone e he)] at hread
  exact nomatch hread

end Alone

/-- Behind a line about any shape but the first there is a text that hides it. -/
theorem Alone.eq_noTable {s : Shape} {name line : String} (h : Alone s name line)
    (known : List String) (hall : ∀ tail, IsTail tail →
      hintFor (line ++ tail) known = (s.complaint name).hint known) : s = .noTable := by
  by_contra hne
  have htail : IsTail "\nno such table: ?" := .inr ⟨"no such table: ?".toList, by decide⟩
  have hsame := (h.hint_iff htail known).mp (hall _ htail) _ (found_noTable hne)
  have hword := h.name_chars
  -- the name that is found is none of those that a line is about
  cases s with
  | noTable => exact hne rfl
  | tableNamed =>
      obtain rfl : "?" = name := missingTable.inj hsame
      exact absurd (hword '?' (by decide)) (by decide)
  | noColumn => exact nomatch hsame
  | columnReferenced => exact nomatch hsame
  | columnNamed => exact nomatch hsame

/-- **HINTS**: let a first line hold one shape about a name, and no other opening.  Whatever
    follows the line, the hint is that for the shape and the name exactly if no shape that is
    looked for earlier is found in what follows, or it says the same.  So it is when no such
    opening stands there.  Two hints for the line are the same exactly if what is found behind
    it says the same, or nothing; and all hints are right for one shape only, which is looked
    for first. -/
theorem hintFor_alone {s : Shape} {name line : String} (h : Alone s name line)
    (known : List String) :
    (∀ tail, IsTail tail → (hintFor (line ++ tail) known = (s.complaint name).hint known
        ↔ ∀ c ∈ found s.earlier tail, c = s.complaint name))
      ∧ (∀ tail, IsTail tail → (∀ e ∈ s.earlier, ¬e.opening.toList <:+: tail.toList) →
        hintFor (line ++ tail) known = (s.complaint name).hint known)
      ∧ (∀ tail tail', IsTail tail → IsTail tail' →
        (hintFor (line ++ tail) known = hintFor (line ++ tail') known
          ↔ (found s.earlier tail).getD (s.complaint name)
            = (found s.earlier tail').getD (s.complaint name)))
      ∧ ((∀ tail, IsTail tail → hintFor (line ++ tail) known = (s.complaint name).hint known)
        ↔ s = .noTable) := by
  refine ⟨fun tail htail => h.hint_iff htail known, fun tail htail => h.hint_silent htail known,
    fun tail tail' htail htail' => h.hint_eq_iff htail known htail', h.eq_noTable known, ?_⟩
  rintro rfl tail htail
  exact h.hint_silent htail known nofun

/-- Whether no opening stands in the characters but one, at one place. -/
def standsOnce (s : Shape) (place : Nat) (cs : List Char) : Bool :=
  Shape.order.all fun other => (List.range (cs.length + 1)).all fun i =>
    !other.opening.toList.isPrefixOf (cs.drop i) || (other == s && i == place)

theorem standsOnce_sound {s : Shape} {cs front : List Char} (back : List Char)
    (hsplit : cs = front ++ back)
    (h : standsOnce s front.length cs = true) (other : Shape) (a b : List Char)
    (hcs : cs = a ++ (other.opening.toList ++ b)) : other = s ∧ a = front := by
  have hmem : other ∈ Shape.order := by cases other <;> decide
  have hplace : a.length ∈ List.range (cs.length + 1) := by
    rw [List.mem_range, hcs, List.length_append]
    omega
  have hcheck := List.all_eq_true.mp (List.all_eq_true.mp h other hmem) a.length hplace
  have hbegins : other.opening.toList.isPrefixOf (cs.drop a.length) = true := by
    rw [hcs, List.drop_left, List.isPrefixOf_iff_prefix]
    exact ⟨b, rfl⟩
  rw [hbegins, Bool.not_true, Bool.false_or, Bool.and_eq_true, beq_iff_eq, beq_iff_eq] at hcheck
  refine ⟨hcheck.1, ?_⟩
  rw [hsplit] at hcs
  exact (List.append_inj hcs hcheck.2.symm).1.symm

theorem alone_catalog :
    Alone .tableNamed "staff" "Catalog Error: Table with name staff does not exist!" := by
  refine ⟨by decide, List.all_eq_true.mp rfl, "Catalog Error: ".toList, ['!'], by decide, nofun,
    ?_⟩
  exact standsOnce_sound "Table with name staff does not exist!".toList (by decide)
    (by decide +kernel)

theorem alone_binder :
    Alone .columnReferenced "nme"
      "Binder Error: Referenced column \"nme\" not found in FROM clause!" := by
  refine ⟨by decide, List.all_eq_true.mp rfl, "Binder Error: ".toList,
    " not found in FROM clause!".toList, by decide, nofun, ?_⟩
  exact standsOnce_sound "Referenced column \"nme\" not found in FROM clause!".toList (by decide)
    (by decide +kernel)

/-- A missing table, with a candidate and the statement behind the line. -/
theorem hintFor_alone_catalog :
    Alone .tableNamed "staff" "Catalog Error: Table with name staff does not exist!"
      ∧ hintFor ("Catalog Error: Table with name staff does not exist!"
          ++ "\nDid you mean \"stuff\"?\n\nLINE 1: SELECT 'Table with name x' FROM staff") ["stuff"]
        = (missingTable "staff").hint ["stuff"] :=
  ⟨alone_catalog, (hintFor_alone alone_catalog ["stuff"]).2.1 _
    (.inr ⟨"Did you mean \"stuff\"?\n\nLINE 1: SELECT 'Table with name x' FROM staff".toList,
      by decide⟩) (by decide +kernel)⟩

/-- A text in the statement hides the column that is missing. -/
theorem hintFor_hidden :
    Alone .columnReferenced "nme"
        "Binder Error: Referenced column \"nme\" not found in FROM clause!"
      ∧ hintFor ("Binder Error: Referenced column \"nme\" not found in FROM clause!" ++ "") ["t"]
        = "Column 'nme' does not exist. Check the spelling, and when the query uses table aliases make sure the prefix (for example e.name) points at the right table."
      ∧ hintFor ("Binder Error: Referenced column \"nme\" not found in FROM clause!"
          ++ "\nLINE 1: SELECT nme, 'no such table: x' FROM t") ["t"]
        = "Table 'x' FROM t' does not exist. Available tables: t." :=
  ⟨alone_binder, by decide +kernel, by decide +kernel⟩

end Complaint

end QueryReplay
