import QueryReplay.Proofs.Passing
import QueryReplay.Service.Body

/-! # Bodies — which bodies a record is read from

    A body is an object when it is members in braces (`IsObject`), each a name and a value
    of any size and depth.  What the members are is told by the text (`IsObject.unique`).
    Whatever the object, the fields of a record are read from it when each is written at
    most once and holds a text, or null where it may be left out (`record_object`); the
    other members do not matter, and are passed over. -/

namespace QueryReplay

open Json (skip?)
open Json.Read (skipGap)

namespace Json

/-! ## Objects as texts -/

/-- One member at the front of the characters: its name, what follows its colon, and what
    follows its value. -/
def IsMember (name : String) (value cs behind : List Char) : Prop :=
  ∃ quoted named, skipGap cs = '"' :: quoted ∧ Read.string quoted = some (name, named)
    ∧ skipGap named = ':' :: value ∧ skip? value = some behind

/-- Members behind an opening brace, and what follows the closing brace. -/
inductive Listed : List (String × List Char) → List Char → List Char → Prop
  | last {name : String} {value cs behind rest : List Char}
      (hmember : IsMember name value cs behind) (hclose : skipGap behind = '\x7d' :: rest) :
      Listed [(name, value)] cs rest
  | more {name : String} {value cs behind next rest : List Char} {ms : List (String × List Char)}
      (hmember : IsMember name value cs behind) (hcomma : skipGap behind = ',' :: next)
      (hms : Listed ms next rest) : Listed ((name, value) :: ms) cs rest

/-- A text that is an object of these members and nothing else. -/
def IsObject (ms : List (String × List Char)) (text : String) : Prop :=
  ∃ opened rest, skipGap text.toList = '\x7b' :: opened
    ∧ (Listed ms opened rest ∨ ms = [] ∧ skipGap opened = '\x7d' :: rest) ∧ skipGap rest = []

/-- The value is null. -/
def IsNull (value : List Char) : Prop :=
  ∃ rest, skipGap value = 'n' :: 'u' :: 'l' :: 'l' :: rest

/-- The value is a text. -/
def IsText (s : String) (value : List Char) : Prop :=
  ∃ quoted rest, skipGap value = '"' :: quoted ∧ Read.string quoted = some (s, rest)

/-- The text tells where a name and a value end. -/
theorem IsMember.unique {name name' : String} {value value' cs behind behind' : List Char}
    (h : IsMember name value cs behind) (h' : IsMember name' value' cs behind') :
    name = name' ∧ value = value' ∧ behind = behind' := by
  obtain ⟨quoted, named, hquote, hname, hcolon, hvalue⟩ := h
  obtain ⟨quoted', named', hquote', hname', hcolon', hvalue'⟩ := h'
  obtain rfl := (List.cons.inj (hquote.symm.trans hquote')).2
  obtain ⟨rfl, rfl⟩ := Prod.mk.inj (Option.some.inj (hname.symm.trans hname'))
  obtain rfl := (List.cons.inj (hcolon.symm.trans hcolon')).2
  exact ⟨rfl, rfl, Option.some.inj (hvalue.symm.trans hvalue')⟩

/-- So it tells the members. The induction is on the first account of them. -/
theorem Listed.unique {ms ms' : List (String × List Char)} {cs rest rest' : List Char}
    (h : Listed ms cs rest) (h' : Listed ms' cs rest') : ms = ms' := by
  induction h generalizing ms' with
  | last hmember hclose =>
      cases h' with
      | last hmember' _ =>
          obtain ⟨rfl, rfl, -⟩ := hmember.unique hmember'
          rfl
      | more hmember' hcomma _ =>
          obtain ⟨-, -, rfl⟩ := hmember.unique hmember'
          exact nomatch (hclose.symm.trans hcomma)
  | more hmember hcomma _ ih =>
      cases h' with
      | last hmember' hclose =>
          obtain ⟨-, -, rfl⟩ := hmember.unique hmember'
          exact nomatch (hclose.symm.trans hcomma)
      | more hmember' hcomma' hms' =>
          obtain ⟨rfl, rfl, rfl⟩ := hmember.unique hmember'
          obtain rfl := (List.cons.inj (hcomma.symm.trans hcomma')).2
          rw [ih hms']

/-- Members begin with the quote of a name. -/
theorem Listed.opens {ms : List (String × List Char)} {cs rest : List Char}
    (h : Listed ms cs rest) :
    ∃ quoted, skipGap cs = '"' :: quoted := by
  cases h with
  | last hmember _ =>
      obtain ⟨quoted, -, hquote, -⟩ := hmember
      exact ⟨quoted, hquote⟩
  | more hmember _ _ =>
      obtain ⟨quoted, -, hquote, -⟩ := hmember
      exact ⟨quoted, hquote⟩

/-- A text is an object of one list of members. -/
theorem IsObject.unique {ms ms' : List (String × List Char)} {text : String}
    (h : IsObject ms text) (h' : IsObject ms' text) : ms = ms' := by
  obtain ⟨opened, rest, hopen, hms, -⟩ := h
  obtain ⟨opened', rest', hopen', hms', -⟩ := h'
  obtain rfl := (List.cons.inj (hopen.symm.trans hopen')).2
  rcases hms with hms | ⟨rfl, hclose⟩ <;> rcases hms' with hms' | ⟨rfl, hclose'⟩
  · exact hms.unique hms'
  · obtain ⟨quoted, hquote⟩ := hms.opens
    exact nomatch (hquote.symm.trans hclose')
  · obtain ⟨quoted, hquote⟩ := hms'.opens
    exact nomatch (hquote.symm.trans hclose)
  · rfl

/-- A member takes at least the character that opens its name. -/
theorem IsMember.length {name : String} {value cs behind : List Char}
    (h : IsMember name value cs behind) : behind.length < cs.length := by
  obtain ⟨quoted, named, hquote, hname, hcolon, hvalue⟩ := h
  have hquoted : quoted.length < cs.length := by
    have hgap := (Skip.skipGap_suffix cs).length_le
    rw [hquote, List.length_cons] at hgap
    omega
  have hnamed := (Skip.string_suffix (Skip.string_of_read hname)).length_le
  have hvalued := (Skip.behind_suffix hcolon).length_le
  have hbehind := ((Skip.value_suffix _ hvalue).trans (Skip.skipGap_suffix value)).length_le
  omega

/-- There are no more members than characters, so the reader of members has enough fuel. -/
theorem Listed.length {ms : List (String × List Char)} {cs rest : List Char}
    (h : Listed ms cs rest) :
    ms.length ≤ cs.length := by
  induction h with
  | last hmember _ =>
      have hlength := hmember.length
      rw [List.length_singleton]
      omega
  | more hmember hcomma _ ih =>
      have hlength := hmember.length
      have hnext := (Skip.behind_suffix hcomma).length_le
      rw [List.length_cons]
      omega

end Json

/-! ## Records -/

namespace BodyReader

open Json (IsMember Listed IsObject IsNull IsText)

/-- The value is one that the field can have: a text, or null where it may be left out. -/
inductive Holds (f : TextField) (value : List Char) : Option String → Prop
  | null (hf : f.required = false) (h : IsNull value) : Holds f value none
  | text {s : String} (h : IsText s value) : Holds f value (some s)

/-- A field takes the value that it can have. -/
theorem fieldValue_holds {f : TextField} {value behind : List Char} {v : Option String}
    (h : Holds f value v) (hskip : skip? value = some behind) :
    fieldValue f value = .ok (v, behind) := by
  cases h with
  | null hf hnull =>
      obtain ⟨rest, hrest⟩ := hnull
      have hbehind : rest = behind := by
        unfold skip? at hskip
        rw [hrest] at hskip
        exact Option.some.inj hskip
      unfold fieldValue
      rw [hf, hrest, hbehind]
      rfl
  | @text s htext =>
      obtain ⟨quoted, rest, hquote, hread⟩ := htext
      have hbehind : rest = behind := by
        unfold skip? at hskip
        rw [hquote] at hskip
        exact Option.some.inj ((Json.Skip.string_of_read hread).symm.trans hskip)
      have htext : text ('"' :: quoted) = .ok (s, behind) := by
        show orMalformed (Json.Read.string quoted) = _
        rw [hread, hbehind]
        rfl
      unfold fieldValue
      rw [hquote]
      cases f.required with
      | false => exact congrArg (· >>= _) htext
      | true => exact congrArg (· >>= _) htext

/-- What a record takes from members: those that are its fields, with their values. -/
inductive Collects (fields : List TextField) :
    List (String × List Char) → List (String × Option String) → Prop
  | nil : Collects fields [] []
  | pass {name : String} {value : List Char} {ms : List (String × List Char)}
      {vs : List (String × Option String)} (hname : (fields.find? fun f => f.name == name) = none)
      (hms : Collects fields ms vs) : Collects fields ((name, value) :: ms) vs
  | take {name : String} {value : List Char} {ms : List (String × List Char)}
      {vs : List (String × Option String)} {f : TextField} {v : Option String}
      (hname : (fields.find? fun f => f.name == name) = some f) (hvalue : Holds f value v)
      (hms : Collects fields ms vs) : Collects fields ((name, value) :: ms) ((name, v) :: vs)

/-- Behind the name there is a colon. -/
theorem afterColon_ok {named value : List Char} (h : skipGap named = ':' :: value) :
    afterColon named = .ok value := by
  unfold afterColon
  rw [h]
  rfl

/-- A member that no field is named for is passed over. -/
theorem memberValue_pass {fields : List TextField} (found : List (String × Option String))
    {name : String} {named value behind : List Char}
    (hname : (fields.find? fun f => f.name == name) = none) (hcolon : skipGap named = ':' :: value)
    (hskip : skip? value = some behind) :
    memberValue fields found name named = .ok (found, behind) := by
  unfold memberValue
  rw [hname, afterColon_ok hcolon]
  show (orMalformed (skip? value) >>= fun rest => pure (found, rest)) = _
  rw [hskip]
  rfl

/-- A member that a field is named for is taken when the name is new. -/
theorem memberValue_take {fields : List TextField} {found : List (String × Option String)}
    {f : TextField} {v : Option String} {name : String} {named value behind : List Char}
    (hname : (fields.find? fun f => f.name == name) = some f) (hfree : found.lookup name = none)
    (hcolon : skipGap named = ':' :: value) (hvalue : Holds f value v)
    (hskip : skip? value = some behind) :
    memberValue fields found name named = .ok (found ++ [(name, v)], behind) := by
  unfold memberValue
  rw [hname, hfree, afterColon_ok hcolon]
  show (fieldValue f value >>= fun p => pure (found ++ [(name, p.1)], p.2)) = _
  rw [fieldValue_holds hvalue hskip]
  rfl

section Members

variable {fields : List TextField} {found found' : List (String × Option String)} {name : String}
  {cs quoted named behind rest : List Char} (hquote : skipGap cs = '"' :: quoted)
  (hname : Json.Read.string quoted = some (name, named))
  (hread : memberValue fields found name named = .ok (found', behind))
include hquote hname hread

/-- A brace ends the members. -/
theorem members_close (hclose : skipGap behind = '\x7d' :: rest) (fuel : Nat) :
    members fields (fuel + 1) found cs = .ok (found', rest) := by
  simp only [members, hquote, hname, orMalformed, hread, hclose, bind, Except.bind]
  rfl

/-- A comma goes on to the next one. -/
theorem members_comma (hcomma : skipGap behind = ',' :: rest) (fuel : Nat) :
    members fields (fuel + 1) found cs = members fields fuel found' rest := by
  simp only [members, hquote, hname, orMalformed, hread, hcomma, bind, Except.bind]

end Members

/-- A member is passed over, or its value is put behind those that were found. -/
theorem member_listed {fields : List TextField} {name : String} {value cs behind : List Char}
    {ms : List (String × List Char)} {found vs : List (String × Option String)}
    (h : IsMember name value cs behind) (hvs : Collects fields ((name, value) :: ms) vs)
    (honce : ((found ++ vs).map Prod.fst).Nodup) :
    ∃ quoted named found' vs', skipGap cs = '"' :: quoted
      ∧ Json.Read.string quoted = some (name, named)
      ∧ memberValue fields found name named = .ok (found', behind)
      ∧ Collects fields ms vs' ∧ found ++ vs = found' ++ vs' := by
  obtain ⟨quoted, named, hquote, hname, hcolon, hskip⟩ := h
  cases hvs with
  | pass hnone hms =>
      have hread := memberValue_pass found hnone hcolon hskip
      exact ⟨quoted, named, found, vs, hquote, hname, hread, hms, rfl⟩
  | @take _ _ _ vs f v hsome hvalue hms =>
      have hfree : found.lookup name = none := by
        rw [List.lookup_eq_none_iff]
        intro p hp
        rw [List.map_append, List.nodup_append] at honce
        have hother := honce.2.2 p.1 (List.mem_map_of_mem hp) name List.mem_cons_self
        exact bne_iff_ne.mpr hother.symm
      have hread := memberValue_take hsome hfree hcolon hvalue hskip
      exact ⟨quoted, named, _, vs, hquote, hname, hread, hms, by simp⟩

/-- Members are read to the end when no field is written twice. -/
theorem members_listed {fields : List TextField} {ms : List (String × List Char)}
    (found : List (String × Option String)) {vs : List (String × Option String)}
    {cs rest : List Char} {fuel : Nat} (h : Listed ms cs rest) (hvs : Collects fields ms vs)
    (honce : ((found ++ vs).map Prod.fst).Nodup) (hfuel : ms.length ≤ fuel) :
    members fields fuel found cs = .ok (found ++ vs, rest) := by
  induction h generalizing found vs fuel with
  | last hmember hclose =>
      obtain ⟨fuel, rfl⟩ : ∃ n, fuel = n + 1 := ⟨fuel - 1, by simp at hfuel; omega⟩
      obtain ⟨quoted, named, found', vs', hquote, hname, hread, hms, hsplit⟩ :=
        member_listed hmember hvs honce
      cases hms
      rw [hsplit, List.append_nil]
      exact members_close hquote hname hread hclose fuel
  | more hmember hcomma hms ih =>
      obtain ⟨fuel, rfl⟩ : ∃ n, fuel = n + 1 := ⟨fuel - 1, by simp at hfuel; omega⟩
      obtain ⟨quoted, named, found', vs', hquote, hname, hread, hms, hsplit⟩ :=
        member_listed hmember hvs honce
      rw [hsplit] at honce ⊢
      rw [members_comma hquote hname hread hcomma]
      exact ih _ hms honce (by simpa using hfuel)

/-- **RECORDS**: the fields of a record are read from every object that writes each of
    them at most once and with a value that it can have, whatever its other members are. -/
theorem record_object {fields : List TextField} {ms : List (String × List Char)}
    {vs : List (String × Option String)} {body : String} (h : IsObject ms body)
    (hvs : Collects fields ms vs) (honce : (vs.map Prod.fst).Nodup) :
    record fields body = valuesOf fields vs := by
  obtain ⟨opened, rest, hopen, hms, -⟩ := h
  unfold record
  rw [hopen]
  rcases hms with hms | ⟨rfl, hclose⟩
  · obtain ⟨quoted, hquote⟩ := hms.opens
    have hread := members_listed [] hms hvs honce (Nat.le_succ_of_le hms.length)
    simp only [hquote, hread]
    rfl
  · cases hvs
    simp only [hclose]
    rfl

end BodyReader

end QueryReplay
