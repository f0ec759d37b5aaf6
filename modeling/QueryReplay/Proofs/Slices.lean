import Mathlib.Data.List.Induction
import QueryReplay.Text.Blank
import QueryReplay.Text.Bytes

/-! # Slices and trimming

    Cuts are made at byte offsets, and every offset that occurs is the size of
    a prefix of the text.  Such a cut falls between characters and gives the
    prefix and the rest (`slice_middle`).  Trimming takes a run of matching
    characters off the end and stops at the first other one
    (`dropTrailing_split`). -/

namespace QueryReplay.Text

-- the zero of a sum is the core library's, as in `StatementParser.byteSize`
attribute [local instance (high)] Zero.ofOfNat0

/-! ## Sizes -/

/-- The bytes that characters take. -/
def bytes (cs : List Char) : Nat := (cs.map Char.utf8Size).sum

@[simp] theorem bytes_nil : bytes [] = 0 := rfl

theorem bytes_cons (c : Char) (cs : List Char) : bytes (c :: cs) = c.utf8Size + bytes cs := rfl

theorem bytes_append (cs ds : List Char) : bytes (cs ++ ds) = bytes cs + bytes ds := by
  simp [bytes]

theorem utf8ByteSize_ofList (cs : List Char) : (String.ofList cs).utf8ByteSize = bytes cs := by
  induction cs with
  | nil => rfl
  | cons c rest ih =>
      rw [String.ofList_cons, String.utf8ByteSize_append, String.utf8ByteSize_singleton, ih]
      rfl

theorem utf8ByteSize_eq_bytes (s : String) : s.utf8ByteSize = bytes s.toList := by
  rw [← utf8ByteSize_ofList, String.ofList_toList]

/-! ## Cuts -/

theorem takeBytes_append (cs ds : List Char) : takeBytes (bytes cs) (cs ++ ds) = cs := by
  induction cs with
  | nil =>
      cases ds with
      | nil => rfl
      | cons d rest =>
          have hpos := d.utf8Size_pos
          show takeBytes 0 (d :: rest) = []
          rw [takeBytes, if_neg (by omega)]
  | cons c rest ih =>
      rw [List.cons_append, bytes_cons, takeBytes, if_pos (Nat.le_add_right _ _),
        Nat.add_sub_cancel_left, ih]

theorem dropBytes_append (cs ds : List Char) : dropBytes (bytes cs) (cs ++ ds) = ds := by
  have h := takeBytes_append_dropBytes (bytes cs) (cs ++ ds)
  rw [takeBytes_append] at h
  exact List.append_cancel_left h

/-- The slice between two prefixes. -/
theorem slice_middle (before middle after : List Char) :
    slice (String.ofList (before ++ (middle ++ after))) (bytes before)
      (bytes before + bytes middle) = String.ofList middle := by
  rw [slice, String.toList_ofList, dropBytes_append, Nat.add_sub_cancel_left, takeBytes_append]

/-- The slice up to a prefix. -/
theorem slice_front (front after : List Char) :
    slice (String.ofList (front ++ after)) 0 (bytes front) = String.ofList front := by
  have h := slice_middle [] front after
  rw [bytes_nil, Nat.zero_add] at h
  exact h

/-- The slice of the whole text. -/
theorem slice_whole (s : String) : slice s 0 s.utf8ByteSize = s := by
  have h := slice_front s.toList []
  rw [List.append_nil, String.ofList_toList, ← utf8ByteSize_eq_bytes] at h
  exact h

/-! ## Trimming -/

section Trailing

variable {p q : Char → Bool}

/-- Characters that match are taken off the end. -/
theorem dropTrailing_append_of_all (cs : List Char) {ds : List Char} (h : ∀ d ∈ ds, p d = true) :
    dropTrailing p (cs ++ ds) = dropTrailing p cs := by
  unfold dropTrailing
  rw [List.reverse_append, List.dropWhile_append_of_pos (fun d hd => h d (List.mem_reverse.mp hd))]

/-- A last character that does not match stays. -/
theorem dropTrailing_concat {c : Char} (cs : List Char) (h : p c = false) :
    dropTrailing p (cs ++ [c]) = cs ++ [c] := by
  unfold dropTrailing
  rw [List.reverse_append, List.reverse_singleton, List.singleton_append,
    List.dropWhile_cons_of_neg (by rw [h]; exact Bool.false_ne_true), List.reverse_cons,
    List.reverse_reverse]

/-- A text is what trimming leaves and a run of matching characters; what is
    left is empty or ends in a character that does not match. -/
theorem dropTrailing_split (p : Char → Bool) (cs : List Char) :
    ∃ ds, cs = dropTrailing p cs ++ ds ∧ (∀ d ∈ ds, p d = true)
      ∧ (dropTrailing p cs = [] ∨ ∃ front c, dropTrailing p cs = front ++ [c] ∧ p c = false) := by
  induction cs using List.reverseRecOn with
  | nil => exact ⟨[], rfl, fun _ h => absurd h List.not_mem_nil, Or.inl rfl⟩
  | append_singleton front c ih =>
      by_cases hc : p c = true
      · obtain ⟨ds, hsplit, hall, hend⟩ := ih
        have hdrop : dropTrailing p (front ++ [c]) = dropTrailing p front :=
          dropTrailing_append_of_all front (fun d hd => List.mem_singleton.mp hd ▸ hc)
        refine ⟨ds ++ [c], ?_, ?_, ?_⟩
        · rw [hdrop, ← List.append_assoc, ← hsplit]
        · intro d hd
          rcases List.mem_append.mp hd with hd | hd
          · exact hall d hd
          · exact List.mem_singleton.mp hd ▸ hc
        · rw [hdrop]
          exact hend
      · have hc : p c = false := Bool.eq_false_iff.mpr hc
        rw [dropTrailing_concat front hc]
        exact ⟨[], (List.append_nil _).symm, fun _ h => absurd h List.not_mem_nil,
          Or.inr ⟨front, c, rfl, hc⟩⟩

/-- A second trimming that takes less finds nothing to take. -/
theorem dropTrailing_of_imp (h : ∀ c, q c = true → p c = true) (cs : List Char) :
    dropTrailing q (dropTrailing p cs) = dropTrailing p cs := by
  obtain ⟨ds, -, -, hnil | ⟨front, c, hconcat, hc⟩⟩ := dropTrailing_split p cs
  · rw [hnil]
    rfl
  · rw [hconcat]
    refine dropTrailing_concat front ?_
    cases hq : q c with
    | false => rfl
    | true => exact absurd (h c hq) (by rw [hc]; exact Bool.false_ne_true)

/-- A first trimming that takes less makes no difference. -/
theorem dropTrailing_behind_imp (h : ∀ c, q c = true → p c = true) (cs : List Char) :
    dropTrailing p (dropTrailing q cs) = dropTrailing p cs := by
  obtain ⟨ds, hsplit, hall, -⟩ := dropTrailing_split q cs
  have hdropped := dropTrailing_append_of_all (dropTrailing q cs) fun d hd => h d (hall d hd)
  rw [← hsplit] at hdropped
  exact hdropped.symm

/-- Trimming reaches into the second part only, unless nothing of it is left. -/
theorem dropTrailing_append (cs : List Char) {ds : List Char} (h : dropTrailing p ds ≠ []) :
    dropTrailing p (cs ++ ds) = cs ++ dropTrailing p ds := by
  obtain ⟨es, hsplit, hall, hnil | ⟨front, c, hconcat, hc⟩⟩ := dropTrailing_split p ds
  · exact absurd hnil h
  · rw [hconcat] at hsplit ⊢
    rw [hsplit, ← List.append_assoc, dropTrailing_append_of_all _ hall, ← List.append_assoc,
      dropTrailing_concat _ hc]

/-- A second part of which nothing is left goes altogether. -/
theorem dropTrailing_append_nil (cs : List Char) {ds : List Char} (h : dropTrailing p ds = []) :
    dropTrailing p (cs ++ ds) = dropTrailing p cs := by
  obtain ⟨es, hsplit, hall, -⟩ := dropTrailing_split p ds
  rw [h, List.nil_append] at hsplit
  exact dropTrailing_append_of_all cs (hsplit ▸ hall)

/-- Trimming stops at a character that does not match. -/
theorem dropTrailing_behind {c : Char} (cs : List Char) (h : p c = false) (ds : List Char) :
    dropTrailing p (cs ++ [c] ++ ds) = cs ++ [c] ++ dropTrailing p ds := by
  by_cases hds : dropTrailing p ds = []
  · rw [dropTrailing_append_nil _ hds, dropTrailing_concat cs h, hds, List.append_nil]
  · exact dropTrailing_append _ hds

end Trailing

end QueryReplay.Text
