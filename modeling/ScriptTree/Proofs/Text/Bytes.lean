import Mathlib
import ScriptTree.Text.Source

/-! Byte offsets of a text.

A text is as wide as its characters together, and the offset behind any of its beginnings falls
between two characters. An edit puts a text in the place of a span; edits stand in the order of the text
and do not overlap, so between them the text stays as it is (`applyEdits_gap`). -/
namespace ScriptTree

/-! ### Widths -/

theorem byteLength_cons (c : Char) (cs : List Char) :
    byteLength (c :: cs) = c.utf8Size + byteLength cs := rfl

theorem byteLength_append (a b : List Char) :
    byteLength (a ++ b) = byteLength a + byteLength b := by
  induction a with
  | nil => exact (Nat.zero_add _).symm
  | cons c a ih => rw [List.cons_append, byteLength_cons, byteLength_cons, ih, Nat.add_assoc]

theorem byteLength_pos {cs : List Char} (h : cs ≠ []) : 0 < byteLength cs := by
  obtain ⟨c, cs, rfl⟩ := List.exists_cons_of_ne_nil h
  have := c.utf8Size_pos
  rw [byteLength_cons]
  omega

theorem utf8ByteSize_ofList (cs : List Char) : (String.ofList cs).utf8ByteSize = byteLength cs := by
  induction cs with
  | nil => rfl
  | cons c cs ih =>
    rw [← List.singleton_append, String.ofList_append, String.utf8ByteSize_append, ih]
    exact congrArg (· + _) String.utf8ByteSize_singleton

/-- The offset behind the beginning of a source falls between two characters. -/
theorem isValid_byteLength {source : String} {front back : List Char}
    (h : front ++ back = source.toList) :
    (⟨byteLength front⟩ : String.Pos.Raw).IsValid source := by
  have hsource : source = String.ofList front ++ String.ofList back := by
    rw [← String.ofList_append, h, String.ofList_toList]
  rw [hsource, ← utf8ByteSize_ofList front]
  exact String.Pos.Raw.isValid_rawEndPos.append_right _

/-- An offset that falls between two characters divides the source. -/
theorem exists_split_of_isValid {source : String} {offset : Nat}
    (h : (⟨offset⟩ : String.Pos.Raw).IsValid source) :
    ∃ front back, front ++ back = source.toList ∧ byteLength front = offset := by
  obtain ⟨a, b, rfl, hoffset⟩ := String.Pos.Raw.isValid_iff_exists_append.mp h
  refine ⟨a.toList, b.toList, String.toList_append.symm, ?_⟩
  rw [← utf8ByteSize_ofList, String.ofList_toList]
  exact (congrArg String.Pos.Raw.byteIdx hoffset).symm

/-! ### Edits -/

/-- What to put in the place of a span. -/
structure Edit where
  span : Span
  text : List Char
deriving DecidableEq, Repr

/-- The text up to byte `n`. -/
def takeBytes : Nat → List Char → List Char
  | 0, _ => []
  | _ + 1, [] => []
  | n + 1, c :: cs => c :: takeBytes (n + 1 - c.utf8Size) cs

/-- A text that starts at `start`, with edits. -/
def applyEdits (start : Nat) (cs : List Char) : List Edit → List Char
  | [] => cs
  | e :: edits => takeBytes (e.span.start - start) cs ++ e.text ++
      applyEdits e.span.stop (dropBytes (e.span.stop - start) cs) edits

/-- A source with edits. -/
def edited (source : String) (edits : List Edit) : String :=
  .ofList (applyEdits 0 source.toList edits)

section Edits
variable {start : Nat} {a b : List Char} {edits : List Edit}

theorem takeBytes_append (a b : List Char) (n : Nat) :
    takeBytes (byteLength a + n) (a ++ b) = a ++ takeBytes n b := by
  induction a with
  | nil => rw [show byteLength [] = 0 from rfl, Nat.zero_add, List.nil_append, List.nil_append]
  | cons c a ih =>
    obtain ⟨k, hk⟩ := Nat.exists_eq_succ_of_ne_zero c.utf8Size_pos.ne'
    have hwidth : byteLength (c :: a) + n = (k + byteLength a + n) + 1 := by
      rw [byteLength_cons, hk]
      omega
    have hrest : k + byteLength a + n + 1 - c.utf8Size = byteLength a + n := by omega
    rw [hwidth, List.cons_append, takeBytes, hrest, ih, List.cons_append]

theorem dropBytes_append (a b : List Char) (n : Nat) :
    dropBytes (byteLength a + n) (a ++ b) = dropBytes n b := by
  induction a with
  | nil => rw [show byteLength [] = 0 from rfl, Nat.zero_add, List.nil_append]
  | cons c a ih =>
    obtain ⟨k, hk⟩ := Nat.exists_eq_succ_of_ne_zero c.utf8Size_pos.ne'
    have hwidth : byteLength (c :: a) + n = (k + byteLength a + n) + 1 := by
      rw [byteLength_cons, hk]
      omega
    have hrest : k + byteLength a + n + 1 - c.utf8Size = byteLength a + n := by omega
    rw [hwidth, List.cons_append, dropBytes, hrest, ih]

theorem takeBytes_zero (cs : List Char) : takeBytes 0 cs = [] := by
  cases cs <;> rfl

theorem dropBytes_zero (cs : List Char) : dropBytes 0 cs = cs := by
  cases cs <;> rfl

/-- In front of the first edit, the text stays. -/
theorem applyEdits_gap (h : ∀ e ∈ edits.head?, start + byteLength a ≤ e.span.start ∧
    e.span.start ≤ e.span.stop) :
    applyEdits start (a ++ b) edits = a ++ applyEdits (start + byteLength a) b edits := by
  cases edits with
  | nil => rfl
  | cons e edits =>
    obtain ⟨hstart, hstop⟩ := h e rfl
    have htake : e.span.start - start = byteLength a + (e.span.start - (start + byteLength a)) := by
      omega
    have hdrop : e.span.stop - start = byteLength a + (e.span.stop - (start + byteLength a)) := by
      omega
    rw [applyEdits, applyEdits, htake, hdrop, takeBytes_append, dropBytes_append, List.append_assoc,
      List.append_assoc, List.append_assoc]

/-- An edit of what the text starts with. -/
theorem applyEdits_here (text : List Char) :
    applyEdits start (a ++ b) (⟨⟨start, start + byteLength a⟩, text⟩ :: edits) =
      text ++ applyEdits (start + byteLength a) b edits := by
  have hdrop : dropBytes (start + byteLength a - start) (a ++ b) = b := by
    rw [Nat.add_sub_cancel_left, ← Nat.add_zero (byteLength a), dropBytes_append, dropBytes_zero]
  rw [applyEdits, hdrop, Nat.sub_self, takeBytes_zero, List.nil_append]

end Edits

end ScriptTree
