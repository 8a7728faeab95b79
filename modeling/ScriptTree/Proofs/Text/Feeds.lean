import Mathlib
import ScriptTree.Proofs.Text.Slicing

/-! Points by counting line feeds.

A byte 0x0A of a text in UTF-8 is a line feed: no other character has such a byte. So the row of an
offset is the number of those bytes in front of it, and its column the distance from the byte behind
the last of them (`point_eq_feeds`), also past the end of the text. An offset in front of another one
has the smaller point, because a row that ends between the two has its feed there (`point_lt`).

A binary search for an offset answers at which row it stands, or in front of which row it would have to
be put in. `point?` counts back from the second answer only if there is a row to go back to, and there
always is: the first row starts at zero (`point?_eq`). -/
namespace ScriptTree

/-- The bytes of a text in UTF-8. -/
def utf8Bytes (source : String) : List UInt8 := source.toUTF8.data.toList

/-- The positions below an offset that hold a line feed. -/
def feedsBelow (bytes : List UInt8) (offset : Nat) : List Nat :=
  (List.range offset).filter fun i => bytes[i]? == some 0x0A

/-- The position just behind the last line feed below an offset, the start of the text if there is
none. -/
def rowStart (bytes : List UInt8) (offset : Nat) : Nat :=
  ((feedsBelow bytes offset).getLast?.map (· + 1)).getD 0

/-! ### Bytes of characters -/

theorem utf8Bytes_eq (source : String) :
    utf8Bytes source = source.toList.flatMap String.utf8EncodeChar := by
  rw [utf8Bytes, String.toUTF8, ← String.utf8Encode_toList, List.utf8Encode]
  simp

theorem length_flatMap_encode (cs : List Char) :
    (cs.flatMap String.utf8EncodeChar).length = byteLength cs := by
  induction cs with
  | nil => rfl
  | cons c cs ih =>
    rw [List.flatMap_cons, List.length_append, String.length_utf8EncodeChar, ih, byteLength_cons]

theorem length_utf8Bytes (source : String) : (utf8Bytes source).length = source.utf8ByteSize := by
  rw [utf8Bytes_eq, length_flatMap_encode, ← utf8ByteSize_ofList, String.ofList_toList]

/-- Only a line feed has the byte of a line feed. -/
theorem eq_feed_of_mem_encode {c : Char} (h : 0x0A ∈ String.utf8EncodeChar c) : c = '\n' := by
  have hbyte {n : Nat} (hn : n < 256) (h : (0x0A : UInt8) = .ofNat n) : n = 0x0A := by
    have := congrArg UInt8.toNat h
    rw [UInt8.toNat_ofNat, UInt8.toNat_ofNat', Nat.mod_eq_of_lt hn] at this
    exact this.symm
  refine Char.toNat_inj.mp ?_
  rw [String.utf8EncodeChar] at h
  have hval : c.toNat = c.val.toNat := rfl
  have hfeed : ('\n' : Char).toNat = 0x0A := rfl
  rw [hval, hfeed]
  split at h
  · simp only [List.mem_singleton] at h
    exact hbyte (by omega) h
  · -- All bytes of a longer character are at least 0x80.
    split at h
    · simp only [List.mem_cons, List.not_mem_nil, or_false] at h
      rcases h with h | h <;> have := hbyte (by omega) h <;> omega
    · split at h <;> simp only [List.mem_cons, List.not_mem_nil, or_false] at h
      · rcases h with h | h | h <;> have := hbyte (by omega) h <;> omega
      · rcases h with h | h | h | h <;> have := hbyte (by omega) h <;> omega

/-! ### Feeds of a text put together -/

section Feeds
variable {bytes front back : List UInt8} {offset o₁ o₂ i : Nat}

theorem mem_feedsBelow : i ∈ feedsBelow bytes offset ↔ i < offset ∧ bytes[i]? = some 0x0A := by
  simp [feedsBelow]

/-- The feeds of a text that has another one in front. -/
theorem feedsBelow_append (front back : List UInt8) (offset : Nat) :
    feedsBelow (front ++ back) (front.length + offset) =
      feedsBelow front front.length ++ (feedsBelow back offset).map (front.length + ·) := by
  rw [feedsBelow, List.range_add, List.filter_append, List.filter_map]
  refine congrArg₂ (· ++ ·) (List.filter_congr fun i hi => ?_)
    (congrArg _ (List.filter_congr fun i _ => ?_))
  · rw [List.getElem?_append_left (List.mem_range.mp hi)]
  · rw [Function.comp_apply, List.getElem?_append_right (Nat.le_add_right _ _),
      Nat.add_sub_cancel_left]

theorem feedsBelow_eq_nil (h : ∀ i < offset, bytes[i]? ≠ some 0x0A) :
    feedsBelow bytes offset = [] :=
  List.eq_nil_iff_forall_not_mem.mpr fun i hi =>
    h i (mem_feedsBelow.mp hi).1 (mem_feedsBelow.mp hi).2

/-- Inside a character there is no feed. -/
theorem feedsBelow_inside {c : Char} (h : offset < c.utf8Size) :
    feedsBelow (String.utf8EncodeChar c ++ back) offset = [] := by
  refine feedsBelow_eq_nil fun i hi hfeed => ?_
  have hin : i < (String.utf8EncodeChar c).length := by
    rw [String.length_utf8EncodeChar]
    omega
  rw [List.getElem?_append_left hin] at hfeed
  obtain rfl := eq_feed_of_mem_encode (List.mem_of_getElem? hfeed)
  have : offset < 1 := h
  omega

theorem feedsBelow_char (c : Char) :
    feedsBelow (String.utf8EncodeChar c) c.utf8Size = if c = '\n' then [0] else [] := by
  split
  · next h =>
    subst h
    decide
  · next h =>
    exact feedsBelow_eq_nil fun i _ hfeed => h (eq_feed_of_mem_encode (List.mem_of_getElem? hfeed))

/-- Farther on, the feeds between the two offsets come in addition. -/
theorem feedsBelow_of_le (bytes : List UInt8) (h : o₁ ≤ o₂) :
    feedsBelow bytes o₂ = feedsBelow bytes o₁ ++
      (List.range' o₁ (o₂ - o₁)).filter fun i => bytes[i]? == some 0x0A := by
  have hrange : List.range o₂ = List.range o₁ ++ List.range' o₁ (o₂ - o₁) := by
    have := @List.range'_append_1 0 o₁ (o₂ - o₁)
    rw [Nat.zero_add, Nat.add_sub_cancel' h, ← List.range_eq_range', ← List.range_eq_range'] at this
    exact this.symm
  rw [feedsBelow, hrange, List.filter_append]
  rfl

theorem rowStart_le (bytes : List UInt8) (offset : Nat) : rowStart bytes offset ≤ offset := by
  rw [rowStart]
  cases hlast : (feedsBelow bytes offset).getLast? with
  | none => exact Nat.zero_le _
  | some i => exact (mem_feedsBelow.mp (List.mem_of_getLast? hlast)).1

/-- From the start of a row on there is no feed up to the offset. -/
theorem not_feed_of_rowStart_le (hstart : rowStart bytes offset ≤ i) (hi : i < offset) :
    bytes[i]? ≠ some 0x0A := by
  intro hfeed
  have hmem : i ∈ feedsBelow bytes offset := mem_feedsBelow.mpr ⟨hi, hfeed⟩
  have hsorted : (feedsBelow bytes offset).Pairwise (· < ·) :=
    List.pairwise_lt_range.filter _
  have hne := List.ne_nil_of_mem hmem
  have hlast : i ≤ (feedsBelow bytes offset).getLast hne := by
    rw [← List.dropLast_append_getLast hne] at hsorted hmem
    rcases List.mem_append.mp hmem with hfront | hend
    · exact (List.pairwise_append.mp hsorted).2.2 i hfront _ (List.mem_singleton_self _) |>.le
    · exact (List.mem_singleton.mp hend).le
  rw [rowStart, List.getLast?_eq_some_getLast hne] at hstart
  exact absurd (Nat.lt_of_lt_of_le (Nat.lt_succ_of_le hlast) hstart) (Nat.lt_irrefl _)

end Feeds

/-! ### Going through a text -/

/-- The point to which one comes from a point by going through a text is told by its feeds. -/
theorem Point.through_eq (p : Point) (cs : List Char) (offset : Nat) :
    p.through cs offset =
      ⟨p.row + (feedsBelow (cs.flatMap String.utf8EncodeChar) offset).length,
        match (feedsBelow (cs.flatMap String.utf8EncodeChar) offset).getLast? with
        | some i => offset - (i + 1)
        | none => p.column + offset⟩ := by
  induction cs generalizing p offset with
  | nil =>
    rw [feedsBelow_eq_nil (fun i _ => by simp)]
    rfl
  | cons c cs ih =>
    rw [List.flatMap_cons, through]
    split
    · next hinside =>
      rw [feedsBelow_inside hinside]
      rfl
    · next hpast =>
      obtain ⟨rest, rfl⟩ := Nat.exists_eq_add_of_le (Nat.le_of_not_lt hpast)
      rw [Nat.add_sub_cancel_left, ih]
      have hfeeds := feedsBelow_append (String.utf8EncodeChar c)
        (cs.flatMap String.utf8EncodeChar) rest
      rw [String.length_utf8EncodeChar, feedsBelow_char] at hfeeds
      rw [hfeeds]
      by_cases hc : c = '\n'
      · subst hc
        have hsize : ('\n' : Char).utf8Size = 1 := rfl
        cases hlast : (feedsBelow (cs.flatMap String.utf8EncodeChar) rest).getLast? with
        | none => simp [List.getLast?_eq_none_iff.mp hlast, hsize]
        | some i => simp [List.getLast?_cons, hlast, hsize]; omega
      · simp only [if_neg hc, List.nil_append, List.length_map, List.getLast?_map]
        cases hlast : (feedsBelow (cs.flatMap String.utf8EncodeChar) rest).getLast? with
        | none => simp; omega
        | some i => simp; omega

namespace LineIndex

/-- The point of an offset counts the feeds in front of it and the bytes behind the last of them. -/
theorem point_eq_feeds (source : String) (offset : Nat) :
    (ofString source).point offset =
      ⟨(feedsBelow (utf8Bytes source) offset).length,
        offset - rowStart (utf8Bytes source) offset⟩ := by
  rw [ofString, point_eq, Point.through_eq, ← utf8Bytes_eq, rowStart, Nat.zero_add]
  cases (feedsBelow (utf8Bytes source) offset).getLast? with
  | none => simp
  | some i => rfl

/-- Its column back from an offset, the row starts. -/
theorem sub_column (source : String) (offset : Nat) :
    ((ofString source).point offset).column ≤ offset ∧
      offset - ((ofString source).point offset).column = rowStart (utf8Bytes source) offset := by
  have hle := rowStart_le (utf8Bytes source) offset
  rw [point_eq_feeds]
  exact ⟨Nat.sub_le _ _, Nat.sub_sub_self hle⟩

theorem point_lt (source : String) {o₁ o₂ : Nat} (h : o₁ < o₂) :
    compare ((ofString source).point o₁) ((ofString source).point o₂) = .lt := by
  rw [point_eq_feeds, point_eq_feeds]
  set bytes := utf8Bytes source
  have hfeeds := feedsBelow_of_le bytes h.le
  show (compare _ _).then (compare _ _) = _
  cases hbetween : (List.range' o₁ (o₂ - o₁)).filter fun i => bytes[i]? == some 0x0A with
  | nil =>
    -- In one row, the column decides.
    rw [hbetween, List.append_nil] at hfeeds
    have hle := rowStart_le bytes o₁
    have hstart : rowStart bytes o₂ = rowStart bytes o₁ := by rw [rowStart, hfeeds, rowStart]
    have hcolumn : o₁ - rowStart bytes o₁ < o₂ - rowStart bytes o₁ := by omega
    rw [hfeeds, hstart, Nat.compare_eq_eq.mpr rfl, Nat.compare_eq_lt.mpr hcolumn]
    rfl
  | cons i more =>
    have hrow : (feedsBelow bytes o₁).length < (feedsBelow bytes o₂).length := by
      rw [hfeeds, hbetween, List.length_append, List.length_cons]
      omega
    rw [Nat.compare_eq_lt.mpr hrow]
    rfl

/-! ### Looking a row up -/

/-- What a search answers: a place at which the value stands, or one in front of which it would have
to be put in. -/
inductive Found where
  | here (row : Nat)
  | before (row : Nat)

/-- Where an offset is among the row starts. -/
def search (index : LineIndex) (offset : Nat) : Found :=
  match index.starts.toList.findIdx? (· == offset) with
  | some row => .here row
  | none => .before (index.starts.toList.findIdx (decide <| offset < ·))

/-- The point of an offset, if the search for it leaves a row that is there and starts no later. -/
def point? (index : LineIndex) (offset : Nat) : Option Point := do
  let row ← match index.search offset with
    | .here row => some row
    | .before 0 => none
    | .before (row + 1) => some row
  let start ← index.starts[row]?
  if start ≤ offset then some ⟨row, offset - start⟩ else none

theorem IsRow.unique {starts : Array Nat} {offset row row' : Nat} (h : IsRow starts offset row)
    (h' : IsRow starts offset row') : row = row' := by
  rcases Nat.lt_trichotomy row row' with hlt | heq | hgt
  · have := h.behind row' hlt h'.inside
    have := h'.before
    omega
  · exact heq
  · have := h'.behind row hgt h.inside
    have := h.before
    omega

theorem IsRow.getElem?_eq {starts : Array Nat} {offset row : Nat} (h : IsRow starts offset row) :
    starts[row]? = some (starts.getD row 0) := by
  rw [Array.getD_eq_getD_getElem?, Array.getElem?_eq_getElem h.inside]
  rfl

/-- A search leads to the row of an offset: it finds the row, or the one behind it. -/
theorem search_isRow (cs : List Char) (offset : Nat) : ∃ row, IsRow (ofList cs).starts offset row ∧
    ((ofList cs).search offset = .here row ∨ (ofList cs).search offset = .before (row + 1)) := by
  have hsorted := sorted_ofList cs
  have hrow := bisect_ofList cs offset
  set starts := (ofList cs).starts with hstarts
  set row := (ofList cs).bisect offset 0 starts.size
  have hget {i : Nat} (hi : i < starts.toList.length) : starts.toList[i] = starts.getD i 0 := by
    have : i < starts.size := hi
    simp [Array.getD, this]
  rw [search, ← hstarts]
  cases hfound : starts.toList.findIdx? (· == offset) with
  | some i =>
    obtain ⟨hi, hhere, -⟩ := List.findIdx?_eq_some_iff_getElem.mp hfound
    rw [hget hi, beq_iff_eq] at hhere
    refine ⟨i, ⟨hi, hhere.le, fun next hnext hinside => ?_⟩, .inl rfl⟩
    have := List.pairwise_iff_getElem.mp hsorted i next hi hinside hnext
    rwa [hget, hget, hhere] at this
  | none =>
    -- The first row that starts behind the offset follows the last one that does not.
    have hfirst : starts.toList.findIdx (decide <| offset < ·) = row + 1 := by
      refine Nat.le_antisymm (Nat.le_of_not_lt fun hlt => ?_)
        (List.lt_findIdx_of_not hrow.inside fun j hj => ?_)
      · have hnot := List.not_of_lt_findIdx hlt
        have hinside : row + 1 < starts.size := hlt.trans_le List.findIdx_le_length
        rw [hget hinside, decide_eq_false_iff_not] at hnot
        exact hnot (hrow.behind _ (Nat.lt_succ_self row) hinside)
      · have := getD_le_of_sorted hsorted hj hrow.inside
        rw [hget (hj.trans_lt hrow.inside), decide_eq_true_eq]
        exact Nat.not_lt.mpr (this.trans hrow.before)
    exact ⟨row, hrow, .inr (by rw [hfirst])⟩

theorem point?_eq (source : String) (offset : Nat) :
    (ofString source).point? offset = some ((ofString source).point offset) := by
  have hrow := bisect_ofList source.toList offset
  obtain ⟨row, hfound, hsearch⟩ := search_isRow source.toList offset
  obtain rfl := hfound.unique hrow
  rcases hsearch with hsearch | hsearch <;>
  · rw [point?, ofString, hsearch]
    simp only [Option.bind_eq_bind, Option.bind_some, hfound.getElem?_eq, if_pos hfound.before]
    rfl

/-- What the points of a source are, at every offset. -/
structure Counts (source : String) : Prop where
  row : ∀ offset, ((ofString source).point offset).row =
    (feedsBelow (utf8Bytes source) offset).length
  column : ∀ offset, ((ofString source).point offset).column =
    offset - rowStart (utf8Bytes source) offset
  /-- A search never leads in front of the first row. -/
  found : ∀ offset, (ofString source).point? offset = some ((ofString source).point offset)
  ordered : ∀ o₁ o₂, o₁ < o₂ →
    compare ((ofString source).point o₁) ((ofString source).point o₂) = .lt
  distinct : ∀ o₁ o₂, (ofString source).point o₁ = (ofString source).point o₂ → o₁ = o₂

/-- **The line index of a source counts its line feeds**, and tells offsets apart in their order. -/
theorem point_counts (source : String) : Counts source where
  row offset := by rw [point_eq_feeds]
  column offset := by rw [point_eq_feeds]
  found := point?_eq source
  ordered _ _ h := point_lt source h
  distinct o₁ o₂ h := by
    have hsame (p : Point) : compare p p = .eq := by
      show (compare p.row p.row).then (compare p.column p.column) = .eq
      rw [Nat.compare_eq_eq.mpr rfl, Nat.compare_eq_eq.mpr rfl]
      rfl
    rcases Nat.lt_trichotomy o₁ o₂ with hlt | heq | hgt
    · have := point_lt source hlt
      rw [h, hsame] at this
      cases this
    · exact heq
    · have := point_lt source hgt
      rw [h, hsame] at this
      cases this

end LineIndex

end ScriptTree
