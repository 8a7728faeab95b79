import Mathlib
import ScriptTree.Diagnostic.Basic
import ScriptTree.Proofs.Text.Bytes
import ScriptTree.Proofs.Text.Lines
import ScriptTree.Proofs.Token.Placing

/-! Slices that may fail.

A text can be cut at a byte offset only if the offset is not behind its end and not inside a
character. `cut?` and `slice?` give nothing where such a cut would have to be made, and so what is
taken out of a source by offsets can be said to be there. An excerpt never cuts where it cannot, as
rows start between characters (`excerpt_in_range`). -/
namespace ScriptTree

/-- A text cut at a byte offset, if it can be. -/
def cut? : Nat → List Char → Option (List Char × List Char)
  | 0, cs => some ([], cs)
  | _ + 1, [] => none
  | n + 1, c :: cs =>
    if c.utf8Size ≤ n + 1 then (cut? (n + 1 - c.utf8Size) cs).map fun (front, back) => (c :: front, back)
    else none

/-- The part of a source from a byte offset on, if the source can be cut there. -/
def tail? (source : String) (start : Nat) : Option (List Char) :=
  (cut? start source.toList).map Prod.snd

/-- The part of a source that a span covers, if its ends are in order and the source can be cut at
both. -/
def Span.slice? (span : Span) (source : String) : Option String :=
  if span.stop < span.start then none
  else ((tail? source span.start).bind (cut? (span.stop - span.start))).map (String.ofList ·.1)

/-! ### Where a source can be cut -/

theorem cut?_append (front back : List Char) :
    cut? (byteLength front) (front ++ back) = some (front, back) := by
  induction front with
  | nil => cases back <;> rfl
  | cons c front ih =>
    have hpos := c.utf8Size_pos
    obtain ⟨n, hn⟩ : ∃ n, byteLength (c :: front) = n + 1 :=
      ⟨byteLength (c :: front) - 1, by rw [byteLength_cons]; omega⟩
    have hrest : n + 1 - c.utf8Size = byteLength front := by
      rw [← hn, byteLength_cons, Nat.add_sub_cancel_left]
    have hle : c.utf8Size ≤ n + 1 := by
      rw [← hn, byteLength_cons]
      omega
    rw [hn, List.cons_append, cut?, if_pos hle, hrest, ih]
    rfl

section Source
variable {source : String} {front inner back : List Char}

theorem tail?_of_split (h : front ++ back = source.toList) :
    tail? source (byteLength front) = some back := by
  rw [tail?, ← h, cut?_append]
  rfl

theorem slice?_of_split (h : front ++ inner ++ back = source.toList) :
    Span.slice? ⟨byteLength front, byteLength front + byteLength inner⟩ source =
      some (String.ofList inner) := by
  have htail : tail? source (byteLength front) = some (inner ++ back) :=
    tail?_of_split (by rw [← h, List.append_assoc])
  rw [Span.slice?, if_neg (by simp), htail, Nat.add_sub_cancel_left, Option.bind_some, cut?_append]
  rfl

/-- Of two beginnings of a source, the one that is not wider is a beginning of the other. -/
theorem exists_between {long rest : List Char} (h : front ++ rest = source.toList)
    (h' : long ++ back = source.toList) (hle : byteLength front ≤ byteLength long) :
    ∃ inner, long = front ++ inner := by
  rcases List.append_eq_append_iff.mp (h.trans h'.symm) with ⟨inner, hlong, -⟩ | ⟨inner, hfront, -⟩
  · exact ⟨inner, hlong⟩
  · rw [hfront, byteLength_append] at hle
    have hnil : inner = [] := by
      by_contra hne
      have := byteLength_pos hne
      omega
    exact ⟨[], by rw [hfront, hnil, List.append_nil, List.append_nil]⟩

theorem utf8Len_eq (cs : List Char) : String.utf8Len cs = byteLength cs := by
  rw [← String.utf8ByteSize_ofList, utf8ByteSize_ofList]

/-- Between its ends, a span covers what the source has there. -/
theorem Span.Fits.slice?_eq {span : Span} (h : span.Fits source) (hle : span.start ≤ span.stop) :
    span.slice? source = some (span.slice source) := by
  obtain ⟨front, rest, hsource, hstart⟩ := exists_split_of_isValid h.start
  obtain ⟨long, back, hsource', hstop⟩ := exists_split_of_isValid h.stop
  obtain ⟨inner, rfl⟩ := exists_between hsource hsource' (by omega)
  rw [byteLength_append] at hstop
  have hspan : span = ⟨byteLength front, byteLength front + byteLength inner⟩ := by
    rw [hstop, hstart]
  have hextract := String.extract_of_valid front inner back
  rw [hsource', String.ofList_toList, utf8Len_eq, utf8Len_eq] at hextract
  rw [hspan, slice?_of_split hsource', Span.slice, hextract]

end Source

/-- Whether a span lies in a source: its ends are in order and between characters. -/
structure Span.LiesIn (span : Span) (source : String) : Prop where
  forward : span.start ≤ span.stop
  fits : span.Fits source

namespace Span.LiesIn
variable {span span' : Span} {source : String}

theorem stop_le (h : span.LiesIn source) : span.stop ≤ source.utf8ByteSize :=
  h.fits.stop.le_utf8ByteSize

theorem slice?_eq (h : span.LiesIn source) : span.slice? source = some (span.slice source) :=
  h.fits.slice?_eq h.forward

theorem isSome (h : span.LiesIn source) : (span.slice? source).isSome := by
  rw [h.slice?_eq]
  rfl

theorem empty {offset : Nat} (h : (⟨offset⟩ : String.Pos.Raw).IsValid source) :
    (Span.empty offset).LiesIn source :=
  ⟨Nat.le_refl _, h, h⟩

/-- What reaches from one span to another reaches from character to character. -/
theorem merge (h : span.LiesIn source) (h' : span'.LiesIn source) :
    (span.merge span').LiesIn source := by
  have hstart : (⟨min span.start span'.start⟩ : String.Pos.Raw).IsValid source := by
    rcases min_choice span.start span'.start with heq | heq
    · exact heq.symm ▸ h.fits.start
    · exact heq.symm ▸ h'.fits.start
  have hstop : (⟨max span.stop span'.stop⟩ : String.Pos.Raw).IsValid source := by
    rcases max_choice span.stop span'.stop with heq | heq
    · exact heq.symm ▸ h.fits.stop
    · exact heq.symm ▸ h'.fits.stop
  exact ⟨(Nat.min_le_left _ _).trans (h.forward.trans (Nat.le_max_left _ _)), hstart, hstop⟩

end Span.LiesIn

/-! ### Excerpts -/

namespace LineIndex

theorem exists_of_mem_feeds {offset : Nat} {cs : List Char} : ∀ start ∈ feeds offset cs,
    ∃ front back, front ++ back = cs ∧ start = offset + byteLength front := by
  induction cs generalizing offset with
  | nil => nofun
  | cons c cs ih =>
    intro start hstart
    rcases List.mem_append.mp hstart with hstart | hstart
    · refine ⟨[c], cs, rfl, ?_⟩
      rw [List.mem_singleton.mp (List.mem_ite_nil_right.mp hstart).2]
      rfl
    · obtain ⟨front, back, rfl, rfl⟩ := ih start hstart
      exact ⟨c :: front, back, rfl, by rw [byteLength_cons, Nat.add_assoc]⟩

/-- A source can be cut where one of its rows starts. -/
theorem exists_start (source : String) {row : Nat} (h : row < (ofString source).starts.size) :
    ∃ front back, front ++ back = source.toList ∧
      (ofString source).starts.getD row 0 = byteLength front := by
  cases row with
  | zero => exact ⟨[], _, rfl, getD_collect_old Nat.one_pos 0 _⟩
  | succ row =>
    have hfeed : (ofString source).starts.getD (row + 1) 0 ∈ feeds 0 source.toList :=
      getD_collect_new (Nat.le_add_left _ _) h
    obtain ⟨front, back, hsplit, hstart⟩ := exists_of_mem_feeds _ hfeed
    exact ⟨front, back, hsplit, by rw [Nat.zero_add] at hstart; exact hstart⟩

end LineIndex

namespace Diagnostic

/-- Where the line shown in an excerpt starts. -/
def lineStart (source : String) (d : Diagnostic) : Nat :=
  min d.span.start source.utf8ByteSize - (d.excerpt source).point.column

/-- Whatever the diagnostic, its line can be taken out of the source. -/
theorem excerpt_in_range (source : String) (d : Diagnostic) :
    (tail? source (d.lineStart source)).isSome ∧
      Span.slice? ⟨d.lineStart source, d.lineStart source + (d.excerpt source).line.utf8ByteSize⟩
        source = some (d.excerpt source).line := by
  set offset := min d.span.start source.utf8ByteSize with hoffset
  have hrow := LineIndex.bisect_ofList source.toList offset
  obtain ⟨front, back, hsplit, hstart⟩ := LineIndex.exists_start source hrow.inside
  have hline : d.lineStart source = byteLength front := by
    rw [← hstart]
    exact Nat.sub_sub_self hrow.before
  have hback : dropBytes (byteLength front) source.toList = back := by
    rw [← hsplit, ← Nat.add_zero (byteLength front), dropBytes_append, dropBytes_zero]
  have hshown : (d.excerpt source).line = String.ofList (back.takeWhile (· != '\n')) := by
    rw [← hback, ← hline]
    rfl
  rw [hline, tail?_of_split hsplit, hshown, utf8ByteSize_ofList]
  have hwhole : front ++ back.takeWhile (· != '\n') ++ back.dropWhile (· != '\n') =
      source.toList := by
    rw [List.append_assoc, List.takeWhile_append_dropWhile, hsplit]
  exact ⟨rfl, slice?_of_split hwhole⟩

end Diagnostic

end ScriptTree
