import Mathlib
import ScriptTree.Proofs.Text.Feeds

/-! What a rendered diagnostic shows.

A diagnostic may have any span: reversed, past the end of the source, or inside a character. What it
shows is fixed by one offset, the start of the span or the end of the source, and by the line feeds
around it (`rowStart`, `rowStop`). The source is cut at those feeds and nowhere else, so the line can
always be taken out (`exists_line`) and every step that could fail gives a result (`excerpt?_eq`).
`Rendered` says row by row what the text is, and that the bars of its rows stand in one column. -/
namespace ScriptTree

/-- The position of the first line feed from an offset on, the end of the text if there is none. -/
def rowStop (bytes : List UInt8) (offset : Nat) : Nat :=
  ((List.range' offset (bytes.length - offset)).find? fun i => bytes[i]? == some 0x0A).getD
    bytes.length

namespace Diagnostic

/-- The excerpt, if the row can be looked up, the column does not reach back over the start of the
source, and the source can be cut at both ends of the line. -/
def excerpt? (source : String) (d : Diagnostic) : Option Excerpt := do
  let offset := min d.span.start source.utf8ByteSize
  let point ← (LineIndex.ofString source).point? offset
  let lineStart ← if point.column ≤ offset then some (offset - point.column) else none
  let tail ← tail? source lineStart
  let lineStop :=
    if '\n' ∈ tail then lineStart + byteLength (tail.takeWhile (· != '\n')) else source.utf8ByteSize
  let line ← Span.slice? ⟨lineStart, lineStop⟩ source
  return { point, line, carets := max 1 (min d.span.stop lineStop - offset) }

/-! ### Rows of the text -/

section Rows
variable (file source : String) (d : Diagnostic)

/-- The offset at which the carets start. -/
def shownAt : Nat := min d.span.start source.utf8ByteSize

/-- The number of the row of the shown offset, counted from one. -/
def number : String := toString ((feedsBelow (utf8Bytes source) (d.shownAt source)).length + 1)

/-- The bytes of the row in front of the shown offset. -/
def indent : Nat := d.shownAt source - rowStart (utf8Bytes source) (d.shownAt source)

/-- The bytes from the shown offset to the end of the span, and at most to the end of the row. -/
def underlined : Nat :=
  min d.span.stop (rowStop (utf8Bytes source) (d.shownAt source)) - d.shownAt source

/-- As wide as the number and a blank. -/
def margin : String := copies ((d.number source).length + 1) ' '

def placeRow : String :=
  d.margin source ++ "--> " ++ file ++ ":" ++ d.number source ++ ":" ++
    toString (d.indent source + 1)

def blankRow : String := d.margin source ++ " |"

def sourceRow (line : String) : String := " " ++ d.number source ++ " | " ++ line

def caretRow : String :=
  d.margin source ++ " | " ++ copies (d.indent source) ' ' ++
    copies (max 1 (d.underlined source)) '^'

/-- The row of a remark behind the excerpt. -/
def remarkRow (label text : String) : String := d.margin source ++ label ++ text

/-- The column of the first bar. -/
def barColumn (row : String) : Nat := row.toList.idxOf '|'

/-- What a rendered diagnostic is. -/
structure Rendered : Prop where
  /-- Nothing fails on the way. -/
  total : d.excerpt? source = some (d.excerpt source)
  text : ∃ line,
    Span.slice? ⟨rowStart (utf8Bytes source) (d.shownAt source),
      rowStop (utf8Bytes source) (d.shownAt source)⟩ source = some line ∧
    d.render file source = String.join (([d.headline, d.placeRow file source, d.blankRow source,
      d.sourceRow source line, d.caretRow source] ++ d.notes.map (d.remarkRow source " = note: ") ++
      d.hints.map (d.remarkRow source " = hint: ")).map (· ++ "\n"))
  bars : ∀ line, barColumn (d.blankRow source) = barColumn (d.sourceRow source line) ∧
    barColumn (d.caretRow source) = barColumn (d.sourceRow source line)

end Rows

end Diagnostic

/-! ### The line around an offset -/

section Line
variable {source : String} {front line rest : List Char} {offset : Nat}

theorem utf8Bytes_split (h : front ++ line ++ rest = source.toList) :
    utf8Bytes source = front.flatMap String.utf8EncodeChar ++ line.flatMap String.utf8EncodeChar ++
      rest.flatMap String.utf8EncodeChar := by
  rw [utf8Bytes_eq, ← h, List.flatMap_append, List.flatMap_append]

/-- In a line there is no feed. -/
theorem not_feed_of_line (h : front ++ line ++ rest = source.toList) (hline : '\n' ∉ line) {i : Nat}
    (hi : byteLength front ≤ i) (hi' : i < byteLength front + byteLength line) :
    (utf8Bytes source)[i]? ≠ some 0x0A := by
  intro hfeed
  rw [utf8Bytes_split h, List.append_assoc,
    List.getElem?_append_right (by rwa [length_flatMap_encode]), length_flatMap_encode,
    List.getElem?_append_left (by rw [length_flatMap_encode]; omega)] at hfeed
  obtain ⟨c, hc, hbyte⟩ := List.mem_flatMap.mp (List.mem_of_getElem? hfeed)
  exact hline (eq_feed_of_mem_encode hbyte ▸ hc)

/-- Behind a line there is a feed, if there is anything. -/
theorem feed_behind_line (h : front ++ line ++ '\n' :: rest = source.toList) :
    (utf8Bytes source)[byteLength front + byteLength line]? = some 0x0A := by
  have hlength : (front.flatMap String.utf8EncodeChar ++
      line.flatMap String.utf8EncodeChar).length = byteLength front + byteLength line := by
    rw [List.length_append, length_flatMap_encode, length_flatMap_encode]
  rw [utf8Bytes_split h, List.getElem?_append_right hlength.le, hlength, Nat.sub_self]
  rfl

theorem utf8ByteSize_split (h : front ++ line ++ rest = source.toList) :
    source.utf8ByteSize = byteLength front + byteLength line + byteLength rest := by
  rw [← byteLength_append, ← byteLength_append, h, ← utf8ByteSize_ofList, String.ofList_toList]

/-- Where a line ends: in front of the first feed behind its start, or with the source. -/
theorem lineStop_eq (h : front ++ line ++ rest = source.toList) (hline : '\n' ∉ line)
    (hrest : ∀ c ∈ rest.head?, c = '\n') :
    (if '\n' ∈ line ++ rest then
      byteLength front + byteLength ((line ++ rest).takeWhile (· != '\n'))
    else source.utf8ByteSize) = byteLength front + byteLength line := by
  cases rest with
  | nil => rw [List.append_nil, if_neg hline, utf8ByteSize_split h]; rfl
  | cons c rest =>
    obtain rfl := hrest c rfl
    have htake : (line ++ '\n' :: rest).takeWhile (· != '\n') = line := by
      rw [List.takeWhile_append_of_pos fun c hc => by
        rw [bne_iff_ne]
        exact fun heq => hline (heq ▸ hc)]
      simp
    rw [if_pos (by simp), htake]

/-- A row that starts with a line stops with it. -/
theorem rowStop_eq (h : front ++ line ++ rest = source.toList) (hline : '\n' ∉ line)
    (hrest : ∀ c ∈ rest.head?, c = '\n')
    (hstart : rowStart (utf8Bytes source) offset = byteLength front)
    (hle : offset ≤ source.utf8ByteSize) :
    offset ≤ byteLength front + byteLength line ∧
      rowStop (utf8Bytes source) offset = byteLength front + byteLength line := by
  have hsize := utf8ByteSize_split h
  cases rest with
  | nil =>
    have hend : source.utf8ByteSize = byteLength front + byteLength line := hsize
    have hnone : (List.range' offset ((utf8Bytes source).length - offset)).find?
        (fun i => (utf8Bytes source)[i]? == some 0x0A) = none := by
      refine List.find?_eq_none.mpr fun i hi => ?_
      obtain ⟨hfrom, hto⟩ := List.mem_range'_1.mp hi
      rw [length_utf8Bytes] at hto
      have := rowStart_le (utf8Bytes source) offset
      simpa using not_feed_of_line h hline (i := i) (by omega) (by omega)
    exact ⟨by omega, by rw [rowStop, hnone, length_utf8Bytes, hend]; rfl⟩
  | cons c rest =>
    obtain rfl := hrest c rfl
    have hfeed := feed_behind_line h
    have hbehind : offset ≤ byteLength front + byteLength line := by
      by_contra hlt
      exact not_feed_of_rowStart_le (by omega) (Nat.lt_of_not_le hlt) hfeed
    have hpos : 0 < byteLength ('\n' :: rest) := byteLength_pos (List.cons_ne_nil _ _)
    have hfound : (List.range' offset ((utf8Bytes source).length - offset)).find?
        (fun i => (utf8Bytes source)[i]? == some 0x0A) =
          some (byteLength front + byteLength line) := by
      refine List.find?_range'_eq_some.mpr ⟨by simp [hfeed], ?_, fun i hi hi' => ?_⟩
      · rw [List.mem_range'_1, length_utf8Bytes]
        omega
      · have := rowStart_le (utf8Bytes source) offset
        simpa using not_feed_of_line h hline (i := i) (by omega) hi'
    exact ⟨hbehind, by rw [rowStop, hfound]; rfl⟩

end Line

namespace Diagnostic

/-- The line that a diagnostic shows, with what is in front of it and behind it. -/
theorem exists_line (source : String) (d : Diagnostic) : ∃ front line rest : List Char,
    front ++ line ++ rest = source.toList ∧ '\n' ∉ line ∧ (∀ c ∈ rest.head?, c = '\n') ∧
      rowStart (utf8Bytes source) (d.shownAt source) = byteLength front ∧
      (d.excerpt source).line = String.ofList line := by
  have hrow := LineIndex.bisect_ofList source.toList (d.shownAt source)
  obtain ⟨front, back, hsplit, hstart⟩ := LineIndex.exists_start source hrow.inside
  have hcolumn : ((LineIndex.ofString source).point (d.shownAt source)).column =
      d.shownAt source - byteLength front := by
    rw [← hstart]
    rfl
  have hfront : byteLength front ≤ d.shownAt source := hstart ▸ hrow.before
  have hline : d.shownAt source -
      ((LineIndex.ofString source).point (d.shownAt source)).column = byteLength front := by
    rw [hcolumn, Nat.sub_sub_self hfront]
  refine ⟨front, back.takeWhile (· != '\n'), back.dropWhile (· != '\n'), ?_, ?_, ?_, ?_, ?_⟩
  · rw [List.append_assoc, List.takeWhile_append_dropWhile, hsplit]
  · intro hmem
    simpa using List.mem_takeWhile_imp hmem
  · intro c hc
    have := List.head?_dropWhile_not (· != '\n') back
    rw [hc] at this
    simpa using this
  · rw [← (LineIndex.sub_column source _).2, hline]
  · have hdrop : dropBytes (byteLength front) source.toList = back := by
      rw [← hsplit, ← Nat.add_zero (byteLength front), dropBytes_append, dropBytes_zero]
    rw [← hdrop, ← hline]
    rfl

section Rendering
variable (file source : String) (d : Diagnostic)

/-- The line of an excerpt is cut out of the source between two feeds. -/
theorem excerpt_line : Span.slice? ⟨rowStart (utf8Bytes source) (d.shownAt source),
      rowStop (utf8Bytes source) (d.shownAt source)⟩ source = some (d.excerpt source).line ∧
    (d.excerpt source).carets = max 1 (d.underlined source) := by
  obtain ⟨front, line, rest, hsplit, hline, hrest, hstart, hshown⟩ := exists_line source d
  obtain ⟨-, hstop⟩ := rowStop_eq hsplit hline hrest hstart (Nat.min_le_right _ _)
  refine ⟨by rw [hstart, hstop, hshown, slice?_of_split hsplit], ?_⟩
  have hfrom := (LineIndex.sub_column source (d.shownAt source)).2.trans hstart
  have hsize : (d.excerpt source).line.utf8ByteSize = byteLength line := by
    rw [hshown, utf8ByteSize_ofList]
  rw [underlined, hstop, ← hfrom, ← hsize]
  rfl

theorem excerpt?_eq : d.excerpt? source = some (d.excerpt source) := by
  obtain ⟨front, line, rest, hsplit, hline, hrest, hstart, hshown⟩ := exists_line source d
  obtain ⟨hslice, hcarets⟩ := excerpt_line source d
  obtain ⟨-, hstop⟩ := rowStop_eq hsplit hline hrest hstart (Nat.min_le_right _ _)
  have hcolumn := LineIndex.sub_column source (d.shownAt source)
  have htail : tail? source (byteLength front) = some (line ++ rest) :=
    tail?_of_split (by rw [← hsplit, List.append_assoc])
  have hlineStop := lineStop_eq hsplit hline hrest
  rw [hstart] at hcolumn
  rw [hstart, hstop] at hslice
  rw [underlined, hstop] at hcarets
  rw [shownAt] at hcolumn hcarets
  simp only [excerpt?, LineIndex.point?_eq, Option.bind_eq_bind, Option.bind_some, if_pos hcolumn.1,
    hcolumn.2, htail, hlineStop, hslice, ← hcarets]
  rfl

theorem render_eq {line : String} (hline : line = (d.excerpt source).line) :
    d.render file source = String.join (([d.headline, d.placeRow file source, d.blankRow source,
      d.sourceRow source line, d.caretRow source] ++ d.notes.map (d.remarkRow source " = note: ") ++
      d.hints.map (d.remarkRow source " = hint: ")).map (· ++ "\n")) := by
  have hpoint : (d.excerpt source).point =
      ⟨(feedsBelow (utf8Bytes source) (d.shownAt source)).length, d.indent source⟩ :=
    LineIndex.point_eq_feeds source (d.shownAt source)
  have hcarets := (excerpt_line source d).2
  rw [render, renderLines, hpoint, hcarets, hline]
  rfl

/-- Before a bar there is none, and the bar follows as many columns. -/
theorem barColumn_eq {front : String} (h : '|' ∉ front.toList) (back : String) :
    barColumn (front ++ "|" ++ back) = front.length := by
  rw [barColumn, String.toList_append, String.toList_append, List.append_assoc,
    List.idxOf_append_of_notMem h, ← String.length_toList]
  rfl

theorem bar_not_mem_number : '|' ∉ (d.number source).toList := by
  intro hbar
  rw [number, Nat.toString_eq_ofList_toDigits, String.toList_ofList] at hbar
  exact absurd (Nat.isDigit_of_mem_toDigits (by decide) (by decide) hbar) (by decide)

/-- The bar of a row that starts with the margin. -/
theorem barColumn_margin (back : String) :
    barColumn (d.margin source ++ " " ++ "|" ++ back) = (d.number source).length + 2 := by
  have hmargin : (d.margin source).toList = List.replicate ((d.number source).length + 1) ' ' :=
    String.toList_ofList
  rw [barColumn_eq]
  · rw [String.length_append, ← String.length_toList, hmargin, List.length_replicate]
    rfl
  · rw [String.toList_append, hmargin]
    intro hbar
    rcases List.mem_append.mp hbar with h | h
    · exact absurd (List.eq_of_mem_replicate h) (by decide)
    · exact absurd h (by decide)

/-- The bar of the row that starts with the number. -/
theorem barColumn_sourceRow (line : String) :
    barColumn (d.sourceRow source line) = (d.number source).length + 2 := by
  have hrow : d.sourceRow source line = " " ++ d.number source ++ " " ++ "|" ++ (" " ++ line) := by
    rw [sourceRow, show " | " = " " ++ "|" ++ " " from rfl]
    simp only [String.append_assoc]
  rw [hrow, barColumn_eq]
  · rw [String.length_append, String.length_append, Nat.add_comm]
    show 1 + (1 + (d.number source).length) = _
    omega
  · simp [String.toList_append, bar_not_mem_number source d]

end Rendering

/-- **A diagnostic is rendered whatever its span is**: nothing fails, the text shows row, column and
line of the shown offset, and carets under what the span covers of the line. -/
theorem render_any_span (file source : String) (d : Diagnostic) : d.Rendered file source where
  total := excerpt?_eq source d
  text := ⟨_, (excerpt_line source d).1, render_eq file source d rfl⟩
  bars line := by
    have hblank : d.blankRow source = d.margin source ++ " " ++ "|" ++ "" := by
      rw [blankRow, show " |" = " " ++ "|" from rfl, String.append_empty, String.append_assoc]
    have hcaret : d.caretRow source = d.margin source ++ " " ++ "|" ++
        (" " ++ copies (d.indent source) ' ' ++ copies (max 1 (d.underlined source)) '^') := by
      rw [caretRow, show " | " = " " ++ "|" ++ " " from rfl]
      simp only [String.append_assoc]
    rw [barColumn_sourceRow, hblank, hcaret]
    exact ⟨barColumn_margin source d _, barColumn_margin source d _⟩

/-- A reversed span that starts inside a character. -/
example : (⟨.grammar, "Expected a statement", ⟨3, 2⟩, [], []⟩ : Diagnostic).render "f" "a\né\nb" =
    "syntax error: Expected a statement\n  --> f:2:2\n   |\n 2 | é\n   |  ^\n" := by cbv

end Diagnostic

end ScriptTree
