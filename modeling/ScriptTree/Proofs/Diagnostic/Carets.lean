import Mathlib
import ScriptTree.Proofs.Diagnostic.Excerpts
import ScriptTree.Proofs.Parsing.InRange

/-! Where the carets of a reported problem stand.

The source line is printed in characters, and the caret row under it is laid out in bytes. For a
span that lies in the source, its line is what reaches from the last feed in front of the span to the
next one (`ahead` and `onward`), and the row has a blank for each byte in front of the span and a caret
for each byte that the span covers. So the carets stand under what the span covers exactly if every
character up to their end is one byte wide. -/
namespace ScriptTree

/-! ### The row of a line -/

section Line
variable {source : String} {front line rest : List Char}

/-- Behind a feed, or at the start of the source, a row starts. -/
theorem rowStart_eq (h : front ++ line ++ rest = source.toList) (hline : '\n' ∉ line)
    (hfront : ∀ c ∈ front.getLast?, c = '\n') :
    rowStart (utf8Bytes source) (byteLength front + byteLength line) = byteLength front := by
  refine Nat.le_antisymm ?_ ?_
  · -- The feed in front of the row cannot be in the line.
    rw [rowStart]
    cases hlast : (feedsBelow (utf8Bytes source)
        (byteLength front + byteLength line)).getLast? with
    | none => exact Nat.zero_le _
    | some i =>
      obtain ⟨hi, hfeed⟩ := mem_feedsBelow.mp (List.mem_of_getLast? hlast)
      by_contra hlt
      exact not_feed_of_line h hline (Nat.le_of_lt_succ (Nat.lt_of_not_le hlt)) hi hfeed
  · -- The feed at the end of the front cannot be in the row.
    rcases List.eq_nil_or_concat front with rfl | ⟨above, c, rfl⟩
    · exact Nat.zero_le _
    rw [List.concat_eq_append] at *
    obtain rfl := hfront c List.getLast?_concat
    have hfeed : (utf8Bytes source)[byteLength above]? = some 0x0A := by
      have hsplit : [] ++ above ++ '\n' :: (line ++ rest) = source.toList := by simpa using h
      have hbehind := feed_behind_line hsplit
      rwa [show byteLength [] = 0 from rfl, Nat.zero_add] at hbehind
    have hwidth : byteLength (above ++ ['\n']) = byteLength above + 1 := byteLength_append _ _
    rw [hwidth]
    by_contra hlt
    exact not_feed_of_rowStart_le (Nat.le_of_lt_succ (Nat.lt_of_not_le hlt)) (by omega) hfeed

end Line

/-- What is taken off a text is as wide as asked for, if the text can be cut there, and else the
whole text. -/
theorem takeBytes_of_prefix {front cs whole : List Char} (h : front <+: whole) (h' : cs <+: whole) :
    takeBytes (byteLength front) cs <+: cs ∧
      byteLength (takeBytes (byteLength front) cs) = min (byteLength front) (byteLength cs) := by
  rcases List.prefix_or_prefix_of_prefix h h' with ⟨rest, rfl⟩ | ⟨rest, rfl⟩
  · have htake := takeBytes_append front rest 0
    rw [Nat.add_zero, takeBytes_zero, List.append_nil] at htake
    rw [htake, byteLength_append]
    exact ⟨List.prefix_append _ _, (Nat.min_eq_left (Nat.le_add_right _ _)).symm⟩
  · have hnil : takeBytes (byteLength rest) [] = [] := by
      cases byteLength rest <;> rfl
    have htake := takeBytes_append cs [] (byteLength rest)
    rw [List.append_nil, hnil, List.append_nil, ← byteLength_append] at htake
    rw [htake, byteLength_append]
    exact ⟨List.prefix_refl _, (Nat.min_eq_right (Nat.le_add_right _ _)).symm⟩

theorem length_le_byteLength (cs : List Char) : cs.length ≤ byteLength cs := by
  induction cs with
  | nil => exact Nat.le_refl 0
  | cons c cs ih =>
    have := c.utf8Size_pos
    rw [List.length_cons, byteLength_cons]
    omega

theorem byteLength_eq_length_iff (cs : List Char) :
    byteLength cs = cs.length ↔ ∀ c ∈ cs, c.utf8Size = 1 := by
  induction cs with
  | nil => exact ⟨nofun, fun _ => rfl⟩
  | cons c cs ih =>
    have hpos := c.utf8Size_pos
    have hle := length_le_byteLength cs
    rw [List.length_cons, byteLength_cons, List.forall_mem_cons, ← ih]
    omega

namespace Diagnostic

section Picture
variable (file source : String) (d : Diagnostic)

/-- The characters in front of the span, on the line on which it starts. -/
def ahead : List Char := (takeBytes d.span.start source.toList).rtakeWhile (· != '\n')

/-- The characters of that line from the start of the span on. -/
def onward : List Char := (dropBytes d.span.start source.toList).takeWhile (· != '\n')

/-- The characters of that line that the span covers. -/
def covered : List Char := takeBytes (d.span.stop - d.span.start) (d.onward source)

/-- The rendering with that line and a row of so many blanks and carets under it. -/
def picture (blanks carets : Nat) : String :=
  String.join (([d.headline, d.placeRow file source, d.blankRow source,
    d.sourceRow source (String.ofList (d.ahead source ++ d.onward source)),
    d.margin source ++ " | " ++ copies blanks ' ' ++ copies carets '^'] ++
    d.notes.map (d.remarkRow source " = note: ") ++
    d.hints.map (d.remarkRow source " = hint: ")).map (· ++ "\n"))

/-- Whether the carets stand under the characters that the span covers: a blank for each character in
front of them, a caret for each of them, and one if there is none. -/
def Aligned : Prop :=
  d.render file source =
    d.picture file source (d.ahead source).length (max 1 (d.covered source).length)

instance : Decidable (d.Aligned file source) := inferInstanceAs (Decidable (_ = _))

/-- What is known about the caret row. -/
structure Underlined : Prop where
  /-- The row is laid out in bytes. -/
  text : d.render file source = d.picture file source (byteLength (d.ahead source))
    (max 1 (byteLength (d.covered source)))
  within : d.covered source <+: d.onward source
  aligned : d.Aligned file source ↔ ∀ c ∈ d.ahead source ++ d.covered source, c.utf8Size = 1

end Picture

variable {file source : String} {d : Diagnostic}

theorem length_picture (blanks carets : Nat) :
    (d.picture file source blanks carets).length =
      (d.picture file source 0 0).length + blanks + carets := by
  have hcopies (n : Nat) (c : Char) : (copies n c).length = n := by
    rw [copies, String.length_ofList, List.length_replicate]
  simp only [picture, List.map_append, List.map_cons, List.cons_append, List.nil_append,
    String.join_append, String.join_cons, String.length_append, hcopies]
  omega

/-- What is in front of the span and from the span on, between the feeds around it. -/
theorem exists_around (h : d.span.LiesIn source) : ∃ front rest,
    front ++ (d.ahead source ++ d.onward source) ++ rest = source.toList ∧
      (∀ c ∈ front.getLast?, c = '\n') ∧ (∀ c ∈ rest.head?, c = '\n') ∧
      byteLength front + byteLength (d.ahead source) = d.span.start ∧
      dropBytes d.span.start source.toList = d.onward source ++ rest := by
  obtain ⟨upTo, back, hsplit, hstart⟩ := exists_split_of_isValid h.fits.start
  have htake : takeBytes d.span.start source.toList = upTo := by
    rw [← hsplit, ← hstart, ← Nat.add_zero (byteLength upTo), takeBytes_append, takeBytes_zero,
      List.append_nil]
  have hdrop : dropBytes d.span.start source.toList = back := by
    rw [← hsplit, ← hstart, ← Nat.add_zero (byteLength upTo), dropBytes_append, dropBytes_zero]
  have hahead : upTo.rdropWhile (· != '\n') ++ d.ahead source = upTo := by
    rw [ahead, htake, List.rdropWhile_append_rtakeWhile]
  have honward : d.onward source ++ back.dropWhile (· != '\n') = back := by
    rw [onward, hdrop, List.takeWhile_append_dropWhile]
  refine ⟨upTo.rdropWhile (· != '\n'), back.dropWhile (· != '\n'), ?_, fun c hc => ?_,
    fun c hc => ?_, ?_, ?_⟩
  · rw [← List.append_assoc, hahead, List.append_assoc, honward, hsplit]
  · obtain ⟨hne, rfl⟩ := List.mem_getLast?_eq_getLast hc
    simpa using List.rdropWhile_last_not (· != '\n') upTo hne
  · have := List.head?_dropWhile_not (· != '\n') back
    rw [hc] at this
    simpa using this
  · rw [← byteLength_append, hahead, hstart]
  · rw [hdrop, honward]

/-- The line of a span has no feed. -/
theorem feed_not_mem_line (source : String) (d : Diagnostic) :
    '\n' ∉ d.ahead source ++ d.onward source := by
  intro hfeed
  rcases List.mem_append.mp hfeed with hmem | hmem
  · simpa using List.mem_rtakeWhile_imp hmem
  · simpa using List.mem_takeWhile_imp hmem

/-- What a span covers of its line reaches to the end of the span, or of the line. -/
theorem byteLength_covered (h : d.span.LiesIn source) : d.covered source <+: d.onward source ∧
    byteLength (d.covered source) =
      min (d.span.stop - d.span.start) (byteLength (d.onward source)) := by
  obtain ⟨front, rest, -, -, -, -, hback⟩ := exists_around h
  obtain ⟨upTo, back, hsplit, hstart⟩ := exists_split_of_isValid h.fits.start
  obtain ⟨long, behind, hsplit', hstop⟩ := exists_split_of_isValid h.fits.stop
  have hforward := h.forward
  obtain ⟨inner, rfl⟩ := exists_between hsplit hsplit' (by omega)
  rw [byteLength_append, hstart] at hstop
  have hinner : d.span.stop - d.span.start = byteLength inner := by omega
  have hdrop : dropBytes d.span.start source.toList = inner ++ behind := by
    rw [← hsplit', List.append_assoc, ← hstart, ← Nat.add_zero (byteLength upTo), dropBytes_append,
      dropBytes_zero]
  rw [covered, hinner]
  exact takeBytes_of_prefix (List.prefix_append inner behind) ⟨rest, hback.symm.trans hdrop⟩

/-- The caret row of a span that lies in the source. -/
theorem underlined_of_liesIn (file : String) (h : d.span.LiesIn source) :
    d.Underlined file source := by
  obtain ⟨front, rest, hsplit, hfront, hrest, hstart, -⟩ := exists_around h
  obtain ⟨hwithin, hcovered⟩ := byteLength_covered h
  have hline := feed_not_mem_line source d
  have hforward := h.forward
  have hshown : d.shownAt source = d.span.start :=
    Nat.min_eq_left h.fits.start.le_utf8ByteSize
  have hrow : rowStart (utf8Bytes source) d.span.start = byteLength front := by
    have hrest : front ++ d.ahead source ++ (d.onward source ++ rest) = source.toList := by
      simpa using hsplit
    rw [← hstart]
    exact rowStart_eq hrest (fun hmem => hline (List.mem_append_left _ hmem)) hfront
  obtain ⟨-, hstop⟩ := rowStop_eq hsplit hline hrest hrow h.fits.start.le_utf8ByteSize
  have hindent : d.indent source = byteLength (d.ahead source) := by
    rw [indent, hshown, hrow]
    omega
  have hunderlined : d.underlined source = byteLength (d.covered source) := by
    rw [underlined, hshown, hstop, hcovered, byteLength_append]
    omega
  have hshownLine : String.ofList (d.ahead source ++ d.onward source) = (d.excerpt source).line := by
    have hslice := (excerpt_line source d).1
    rw [hshown, hrow, hstop, slice?_of_split hsplit] at hslice
    exact Option.some.inj hslice
  have htext : d.render file source = d.picture file source (byteLength (d.ahead source))
      (max 1 (byteLength (d.covered source))) := by
    rw [render_eq file source d hshownLine, picture, caretRow, hindent, hunderlined]
  refine ⟨htext, hwithin, ?_⟩
  -- A caret row that is laid out in bytes is as long as one laid out in characters, or longer.
  have hahead := length_le_byteLength (d.ahead source)
  have hcarets := length_le_byteLength (d.covered source)
  have hnil : (d.covered source).length = 0 → byteLength (d.covered source) = 0 := fun hzero => by
    rw [List.length_eq_zero_iff.mp hzero]
    rfl
  rw [Aligned, htext, List.forall_mem_append, ← byteLength_eq_length_iff, ← byteLength_eq_length_iff]
  constructor
  · intro heq
    have hlength := congrArg String.length heq
    rw [length_picture, length_picture _ (max 1 (d.covered source).length)] at hlength
    omega
  · rintro ⟨hahead, hcovered⟩
    rw [hahead, hcovered]

end Diagnostic

/-- **Where the carets of a problem stand**: whatever the source is, the caret row of every reported
problem is laid out in the bytes of its line, and it is aligned with the line exactly if the
characters in front of the problem and those it covers are one byte wide each. -/
theorem parse_carets (file source : String) (options : ParseOptions) :
    ∀ p ∈ (parse source options).problems, p.diagnostic.Underlined file source :=
  fun p hp => p.diagnostic.underlined_of_liesIn file (parse_problems_liesIn source options p hp)

theorem parse_carets_past_accent :
    ⟨.missingMark .semicolon "end of file", .empty 12⟩ ∈ (parse "let s = \"é\"").problems ∧
      (Problem.diagnostic ⟨.missingMark .semicolon "end of file", .empty 12⟩).Underlined "main.tsz"
        "let s = \"é\"" :=
  have hmem : ⟨.missingMark .semicolon "end of file", .empty 12⟩ ∈
      (parse "let s = \"é\"").problems := by decide +kernel
  ⟨hmem, parse_carets "main.tsz" "let s = \"é\"" {} _ hmem⟩

/-- Behind an accented letter, the caret of a missing semicolon stands one column too far right. -/
theorem parse_misplaced_caret : ¬∀ (file source : String) (options : ParseOptions),
    ∀ p ∈ (parse source options).problems, p.diagnostic.Aligned file source := fun h =>
  have hmem : ⟨.missingMark .semicolon "end of file", .empty 12⟩ ∈
      (parse "let s = \"é\"").problems := by decide +kernel
  have hshifted : ¬(Problem.diagnostic ⟨.missingMark .semicolon "end of file", .empty 12⟩).Aligned
      "main.tsz" "let s = \"é\"" := by decide +kernel
  hshifted (h "main.tsz" "let s = \"é\"" {} _ hmem)

end ScriptTree
