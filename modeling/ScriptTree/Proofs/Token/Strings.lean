import Mathlib
import ScriptTree.Proofs.Token.Origins

/-! What stands between quotes.

`StringBody quote cs ps closed` says how the text behind an opening quote falls into pieces: escape
sequences, and plain stretches between them that go as far as they can, up to the quote or the end of the
line. The scanner reads every text so (`stringBody_pieces`), and any of the pieces is read from the text
that starts with it (`StringBody.split`). So the parts of a string token fill the token without gaps
(`lex_strings`). -/
namespace ScriptTree

/-- Whether a piece is a plain stretch. -/
def Piece.isFragment : Piece → Bool
  | fragment _ => true
  | escape .. => false

/-- Whether a piece is a malformed escape sequence. -/
def Piece.isMalformed : Piece → Bool
  | fragment _ => false
  | escape _ wellFormed => !wellFormed

namespace Lexeme

inductive StringBody (quote : Char) : List Char → List Piece → Bool → Prop
  /-- The line or the text ends in front of a quote. -/
  | ended {cs} (line : ∀ c ∈ cs.head?, c = '\n' ∨ c = '\r') : StringBody quote cs [] false
  | closed {cs} : StringBody quote (quote :: cs) [] true
  | escape {cs rest ps closed} (split : cs = (escapeBody cs).1 ++ rest)
      (below : StringBody quote rest ps closed) :
      StringBody quote ('\\' :: cs) (.escape ('\\' :: (escapeBody cs).1) (escapeBody cs).2 :: ps) closed
  | fragment {front rest ps closed} (nonempty : front ≠ [])
      (plain : ∀ c ∈ front, inFragment quote c = true)
      (stops : ∀ c ∈ rest.head?, inFragment quote c = false)
      (below : StringBody quote rest ps closed) :
      StringBody quote (front ++ rest) (.fragment front :: ps) closed

/-- The scanner takes a string apart in this way. -/
theorem stringBody_pieces {quote : Char} (cs : List Char) (taken : List Piece) :
    ∃ ps closed, pieces quote cs taken = (taken.reverse ++ ps, closed) ∧
      StringBody quote cs ps closed := by
  fun_induction pieces quote cs taken with
  | case1 taken => exact ⟨[], false, by simp, .ended (by simp)⟩
  | case2 taken rest => exact ⟨[], true, by simp, .closed⟩
  | case3 taken c rest hne hline =>
    refine ⟨[], false, by simp, .ended ?_⟩
    rintro d ⟨⟩
    simpa using hline
  | case4 taken c rest hne hline p ih =>
    obtain ⟨ps, closed, heq, hbody⟩ := ih
    refine ⟨p :: ps, closed, by rw [heq]; simp, ?_⟩
    by_cases hc : c = '\\'
    · subst hc
      have hp : p = .escape ('\\' :: (escapeBody rest).1) (escapeBody rest).2 := rfl
      obtain ⟨back, hback⟩ := escapeBody_isPrefix rest
      have hdrop : rest.drop (p.text.length - 1) = back := by
        rw [hp, Piece.text, List.length_cons, Nat.add_sub_cancel]
        nth_rewrite 2 [← hback]
        exact List.drop_left
      rw [hdrop] at hbody
      rw [hp]
      exact .escape hback.symm hbody
    · have hp : p = .fragment (c :: rest.takeWhile (inFragment quote)) := if_neg hc
      have hdrop : rest.drop (p.text.length - 1) = rest.dropWhile (inFragment quote) := by
        rw [hp, Piece.text, List.length_cons, Nat.add_sub_cancel]
        nth_rewrite 2 [← List.takeWhile_append_dropWhile (p := inFragment quote) (l := rest)]
        exact List.drop_left
      rw [hdrop] at hbody
      have hplain : inFragment quote c = true := by simp_all [inFragment]
      have hstops : ∀ d ∈ (rest.dropWhile (inFragment quote)).head?, inFragment quote d = false := by
        intro d hd
        have := List.head?_dropWhile_not (inFragment quote) rest
        rw [Option.mem_def.mp hd] at this
        exact this
      have := StringBody.fragment (List.cons_ne_nil c (rest.takeWhile (inFragment quote)))
        (List.forall_mem_cons.mpr ⟨hplain, fun d hd => List.mem_takeWhile_imp hd⟩) hstops hbody
      rw [hp]
      rwa [List.cons_append, List.takeWhile_append_dropWhile] at this

theorem stringBody (quote : Char) (cs : List Char) :
    StringBody quote cs (pieces quote cs []).1 (pieces quote cs []).2 := by
  obtain ⟨ps, closed, heq, hbody⟩ := @stringBody_pieces quote cs []
  rw [heq]
  exact hbody

namespace StringBody
variable {quote : Char} {cs : List Char} {ps before after : List Piece} {closed : Bool}

theorem split (h : StringBody quote cs (before ++ after) closed) :
    ∃ back, cs = before.flatMap Piece.text ++ back ∧ StringBody quote back after closed := by
  induction before generalizing cs with
  | nil => exact ⟨cs, rfl, h⟩
  | cons p before ih =>
    cases h with
    | escape split below =>
      obtain ⟨back, rfl, hback⟩ := ih below
      refine ⟨back, ?_, hback⟩
      rw [List.flatMap_cons, List.append_assoc]
      exact congrArg ('\\' :: ·) split
    | fragment _ _ _ below =>
      obtain ⟨back, rfl, hback⟩ := ih below
      exact ⟨back, by rw [List.flatMap_cons, List.append_assoc]; rfl, hback⟩

theorem nonempty (h : StringBody quote cs ps closed) : ∀ p ∈ ps, p.text ≠ [] := by
  induction h with
  | ended | closed => nofun
  | escape _ _ ih => exact List.forall_mem_cons.mpr ⟨List.cons_ne_nil _ _, ih⟩
  | fragment some _ _ _ ih => exact List.forall_mem_cons.mpr ⟨some, ih⟩

theorem plain (h : StringBody quote cs ps closed) : ∀ text, .fragment text ∈ ps →
    ∀ c ∈ text, inFragment quote c = true := by
  induction h with
  | ended | closed => nofun
  | escape _ _ ih =>
    rintro text (_ | ⟨_, hmem⟩)
    exact ih text hmem
  | fragment _ plain _ _ ih =>
    rintro text (_ | ⟨_, hmem⟩)
    · exact plain
    · exact ih text hmem

/-- A plain stretch goes as far as it can, so no other follows it. -/
theorem apart (h : StringBody quote cs ps closed) :
    ps.IsChain fun p q => ¬(p.isFragment = true ∧ q.isFragment = true) := by
  induction h with
  | ended | closed => exact .nil
  | escape _ _ ih => exact ih.cons fun q _ h => by cases h.1
  | @fragment front rest ps closed _ _ stops below ih =>
    refine ih.cons fun q hq h => ?_
    obtain ⟨ps, rfl⟩ := List.head?_eq_some_iff.mp hq
    cases below with
    | escape => cases h.2
    | @fragment front rest _ _ nonempty plain =>
      obtain ⟨c, front, rfl⟩ := List.exists_cons_of_ne_nil nonempty
      have hplain := plain c List.mem_cons_self
      rw [stops c rfl] at hplain
      cases hplain

end StringBody

/-! ### Pieces where they stand -/

/-- Pieces from an offset on, with the offsets at which they start. -/
def piecesFrom (start : Nat) : List Piece → List (Nat × Piece)
  | [] => []
  | p :: ps => (start, p) :: piecesFrom (start + byteLength p.text) ps

/-- The part of a token that a piece is where it stands. -/
def partAt (start : Nat) (p : Piece) : StringPart :=
  match p with
  | .fragment text => .fragment ⟨start, start + byteLength text⟩
  | .escape text _ => .escape ⟨start, start + byteLength text⟩

theorem span_partAt (start : Nat) (p : Piece) :
    (partAt start p).span = ⟨start, start + byteLength p.text⟩ := by
  cases p <;> rfl

theorem placePieces_eq (start : Nat) (ps : List Piece) :
    placePieces start ps = (piecesFrom start ps).map fun entry => partAt entry.1 entry.2 := by
  induction ps generalizing start with
  | nil => rfl
  | cons p ps ih =>
    cases p <;>
    · rw [piecesFrom, List.map_cons, ← ih]
      rfl

/-- What is reported of the escape sequences of a string is about the malformed ones. -/
theorem escapeProblems_eq (start : Nat) (ps : List Piece) : escapeProblems start ps =
    ((piecesFrom start ps).filter (·.2.isMalformed)).map fun entry =>
      ⟨.invalidEscape, (partAt entry.1 entry.2).span⟩ := by
  induction ps generalizing start with
  | nil => rfl
  | cons p ps ih =>
    match p with
    | .fragment text => exact ih (start + byteLength text)
    | .escape text true => exact ih (start + byteLength text)
    | .escape text false => exact congrArg (_ :: ·) (ih (start + byteLength text))

theorem mem_piecesFrom {start offset : Nat} {p : Piece} {ps : List Piece}
    (h : (offset, p) ∈ piecesFrom start ps) : ∃ before after, ps = before ++ p :: after ∧
      offset = start + byteLength (before.flatMap Piece.text) := by
  induction ps generalizing start with
  | nil => cases h
  | cons q ps ih =>
    rcases List.mem_cons.mp h with h | h
    · obtain ⟨rfl, rfl⟩ := Prod.mk.inj h
      exact ⟨[], ps, rfl, rfl⟩
    · obtain ⟨before, after, rfl, rfl⟩ := ih h
      refine ⟨q :: before, after, rfl, ?_⟩
      rw [List.flatMap_cons, byteLength_append, Nat.add_assoc]

end Lexeme

/-! ### String tokens -/

def StringPart.isFragment : StringPart → Bool
  | fragment _ => true
  | escape _ => false

/-- Whether parts fill a stretch without gaps, and each covers something. -/
inductive Fills : Nat → List StringPart → Nat → Prop
  | nil {a} : Fills a [] a
  | cons {b part parts} (proper : part.span.start < part.span.stop)
      (rest : Fills part.span.stop parts b) : Fills part.span.start (part :: parts) b

theorem Fills.le {a b : Nat} {parts : List StringPart} (h : Fills a parts b) : a ≤ b := by
  induction h with
  | nil => exact Nat.le_refl _
  | cons proper _ ih => exact proper.le.trans ih

theorem Fills.getLast_stop {a b : Nat} {parts : List StringPart} (h : Fills a parts b) :
    (parts.getLast?.map fun part => part.span.stop).getD a = b := by
  induction h with
  | nil => rfl
  | @cons b part parts _ rest ih =>
    cases parts with
    | nil => exact ih
    | cons next parts => rwa [List.getLast?_cons_cons]

/-- Whether a string token is taken apart as its text is. -/
structure Quoted (source : String) (span : Span) (quote : Punctuation) (parts : List StringPart) :
    Prop where
  opening : (⟨span.start, span.start + 1⟩ : Span).slice source = quote.spelling
  /-- Without a report, the parts reach up to the closing quote. -/
  closed : ⟨.unterminatedString, span⟩ ∉ (lex source).problems.toList →
    Fills (span.start + 1) parts (span.stop - 1) ∧
      (⟨span.stop - 1, span.stop⟩ : Span).slice source = quote.spelling
  /-- With one they reach up to the end of the line or the text, and no quote stands there. -/
  ended : ⟨.unterminatedString, span⟩ ∈ (lex source).problems.toList →
    Fills (span.start + 1) parts span.stop ∧
      ∀ c ∈ (textFrom source span.stop).head?, c = '\n' ∨ c = '\r'
  within : ∀ part ∈ parts, part.span.LiesIn source
  apart : parts.IsChain fun p q => ¬(p.isFragment = true ∧ q.isFragment = true)
  plain : ∀ inner, .fragment inner ∈ parts → ∀ c ∈ (inner.slice source).toList,
    c ∉ quote.spelling.toList ∧ c ≠ '\\' ∧ c ≠ '\n' ∧ c ≠ '\r'

namespace Lexeme

theorem fills_placePieces {start : Nat} {ps : List Piece} (hps : ∀ p ∈ ps, p.text ≠ []) :
    Fills start (placePieces start ps) (start + byteLength (ps.flatMap Piece.text)) := by
  induction ps generalizing start with
  | nil => exact .nil
  | cons p ps ih =>
    obtain ⟨hp, hrest⟩ := List.forall_mem_cons.mp hps
    have hproper : (partAt start p).span.start < (partAt start p).span.stop := by
      rw [span_partAt]
      exact Nat.lt_add_of_pos_right (byteLength_pos hp)
    rw [List.flatMap_cons, byteLength_append, ← Nat.add_assoc]
    cases p with
    | fragment text => exact .cons hproper (ih hrest)
    | escape text wellFormed => exact .cons hproper (ih hrest)

theorem map_isFragment_placePieces (start : Nat) (ps : List Piece) :
    (placePieces start ps).map StringPart.isFragment = ps.map Piece.isFragment := by
  induction ps generalizing start with
  | nil => rfl
  | cons p ps ih =>
    rw [List.map_cons, ← ih (start + byteLength p.text)]
    cases p <;> rfl

theorem apart_placePieces {start : Nat} {ps : List Piece}
    (h : ps.IsChain fun p q => ¬(p.isFragment = true ∧ q.isFragment = true)) :
    (placePieces start ps).IsChain fun p q => ¬(p.isFragment = true ∧ q.isFragment = true) := by
  rw [← List.isChain_map (R := fun p q => ¬(p = true ∧ q = true)) StringPart.isFragment,
    map_isFragment_placePieces, List.isChain_map]
  exact h

end Lexeme

theorem Lexeme.utf8Size_quote {mark : Char} {quote : Punctuation} (h : quote? mark = some quote) :
    mark.utf8Size = 1 := by
  unfold quote? at h
  split at h <;> first | rfl | cases h

namespace ReadFrom
open Lexeme
variable {source : String} {t : Token} {quote : Punctuation} {ps : List Piece} {closed : Bool}

/-- A piece of a string token stands where it is placed, and behind it the rest of the string. -/
theorem piece (h : ReadFrom source t (.string quote ps closed)) {offset : Nat} {p : Piece}
    (hp : (offset, p) ∈ piecesFrom (t.span.start + 1) ps) :
    (partAt offset p).span.slice source = .ofList p.text ∧ ∃ mark after, quote? mark = some quote ∧
      StringBody mark (textFrom source offset) (p :: after) closed := by
  obtain ⟨mark, behind, hahead, hmark, hpieces⟩ := h.scanned
  obtain ⟨before, after, rfl, rfl⟩ := mem_piecesFrom hp
  have hbody := stringBody mark behind
  rw [hpieces] at hbody
  obtain ⟨back, rfl, hback⟩ := hbody.split
  have htext : (Lexeme.string quote (before ++ p :: after) closed).text =
      (mark :: before.flatMap Piece.text) ++ p.text ++
        (after.flatMap Piece.text ++ if closed then [mark] else []) := by
    rw [Lexeme.text, (quote_spelling hmark).1]
    simp
  have hspan : (partAt (t.span.start + 1 + byteLength (before.flatMap Piece.text)) p).span =
      ⟨t.span.start + byteLength (mark :: before.flatMap Piece.text),
        t.span.start + byteLength (mark :: before.flatMap Piece.text) + byteLength p.text⟩ := by
    rw [span_partAt, byteLength_cons, utf8Size_quote hmark, Nat.add_assoc t.span.start]
  obtain ⟨hslice, hhere⟩ := h.stretch htext hahead hspan
  rw [span_partAt] at hhere
  exact ⟨hslice, mark, after, hmark, hhere ▸ hback⟩

theorem stop_string (h : ReadFrom source t (.string quote ps closed)) {mark : Char}
    (hmark : quote? mark = some quote) :
    t.span.stop = t.span.start + 1 + byteLength (ps.flatMap Piece.text) + if closed then 1 else 0 := by
  have hend : t.span.stop = t.span.start + byteLength (Lexeme.string quote ps closed).text :=
    congrArg Span.stop h.span_eq
  have hwidth : byteLength quote.spelling.toList = 1 := by
    rw [(quote_spelling hmark).1, byteLength_cons, utf8Size_quote hmark]
    rfl
  rw [hend, Lexeme.text, byteLength_append, byteLength_append, hwidth, ← Nat.add_assoc, ← Nat.add_assoc]
  cases closed with
  | false => rfl
  | true => rw [if_pos rfl, if_pos rfl, hwidth]

/-- A string without a closing quote is reported, whatever else is reported of it. -/
theorem unterminated_iff (h : ReadFrom source t (.string quote ps closed)) :
    ⟨.unterminatedString, t.span⟩ ∈ (lex source).problems.toList ↔ closed = false := by
  have hproper : t.span.start < t.span.stop := by
    rw [h.span_eq]
    exact h.stands.proper
  have hspan : (Lexeme.string quote ps closed).span t.span.start = t.span := h.span_eq.symm
  rw [h.mem_problems le_rfl hproper, Lexeme.problems, hspan, List.mem_append, escapeProblems_eq]
  cases closed <;> simp

theorem quoted (h : ReadFrom source t (.string quote ps closed))
    (ht : t ∈ (lex source).tokens.toList)
    (hkind : t.kind = .string quote (placePieces (t.span.start + 1) ps)) :
    Quoted source t.span quote (placePieces (t.span.start + 1) ps) := by
  obtain ⟨mark, behind, hahead, hmark, hpieces⟩ := h.scanned
  have hbody := stringBody mark behind
  rw [hpieces] at hbody
  have hwhole : StringBody mark behind (ps ++ []) closed := by rwa [List.append_nil]
  obtain ⟨back, rfl, hback⟩ := hwhole.split
  have hspelling := (quote_spelling hmark).1
  have hwidth := utf8Size_quote hmark
  have htext : (Lexeme.string quote ps closed).text =
      [mark] ++ ps.flatMap Piece.text ++ if closed then [mark] else [] := by
    rw [Lexeme.text, hspelling]
  have hstop := h.stop_string hmark
  have hfills := @fills_placePieces (t.span.start + 1) _ hbody.nonempty
  have hfront : t.span.start + byteLength ([mark] ++ ps.flatMap Piece.text) =
      t.span.start + 1 + byteLength (ps.flatMap Piece.text) := by
    rw [byteLength_append, byteLength_cons, hwidth, ← Nat.add_assoc]
    rfl
  obtain ⟨hclosing, hbehind⟩ := h.stretch (htext.trans (List.append_nil _).symm)
    (hahead.trans (List.cons_append ..).symm) (by rw [hfront])
  refine ⟨?_, fun hnone => ?_, fun hsome => ?_, ?_, apart_placePieces hbody.apart, ?_⟩
  · have hfirst : (Lexeme.string quote ps closed).text =
        [] ++ [mark] ++ (ps.flatMap Piece.text ++ if closed then [mark] else []) :=
      htext.trans (List.append_assoc ..)
    have hopening := (h.stretch hfirst hahead rfl).1
    rw [show (byteLength [] : Nat) = 0 from rfl, byteLength_cons, hwidth, ← hspelling,
      String.ofList_toList] at hopening
    exact hopening
  · obtain rfl : closed = true := by simpa [h.unterminated_iff] using hnone
    have hwide : byteLength (if true then [mark] else []) = 1 := by
      rw [if_pos rfl, byteLength_cons, hwidth]
      rfl
    rw [hwide, if_pos rfl, ← hspelling, String.ofList_toList] at hclosing
    rw [hstop, if_pos rfl, Nat.add_sub_cancel]
    exact ⟨hfills, hclosing⟩
  · obtain rfl : closed = false := h.unterminated_iff.mp hsome
    rw [if_neg Bool.false_ne_true, Nat.add_zero] at hstop
    rw [hstop]
    refine ⟨hfills, ?_⟩
    rw [show textFrom source _ = back from hbehind]
    cases hback with
    | ended line => exact line
  · intro part hpart
    exact (token_liesIn ht).2 _ (by rw [hkind]; exact List.mem_map_of_mem hpart)
  · intro inner hinner c hc
    rw [placePieces_eq] at hinner
    obtain ⟨⟨offset, p⟩, hp, hpart⟩ := List.mem_map.mp hinner
    obtain ⟨hslice, -⟩ := h.piece hp
    obtain ⟨before, after, rfl, -⟩ := mem_piecesFrom hp
    cases p with
    | escape => cases hpart
    | fragment text =>
      rw [hpart] at hslice
      rw [show inner.slice source = _ from hslice, String.toList_ofList] at hc
      have hplain := hbody.plain text (by simp) c hc
      rw [hspelling, List.mem_singleton]
      simpa [inFragment, and_assoc] using hplain

end ReadFrom

/-- **Strings are taken apart without gaps**, up to the closing quote or the end of the line. -/
theorem lex_strings {source : String} {t : Token} (ht : t ∈ (lex source).tokens.toList)
    {quote : Punctuation} {parts : List StringPart} (hkind : t.kind = .string quote parts) :
    Quoted source t.span quote parts := by
  obtain ⟨l, hread⟩ := exists_readFrom ht (by rw [hkind]; nofun)
  have hl := hread.kind_eq
  rw [hkind] at hl
  cases l with
  | string mark ps closed =>
    cases hl
    exact hread.quoted ht hkind
  | regex => cases hl
  | _ => cases hl

/-- The quotes of a string are single or double ones. -/
theorem lex_quotes {source : String} {t : Token} (ht : t ∈ (lex source).tokens.toList)
    {quote : Punctuation} {parts : List StringPart} (hkind : t.kind = .string quote parts) :
    quote = .singleQuote ∨ quote = .doubleQuote := by
  obtain ⟨l, hread⟩ := exists_readFrom ht (by rw [hkind]; nofun)
  have hl := hread.kind_eq
  rw [hkind] at hl
  cases l with
  | string mark ps closed =>
    cases hl
    obtain ⟨_, _, -, hmark, -⟩ := hread.scanned
    unfold Lexeme.quote? at hmark
    split at hmark <;> cases hmark
    · exact .inr rfl
    · exact .inl rfl
  | regex => cases hl
  | _ => cases hl

end ScriptTree
