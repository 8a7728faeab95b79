import Mathlib
import ScriptTree.Proofs.Token.Parts
import ScriptTree.Proofs.Tree.Relocation

/-! Lexemes of a text whose line feeds are spelled in another way.

`respell feed cs` is the text `cs` with `feed` for every line feed. A lexeme of `cs` goes over into one
of the respelled text, only line feeds between tokens become several. If a function moves every offset
of the old text to where it is in the new one, then what is read off the lexemes is the same, but moved
(`placeFrom_respelled`). With `feed` a line feed itself, this is about the same lexemes elsewhere. -/
namespace ScriptTree

/-! ### Texts -/

/-- A text with another spelling of the line feed. -/
def respell (feed cs : List Char) : List Char := cs.flatMap fun c => if c = '\n' then feed else [c]

section Texts
variable {feed : List Char}

theorem respell_append (feed a b : List Char) :
    respell feed (a ++ b) = respell feed a ++ respell feed b := List.flatMap_append

theorem respell_cons (feed : List Char) (c : Char) (cs : List Char) :
    respell feed (c :: cs) = (if c = '\n' then feed else [c]) ++ respell feed cs := List.flatMap_cons

theorem respell_cons_of_ne {c : Char} (h : c ≠ '\n') (cs : List Char) :
    respell feed (c :: cs) = c :: respell feed cs := by
  rw [respell_cons, if_neg h, List.singleton_append]

theorem respell_of_not_mem {cs : List Char} (h : '\n' ∉ cs) : respell feed cs = cs := by
  induction cs with
  | nil => rfl
  | cons c cs ih =>
    rw [List.mem_cons, not_or] at h
    rw [respell_cons_of_ne (Ne.symm h.1), ih h.2]

theorem respell_self (cs : List Char) : respell ['\n'] cs = cs := by
  have hchar : (fun c => if c = '\n' then ['\n'] else [c]) = (fun c : Char => [c]) := by
    funext c
    split
    · rw [‹c = '\n'›]
    · rfl
  rw [respell, hchar, List.flatMap_singleton']

/-- Whether a function moves the offsets of a text to where they are when it is respelled, if it
starts at `start` and then at `start'`. -/
def Respells (feed : List Char) (place : Nat → Nat) (start start' : Nat) (text : List Char) : Prop :=
  ∀ part, part <+: text → place (start + byteLength part) = start' + byteLength (respell feed part)

namespace Respells
variable {place : Nat → Nat} {start start' : Nat} {front back text : List Char}

theorem begins (h : Respells feed place start start' text) : place start = start' :=
  h [] List.nil_prefix

theorem ends (h : Respells feed place start start' text) :
    place (start + byteLength text) = start' + byteLength (respell feed text) :=
  h text (List.prefix_refl _)

theorem left (h : Respells feed place start start' (front ++ back)) :
    Respells feed place start start' front :=
  fun part hpart => h part (hpart.trans (List.prefix_append _ _))

theorem right (h : Respells feed place start start' (front ++ back)) :
    Respells feed place (start + byteLength front) (start' + byteLength (respell feed front)) back := by
  intro part hpart
  have := h (front ++ part) ((List.prefix_append_right_inj front).mpr hpart)
  rwa [byteLength_append, respell_append, byteLength_append, ← Nat.add_assoc, ← Nat.add_assoc] at this

end Respells

end Texts

/-! ### Tokens elsewhere -/

def StringPart.relocate (place : Nat → Nat) : StringPart → StringPart
  | fragment span => fragment (span.relocate place)
  | escape span => escape (span.relocate place)

def TokenKind.relocate (place : Nat → Nat) : TokenKind → TokenKind
  | string quote parts => string quote (parts.map (·.relocate place))
  | regex pattern flags => regex (pattern.relocate place) (flags.map (·.relocate place))
  | kind => kind

/-- The token with every offset moved. -/
def Token.relocate (place : Nat → Nat) (t : Token) : Token :=
  ⟨t.kind.relocate place, t.span.relocate place⟩

def Comment.relocate (place : Nat → Nat) (c : Comment) : Comment :=
  { c with span := c.span.relocate place }

/-! ### Lexemes -/

def Piece.respell (feed : List Char) : Piece → Piece
  | fragment text => fragment (ScriptTree.respell feed text)
  | escape text wellFormed => escape (ScriptTree.respell feed text) wellFormed

namespace Lexeme

/-- Whether lines may end within a lexeme. -/
def spansLines : Lexeme → Bool
  | comment .. | string .. | templateChars _ | templateEscape .. => true
  | _ => false

/-- The lexeme with another spelling of the line feeds in it. -/
def respell (feed : List Char) : Lexeme → Lexeme
  | comment kind text closed => comment kind (ScriptTree.respell feed text) closed
  | string quote pieces closed => string quote (pieces.map (·.respell feed)) closed
  | templateChars text => templateChars (ScriptTree.respell feed text)
  | templateEscape text wellFormed => templateEscape (ScriptTree.respell feed text) wellFormed
  | l => l

/-- Whether only line feeds between tokens, and within what spans lines, are in a lexeme. -/
def Spelled (l : Lexeme) : Prop := l.spansLines = true ∨ '\n' ∉ l.text

/-- What a lexeme becomes when the text is respelled. A line feed between tokens becomes blanks. -/
def respelled (feed : List Char) (l : Lexeme) : List Lexeme :=
  if l = .blank '\n' then feed.map .blank else [l.respell feed]

section Respell
variable {feed : List Char} {l : Lexeme} {place : Nat → Nat} {start start' : Nat}

theorem not_mem_spelling (mark : Punctuation) : '\n' ∉ mark.spelling.toList := by
  cases mark <;> decide

theorem text_pieces_respell (pieces : List Piece) :
    (pieces.map (·.respell feed)).flatMap Piece.text =
      ScriptTree.respell feed (pieces.flatMap Piece.text) := by
  induction pieces with
  | nil => rfl
  | cons p pieces ih =>
    rw [List.map_cons, List.flatMap_cons, ih, List.flatMap_cons, respell_append]
    cases p <;> rfl

/-- A line feed spelled as itself changes nothing. -/
theorem respell_feed (l : Lexeme) : l.respell ['\n'] = l := by
  have hpiece (p : Piece) : p.respell ['\n'] = p := by
    cases p with
    | fragment text => exact congrArg Piece.fragment (respell_self text)
    | escape text wellFormed => exact congrArg (Piece.escape · wellFormed) (respell_self text)
  cases l with
  | comment kind text closed => exact congrArg (comment kind · closed) (respell_self text)
  | templateChars text => exact congrArg templateChars (respell_self text)
  | templateEscape text wellFormed => exact congrArg (templateEscape · wellFormed) (respell_self text)
  | string quote pieces closed =>
    rw [respell, List.map_congr_left fun p _ => hpiece p, List.map_id']
  | blank | unexpected | keyword | identifier | number | operator | loose | punctuation | regex => rfl

theorem text_respell (h : feed = ['\n'] ∨ l.Spelled) :
    (l.respell feed).text = ScriptTree.respell feed l.text := by
  rcases h with rfl | h
  · rw [respell_feed, respell_self]
  cases l with
  | comment | templateChars | templateEscape => rfl
  | string quote pieces closed =>
    have hmark : ScriptTree.respell feed quote.spelling.toList = _ :=
      respell_of_not_mem (not_mem_spelling quote)
    simp only [respell, text, respell_append, text_pieces_respell, hmark]
    cases closed
    · rfl
    · simp only [if_true, hmark]
  | blank | unexpected | keyword | identifier | number | operator | loose | punctuation | regex =>
    exact (respell_of_not_mem (h.resolve_left (by simp [spansLines]))).symm

theorem text_respelled (h : l = .blank '\n' ∨ l.Spelled) :
    (l.respelled feed).flatMap text = ScriptTree.respell feed l.text := by
  rw [respelled]
  split
  · subst l
    have hblanks (cs : List Char) : (cs.map blank).flatMap text = cs := by
      induction cs with
      | nil => rfl
      | cons c cs ih => rw [List.map_cons, List.flatMap_cons, ih]; rfl
    rw [hblanks]
    exact (List.append_nil feed).symm
  · rw [List.flatMap_singleton, text_respell (.inr (h.resolve_left ‹_›))]

theorem respell_of_line (h : '\n' ∉ l.text) : l.respell feed = l := by
  cases l with
  | comment kind text closed => exact congrArg (comment kind · closed) (respell_of_not_mem h)
  | templateChars text => exact congrArg templateChars (respell_of_not_mem h)
  | templateEscape text wellFormed =>
    exact congrArg (templateEscape · wellFormed) (respell_of_not_mem h)
  | string quote pieces closed =>
    have hpiece : ∀ p ∈ pieces, p.respell feed = p := by
      intro p hp
      have hp : '\n' ∉ p.text := fun hmem => h (by
        simp only [text, List.mem_append, List.mem_flatMap]
        exact .inl (.inr ⟨p, hp, hmem⟩))
      cases p with
      | fragment text => exact congrArg Piece.fragment (respell_of_not_mem hp)
      | escape text wellFormed => exact congrArg (Piece.escape · wellFormed) (respell_of_not_mem hp)
    rw [respell, List.map_congr_left hpiece, List.map_id']
  | blank | unexpected | keyword | identifier | number | operator | loose | punctuation | regex => rfl

/-! ### What is read off a lexeme -/

variable (h : Respells feed place start start' l.text) (hspelled : feed = ['\n'] ∨ l.Spelled)
include h hspelled

theorem span_respell : (l.respell feed).span start' = (l.span start).relocate place := by
  rw [span, size, text_respell hspelled, span, Span.relocate, size, h.begins, h.ends]

omit h hspelled in
theorem placePieces_respell {pieces : List Piece}
    (h : Respells feed place start start' (pieces.flatMap Piece.text)) :
    placePieces start' (pieces.map (·.respell feed)) =
      (placePieces start pieces).map (·.relocate place) := by
  induction pieces generalizing start start' with
  | nil => rfl
  | cons p pieces ih =>
    rw [List.flatMap_cons] at h
    have hrest := ih h.right
    have hspan : Span.mk start' (start' + byteLength (ScriptTree.respell feed p.text)) =
        (Span.mk start (start + byteLength p.text)).relocate place := by
      rw [Span.relocate, h.left.begins, h.left.ends]
    rw [List.map_cons]
    cases p with
    | fragment text => exact congrArg₂ List.cons (congrArg StringPart.fragment hspan) hrest
    | escape text => exact congrArg₂ List.cons (congrArg StringPart.escape hspan) hrest

omit h hspelled in
theorem escapeProblems_respell {pieces : List Piece}
    (h : Respells feed place start start' (pieces.flatMap Piece.text)) :
    escapeProblems start' (pieces.map (·.respell feed)) =
      (escapeProblems start pieces).map (·.relocate place) := by
  induction pieces generalizing start start' with
  | nil => rfl
  | cons p pieces ih =>
    rw [List.flatMap_cons] at h
    have hrest := ih h.right
    rw [List.map_cons]
    cases p with
    | fragment text => exact hrest
    | escape text wellFormed =>
      cases wellFormed with
      | true => exact hrest
      | false =>
        refine congrArg₂ List.cons ?_ hrest
        show (⟨.invalidEscape, ⟨start', _⟩⟩ : Problem) = ⟨.invalidEscape, ⟨place start, place _⟩⟩
        rw [h.left.begins, show place (start + byteLength (Piece.escape text false).text) = _ from
          h.left.ends]
        rfl

omit h hspelled in
/-- A quote is one byte wide, wherever it stands. -/
theorem quote_width {mark : Punctuation} (hmark : mark = .doubleQuote ∨ mark = .singleQuote) :
    byteLength mark.spelling.toList = 1 ∧
      ScriptTree.respell feed mark.spelling.toList = mark.spelling.toList := by
  refine ⟨?_, respell_of_not_mem (not_mem_spelling mark)⟩
  rcases hmark with rfl | rfl <;> decide

omit h hspelled in
/-- The pieces of a string start behind the quote. -/
theorem Regular.pieces {quote : Punctuation} {pieces : List Piece} {closed : Bool}
    (hregular : (string quote pieces closed).Regular)
    (h : Respells feed place start start' (string quote pieces closed).text) :
    Respells feed place (start + 1) (start' + 1) (pieces.flatMap Piece.text) := by
  obtain ⟨hwidth, hsame⟩ := @quote_width feed quote hregular.1
  have h := h.left.right
  rwa [hsame, hwidth] at h

omit h hspelled in
/-- Most lexemes are in one line. -/
theorem line_respell (hline : l.spansLines = false) (hspelled : feed = ['\n'] ∨ l.Spelled)
    {part : List Char} (hpart : part <+: l.text) : ScriptTree.respell feed part = part := by
  rcases hspelled with rfl | hspelled
  · exact respell_self part
  · exact respell_of_not_mem fun hmem => hspelled.resolve_left (by simp [hline]) (hpart.subset hmem)

omit h hspelled in
theorem regex_tokenKind?_respell {pattern flags : List Char} {closed : Bool}
    (h : Respells feed place start start' (regex pattern flags closed).text)
    (hspelled : feed = ['\n'] ∨ (regex pattern flags closed).Spelled)
    (hregular : closed = false → flags = []) :
    (regex pattern flags closed).tokenKind? start' =
      ((regex pattern flags closed).tokenKind? start).map (·.relocate place) := by
  have hslash : byteLength ['/'] = 1 := by decide
  have hoffset {part : List Char} (hpart : part <+: (regex pattern flags closed).text) :
      start' + byteLength part = place (start + byteLength part) := by
    rw [h part hpart, line_respell rfl hspelled hpart]
  -- Behind the opening slash, and behind the pattern.
  have hfront : ['/'] ++ pattern <+: (regex pattern flags closed).text := List.prefix_append _ _
  have hstart : start' + 1 = place (start + 1) :=
    hslash ▸ hoffset ((List.prefix_append _ _).trans hfront)
  have hstop : start' + 1 + byteLength pattern = place (start + 1 + byteLength pattern) := by
    have := hoffset hfront
    rwa [byteLength_append, hslash, ← Nat.add_assoc, ← Nat.add_assoc] at this
  have hpattern : Span.mk (start' + 1) (start' + 1 + byteLength pattern) =
      (Span.mk (start + 1) (start + 1 + byteLength pattern)).relocate place :=
    congrArg₂ Span.mk hstart hstop
  cases flags with
  | nil => exact congrArg (fun span => some (TokenKind.regex span none)) hpattern
  | cons flag flags =>
    obtain rfl : closed = true := by
      by_contra hopen
      cases hregular (Bool.eq_false_of_not_eq_true hopen)
    -- Behind the closing slash, and behind the flags.
    have htext : (regex pattern (flag :: flags) true).text =
        ['/'] ++ pattern ++ ['/'] ++ (flag :: flags) := by simp [text]
    have hclosing : start' + 1 + byteLength pattern + 1 =
        place (start + 1 + byteLength pattern + 1) := by
      have hpart : ['/'] ++ pattern ++ ['/'] <+: _ := htext ▸ List.prefix_append _ _
      have := hoffset hpart
      simpa only [byteLength_append, hslash, ← Nat.add_assoc] using this
    have hend : start' + 1 + byteLength pattern + 1 + byteLength (flag :: flags) =
        place (start + 1 + byteLength pattern + 1 + byteLength (flag :: flags)) := by
      have := hoffset (List.prefix_refl _)
      simpa only [htext, byteLength_append, hslash, ← Nat.add_assoc] using this
    have hflags : Span.mk (start' + 1 + byteLength pattern + 1)
        (start' + 1 + byteLength pattern + 1 + byteLength (flag :: flags)) =
        (Span.mk (start + 1 + byteLength pattern + 1)
          (start + 1 + byteLength pattern + 1 + byteLength (flag :: flags))).relocate place :=
      congrArg₂ Span.mk hclosing hend
    exact congrArg some (congrArg₂ TokenKind.regex hpattern (congrArg some hflags))

theorem tokenKind?_respell (hregular : l.Regular) :
    (l.respell feed).tokenKind? start' = (l.tokenKind? start).map (·.relocate place) := by
  cases l with
  | string quote pieces closed =>
    have hpieces := placePieces_respell (hregular.pieces h)
    exact congrArg (fun parts => some (TokenKind.string quote parts)) hpieces
  | regex pattern flags closed => exact regex_tokenKind?_respell h hspelled hregular
  | blank | unexpected | keyword | identifier | number | operator | loose | punctuation | comment
  | templateChars | templateEscape => rfl

theorem token?_respell (hregular : l.Regular) :
    (l.respell feed).token? start' = (l.token? start).map (·.relocate place) := by
  rw [token?, token?, tokenKind?_respell h hspelled hregular, span_respell h hspelled,
    Option.map_map, Option.map_map]
  rfl

theorem comment?_respell :
    (l.respell feed).comment? start' = (l.comment? start).map (·.relocate place) := by
  have hspan := span_respell h hspelled
  cases l with
  | comment kind text closed => exact congrArg (fun span => some (Comment.mk kind span)) hspan
  | blank | unexpected | keyword | identifier | number | operator | loose | punctuation | string
  | regex | templateChars | templateEscape => rfl

theorem problems_respell (hregular : l.Regular) :
    (l.respell feed).problems start' = (l.problems start).map (·.relocate place) := by
  have hspan := span_respell h hspelled
  have hwhole (cause : Cause) : (⟨cause, (l.respell feed).span start'⟩ : Problem) =
      Problem.relocate place ⟨cause, l.span start⟩ := congrArg (Problem.mk cause) hspan
  cases l with
  | unexpected c => exact congrArg ([·]) (hwhole _)
  | loose spelling strict => exact congrArg ([·]) (hwhole _)
  | comment kind text closed =>
    cases closed
    · exact congrArg ([·]) (hwhole _)
    · rfl
  | regex pattern flags closed =>
    cases closed
    · exact congrArg ([·]) (hwhole _)
    · rfl
  | templateEscape text wellFormed =>
    cases wellFormed
    · exact congrArg ([·]) (hwhole _)
    · rfl
  | string quote pieces closed =>
    have hescapes := escapeProblems_respell (hregular.pieces h)
    cases closed
    · show escapeProblems _ _ ++ [_] = (escapeProblems _ _ ++ [_]).map _
      rw [List.map_append, hescapes]
      exact congrArg (_ ++ [·]) (hwhole _)
    · show escapeProblems _ _ ++ [] = (escapeProblems _ _ ++ []).map _
      rw [List.append_nil, List.append_nil, hescapes]
  | number text missing =>
    cases missing with
    | none => rfl
    | some radix =>
      obtain ⟨mark, rest, rfl, hmark⟩ := hregular
      have hopening : ['0', mark] <+: (number ('0' :: mark :: rest) (some radix)).text :=
        List.prefix_append ['0', mark] rest
      have hwidth : byteLength ['0', mark] = 2 := by
        unfold radixMark? at hmark
        split at hmark <;> cases hmark <;> decide
      have hline : ScriptTree.respell feed ['0', mark] = ['0', mark] :=
        line_respell rfl hspelled hopening
      have hstop := h _ hopening
      rw [hline, hwidth] at hstop
      show [(⟨_, ⟨start', start' + 2⟩⟩ : Problem)] = [⟨_, ⟨place start, place (start + 2)⟩⟩]
      rw [h.begins, hstop]
  | blank | keyword | identifier | operator | punctuation | templateChars => rfl

end Respell

end Lexeme

/-! ### Strings and regular expressions taken apart -/

open Parsing

/-- The offsets of the marks around what a string or regular expression holds. -/
def Token.marks (t : Token) : List Nat :=
  match t.kind with
  | .string _ parts =>
    let stop := contentStop t.span.start parts
    t.span.start :: if stop < t.span.stop then [stop] else []
  | .regex pattern _ => t.span.start :: if pattern.stop < t.span.stop then [pattern.stop] else []
  | _ => []

section Marks
variable {place : Nat → Nat}

theorem closingNode_relocate (symbol : Symbol) {offset stop : Nat} (hmono : StrictMono place)
    (h : offset < stop → place (offset + 1) = place offset + 1) :
    closingNode symbol (place offset < place stop) (place offset) =
      (closingNode symbol (offset < stop) offset).relocate place := by
  by_cases hlt : offset < stop
  · rw [decide_eq_true hlt, decide_eq_true (hmono hlt)]
    show Node.leaf _ _ = (Node.leaf _ _).relocate place
    rw [Node.relocate_leaf, Span.relocate, h hlt]
  · rw [decide_eq_false hlt, decide_eq_false (hmono.lt_iff_lt.not.mpr hlt)]
    exact (Node.relocate_absent ..).symm

theorem contentStop_relocate {start : Nat} (h : place (start + 1) = place start + 1)
    (parts : List StringPart) :
    contentStop (place start) (parts.map (·.relocate place)) = place (contentStop start parts) := by
  rw [contentStop, contentStop, List.getLast?_map]
  cases parts.getLast? with
  | none => exact h.symm
  | some part => cases part <;> rfl

theorem partNode_relocate (part : StringPart) :
    partNode (part.relocate place) = (partNode part).relocate place := by
  cases part <;> exact (Node.relocate_leaf ..).symm

/-- Moving a token moves what it is taken apart into, if marks keep their width. -/
theorem literalNode?_relocate (hmono : StrictMono place) {t : Token}
    (hmarks : ∀ offset ∈ t.marks, place (offset + 1) = place offset + 1) :
    literalNode? (t.relocate place) = (literalNode? t).map (·.relocate place) := by
  obtain ⟨kind, span⟩ := t
  have hopening {symbol : Symbol} (h : place (span.start + 1) = place span.start + 1) :
      Node.leaf symbol ⟨place span.start, place span.start + 1⟩ =
        (Node.leaf symbol ⟨span.start, span.start + 1⟩).relocate place := by
    rw [Node.relocate_leaf, Span.relocate, h]
  cases kind with
  | string quote parts =>
    have hstart := hmarks span.start (List.mem_cons_self ..)
    have hclosing : contentStop span.start parts < span.stop →
        place (contentStop span.start parts + 1) = place (contentStop span.start parts) + 1 := by
      intro hlt
      refine hmarks _ (List.mem_cons_of_mem _ ?_)
      rw [if_pos hlt]
      exact List.mem_singleton_self _
    have hparts : (parts.map (·.relocate place)).map partNode =
        (parts.map partNode).map (·.relocate place) := by
      rw [List.map_map, List.map_map]
      exact List.map_congr_left fun part _ => partNode_relocate part
    have hclose := closingNode_relocate (.punctuation quote) hmono hclosing
    refine congrArg some (Eq.trans ?_ (Node.relocate_ofChildren hmono.monotone (by
      simp [stringPieces])).symm)
    refine congrArg (Node.ofChildren .string) ?_
    simp only [stringPieces, Token.relocate, Span.relocate, contentStop_relocate hstart, hparts,
      hopening hstart, hclose, List.map_cons, List.map_append, List.map_nil]
  | regex pattern flags =>
    have hstart := hmarks span.start (List.mem_cons_self ..)
    have hclosing : pattern.stop < span.stop → place (pattern.stop + 1) = place pattern.stop + 1 := by
      intro hlt
      refine hmarks _ (List.mem_cons_of_mem _ ?_)
      rw [if_pos hlt]
      exact List.mem_singleton_self _
    have hclose := closingNode_relocate (.operator .divide) hmono hclosing
    refine congrArg some (Eq.trans ?_ (Node.relocate_ofChildren hmono.monotone (by
      simp [regexPieces])).symm)
    refine congrArg (Node.ofChildren .regex) ?_
    have hflags : (flags.map (Span.relocate place)).toList.map (fun flags =>
          (Node.leaf (.named .regexFlags) flags).withField .flags) =
        (flags.toList.map fun flags =>
          (Node.leaf (.named .regexFlags) flags).withField .flags).map (Node.relocate place) := by
      cases flags with
      | none => rfl
      | some flags => exact congrArg ([·]) (by rw [Node.relocate_withField, Node.relocate_leaf])
    have hpattern : (Node.leaf (.named .regexPattern) (pattern.relocate place)).withField .pattern =
        ((Node.leaf (.named .regexPattern) pattern).withField .pattern).relocate place := by
      rw [Node.relocate_withField, Node.relocate_leaf]
    rw [regexPieces, regexPieces, List.map_append, ← hflags]
    exact congrArg₂ (· ++ ·) (congrArg₂ List.cons (hopening hstart)
      (congrArg₂ List.cons hpattern (congrArg ([·]) hclose))) rfl
  | keyword | operator | punctuation | identifier | number | templateChars | templateEscape
  | endOfFile => rfl

/-- A one-byte mark within a text keeps its width. -/
theorem Respells.mark {feed front back : List Char} {mark : Char} {start start' : Nat}
    (h : Respells feed place start start' (front ++ mark :: back)) (hmark : mark ≠ '\n')
    (hwidth : mark.utf8Size = 1) :
    place (start + byteLength front + 1) = place (start + byteLength front) + 1 := by
  have hright := h.right
  rw [hright.begins]
  have := hright [mark] (List.prefix_append [mark] back)
  rwa [respell_cons_of_ne hmark, byteLength_cons, byteLength_cons, hwidth] at this

namespace Lexeme
variable {feed : List Char} {l : Lexeme} {start start' : Nat}

theorem quote_spelling_eq {mark : Punctuation} (hmark : mark = .doubleQuote ∨ mark = .singleQuote) :
    ∃ c, mark.spelling.toList = [c] ∧ c ≠ '\n' ∧ c.utf8Size = 1 := by
  rcases hmark with rfl | rfl
  · exact ⟨'\x22', by decide, by decide, by decide⟩
  · exact ⟨'\x27', by decide, by decide, by decide⟩

/-- The marks of a string or regular expression keep their width. -/
theorem marks_respell (h : Respells feed place start start' l.text) (hregular : l.Regular) {t : Token}
    (ht : l.token? start = some t) : ∀ offset ∈ t.marks, place (offset + 1) = place offset + 1 := by
  obtain ⟨kind, hkind, rfl⟩ := Option.map_eq_some_iff.mp ht
  intro offset hoffset
  cases l with
  | string quote pieces closed =>
    cases hkind
    obtain ⟨c, hspelling, hc, hwidth⟩ := quote_spelling_eq hregular.1
    have htext : (string quote pieces closed).text =
        [c] ++ pieces.flatMap Piece.text ++ if closed then [c] else [] := by
      simp only [text, hspelling]
    have hstop : contentStop start (placePieces (start + 1) pieces) =
        start + byteLength ([c] ++ pieces.flatMap Piece.text) := by
      rw [contentStop, getLast?_placePieces, byteLength_append, byteLength_cons, hwidth,
        ← Nat.add_assoc]
      rfl
    rw [htext] at h
    obtain hoffset | hoffset := List.mem_cons.mp hoffset
    · have h : Respells feed place start start'
          ([] ++ c :: (pieces.flatMap Piece.text ++ if closed then [c] else [])) := h
      rw [show offset = start from hoffset]
      exact h.mark hc hwidth
    · obtain ⟨hlt, hoffset⟩ := List.mem_ite_nil_right.mp hoffset
      rw [List.mem_singleton.mp hoffset]
      change contentStop start (placePieces (start + 1) pieces) <
        start + byteLength (string quote pieces closed).text at hlt
      change place (contentStop start (placePieces (start + 1) pieces) + 1) =
        place (contentStop start (placePieces (start + 1) pieces)) + 1
      rw [hstop] at hlt ⊢
      cases closed with
      | false =>
        -- Behind the pieces of a string that is not closed, there is nothing of it.
        rw [htext, if_neg Bool.false_ne_true, List.append_nil] at hlt
        exact absurd hlt (lt_irrefl _)
      | true => exact h.mark hc hwidth
  | regex pattern flags closed =>
    cases hkind
    have hslash : '/'.utf8Size = 1 := by decide
    obtain hoffset | hoffset := List.mem_cons.mp hoffset
    · have h : Respells feed place start start'
          ([] ++ '/' :: (pattern ++ if closed then '/' :: flags else [])) := h
      rw [show offset = start from hoffset]
      exact h.mark (by decide) hslash
    · obtain ⟨hlt, hoffset⟩ := List.mem_ite_nil_right.mp hoffset
      rw [List.mem_singleton.mp hoffset]
      change start + 1 + byteLength pattern <
        start + byteLength (regex pattern flags closed).text at hlt
      change place (start + 1 + byteLength pattern + 1) = place (start + 1 + byteLength pattern) + 1
      have hstop : start + 1 + byteLength pattern = start + byteLength ('/' :: pattern) := by
        rw [byteLength_cons, hslash, ← Nat.add_assoc]
      rw [hstop] at hlt ⊢
      cases closed with
      | false =>
        rw [text, if_neg Bool.false_ne_true, List.append_nil] at hlt
        exact absurd hlt (lt_irrefl _)
      | true =>
        have h : Respells feed place start start' ('/' :: pattern ++ '/' :: flags) := h
        exact h.mark (by decide) hslash
  | blank | unexpected | comment => cases hkind
  | keyword | identifier | number | operator | loose | punctuation | templateChars
  | templateEscape =>
    cases hkind
    cases hoffset

end Lexeme

end Marks

/-! ### Lexemes end to end -/

section Placing
variable {feed : List Char} {place : Nat → Nat}

/-- Blanks hold nothing. -/
theorem placeFrom_blanks (start : Nat) (cs : List Char) :
    (placeFrom start (cs.map .blank)).filterMap Placed.token? = [] ∧
      (placeFrom start (cs.map .blank)).filterMap Placed.comment? = [] ∧
      (placeFrom start (cs.map .blank)).flatMap Placed.problems = [] := by
  induction cs generalizing start with
  | nil => exact ⟨rfl, rfl, rfl⟩
  | cons c cs ih => exact ih (start + (Lexeme.blank c).size)

/-- What a lexeme that stays as it is is found to be elsewhere. -/
theorem placed_elsewhere {l : Lexeme} {start start' : Nat}
    (h : Respells ['\n'] place start start' l.text) (hregular : l.Regular) :
    l.token? start' = (l.token? start).map (Token.relocate place) ∧
      l.comment? start' = (l.comment? start).map (Comment.relocate place) ∧
      l.problems start' = (l.problems start).map (Problem.relocate place) := by
  have htoken := Lexeme.token?_respell h (.inl rfl) hregular
  have hcomment := Lexeme.comment?_respell h (.inl rfl)
  have hproblems := Lexeme.problems_respell h (.inl rfl) hregular
  rw [Lexeme.respell_feed] at htoken hcomment hproblems
  exact ⟨htoken, hcomment, hproblems⟩

/-- What a lexeme is found to be when it is respelled, is what it was, moved. -/
theorem placed_respelled {l : Lexeme} {start start' : Nat}
    (h : Respells feed place start start' l.text) (hl : l = .blank '\n' ∨ l.Spelled)
    (hregular : l.Regular) :
    (placeFrom start' (l.respelled feed)).filterMap Placed.token? =
        ((l.token? start).map (Token.relocate place)).toList ∧
      (placeFrom start' (l.respelled feed)).filterMap Placed.comment? =
        ((l.comment? start).map (Comment.relocate place)).toList ∧
      (placeFrom start' (l.respelled feed)).flatMap Placed.problems =
        (l.problems start).map (Problem.relocate place) := by
  rw [Lexeme.respelled]
  split
  · subst l
    exact placeFrom_blanks start' feed
  · have hspelled : feed = ['\n'] ∨ l.Spelled := .inr (hl.resolve_left ‹_›)
    have htoken := Lexeme.token?_respell h hspelled hregular
    have hcomment := Lexeme.comment?_respell h hspelled
    have hproblems := Lexeme.problems_respell h hspelled hregular
    refine ⟨?_, ?_, ?_⟩
    · rw [← htoken]
      exact (List.filterMap_cons ..).trans (by cases h : (l.respell feed).token? start' <;> simp [Placed.token?, h, placeFrom])
    · rw [← hcomment]
      exact (List.filterMap_cons ..).trans (by cases h : (l.respell feed).comment? start' <;> simp [Placed.comment?, h, placeFrom])
    · rw [← hproblems]
      exact List.append_nil _

theorem placeFrom_respelled {ls : List Lexeme} {start start' : Nat}
    (h : Respells feed place start start' (ls.flatMap Lexeme.text))
    (hls : ∀ l ∈ ls, (l = .blank '\n' ∨ l.Spelled) ∧ l.Regular) :
    (placeFrom start' (ls.flatMap (Lexeme.respelled feed))).filterMap Placed.token? =
        ((placeFrom start ls).filterMap Placed.token?).map (Token.relocate place) ∧
      (placeFrom start' (ls.flatMap (Lexeme.respelled feed))).filterMap Placed.comment? =
        ((placeFrom start ls).filterMap Placed.comment?).map (Comment.relocate place) ∧
      (placeFrom start' (ls.flatMap (Lexeme.respelled feed))).flatMap Placed.problems =
        ((placeFrom start ls).flatMap Placed.problems).map (Problem.relocate place) := by
  induction ls generalizing start start' with
  | nil => exact ⟨rfl, rfl, rfl⟩
  | cons l ls ih =>
    obtain ⟨⟨hl, hregular⟩, hls⟩ := List.forall_mem_cons.mp hls
    rw [List.flatMap_cons] at h
    obtain ⟨htoken, hcomment, hproblems⟩ := placed_respelled h.left hl hregular
    obtain ⟨htokens, hcomments, hrest⟩ := ih h.right hls
    rw [List.flatMap_cons, placeFrom_append, Lexeme.text_respelled hl]
    refine ⟨?_, ?_, ?_⟩
    · rw [List.filterMap_append, htoken, htokens, placeFrom, List.filterMap_cons]
      cases h : l.token? start <;> simp [Placed.token?, h, Lexeme.size]
    · rw [List.filterMap_append, hcomment, hcomments, placeFrom, List.filterMap_cons]
      cases h : l.comment? start <;> simp [Placed.comment?, h, Lexeme.size]
    · rw [List.flatMap_append, hproblems, hrest, placeFrom, List.flatMap_cons, List.map_append]
      rfl

theorem marks_placeFrom {ls : List Lexeme} {start start' : Nat}
    (h : Respells feed place start start' (ls.flatMap Lexeme.text)) (hls : ∀ l ∈ ls, l.Regular) :
    ∀ t ∈ (placeFrom start ls).filterMap Placed.token?, ∀ offset ∈ t.marks,
      place (offset + 1) = place offset + 1 := by
  induction ls generalizing start start' with
  | nil => nofun
  | cons l ls ih =>
    obtain ⟨hregular, hls⟩ := List.forall_mem_cons.mp hls
    rw [List.flatMap_cons] at h
    intro t ht
    obtain ⟨p, hp, htoken⟩ := List.mem_filterMap.mp ht
    rcases List.mem_cons.mp hp with rfl | hp
    · exact Lexeme.marks_respell h.left hregular htoken
    · exact ih h.right hls t (List.mem_filterMap.mpr ⟨p, hp, htoken⟩)

end Placing

/-! ### Moving offsets -/

/-- Where an offset of a text is when it is respelled. -/
def respelledOffset (feed : List Char) : List Char → Nat → Nat
  | [], offset => offset
  | c :: cs, offset =>
    if offset < c.utf8Size then offset
    else byteLength (respell feed [c]) + respelledOffset feed cs (offset - c.utf8Size)

section Offsets
variable {feed : List Char}

theorem respelledOffset_respells (feed cs : List Char) :
    Respells feed (respelledOffset feed cs) 0 0 cs := by
  induction cs with
  | nil =>
    intro part hpart
    rw [List.prefix_nil.mp hpart]
    rfl
  | cons c cs ih =>
    intro part hpart
    cases part with
    | nil => exact if_pos c.utf8Size_pos
    | cons d part =>
      obtain ⟨rfl, hrest⟩ := List.cons_prefix_cons.mp hpart
      have hbelow := ih part hrest
      rw [Nat.zero_add, Nat.zero_add] at hbelow ⊢
      rw [byteLength_cons, respelledOffset, if_neg (by omega), Nat.add_sub_cancel_left, hbelow,
        ← byteLength_append, ← respell_append]
      rfl

/-- No character becomes narrower. -/
theorem le_byteLength_respell (hfeed : feed ≠ []) (c : Char) :
    c.utf8Size ≤ byteLength (respell feed [c]) := by
  by_cases hc : c = '\n'
  · subst hc
    have := byteLength_pos hfeed
    have hone : '\n'.utf8Size = 1 := by decide
    rw [respell_cons, if_pos rfl, byteLength_append, hone]
    omega
  · rw [respell_cons_of_ne hc, byteLength_cons]
    exact Nat.le_add_right _ _

theorem respelledOffset_strictMono (hfeed : feed ≠ []) (cs : List Char) :
    StrictMono (respelledOffset feed cs) := by
  induction cs with
  | nil => exact strictMono_id
  | cons c cs ih =>
    have hwidth := le_byteLength_respell hfeed c
    intro a b hab
    rw [respelledOffset, respelledOffset]
    by_cases hb : b < c.utf8Size
    · rw [if_pos hb, if_pos (hab.trans hb)]
      exact hab
    · rw [if_neg hb]
      by_cases ha : a < c.utf8Size
      · rw [if_pos ha]
        omega
      · rw [if_neg ha]
        have := ih (by omega : a - c.utf8Size < b - c.utf8Size)
        omega

end Offsets

end ScriptTree
