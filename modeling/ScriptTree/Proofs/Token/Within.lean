import Mathlib
import ScriptTree.Proofs.Text.Slicing
import ScriptTree.Proofs.Token.Streaming

/-! What lexemes keep spans of.

The parts of strings and regular expressions, and what is reported about malformed lexemes, are kept
as spans computed from the widths of what was read. They all cover stretches of the lexeme they belong
to (`Lexeme.parts_covered`, `Lexeme.problems_covered`), and so they lie in the source. -/
namespace ScriptTree

/-- The spans that a token keeps of what it is taken apart into. -/
def TokenKind.parts : TokenKind → List Span
  | .string _ parts => parts.map StringPart.span
  | .regex pattern flags => pattern :: flags.toList
  | _ => []

/-- Whether a span covers a stretch of a text that starts at an offset. -/
def CoversIn (start : Nat) (text : List Char) (span : Span) : Prop :=
  ∃ front inner, front ++ inner <+: text ∧
    span = ⟨start + byteLength front, start + byteLength (front ++ inner)⟩

namespace CoversIn
variable {start : Nat} {front text more : List Char} {span : Span}

theorem whole (start : Nat) (text : List Char) :
    CoversIn start text ⟨start, start + byteLength text⟩ :=
  ⟨[], text, List.prefix_refl _, rfl⟩

theorem shift (h : CoversIn (start + byteLength front) text span) :
    CoversIn start (front ++ text) span := by
  obtain ⟨x, y, hprefix, rfl⟩ := h
  refine ⟨front ++ x, y, ?_, ?_⟩
  · rw [List.append_assoc]
    exact (List.prefix_append_right_inj front).mpr hprefix
  · rw [List.append_assoc, byteLength_append front, byteLength_append front, Nat.add_assoc,
      Nat.add_assoc]

theorem extend (h : CoversIn start text span) : CoversIn start (text ++ more) span := by
  obtain ⟨x, y, hprefix, rfl⟩ := h
  exact ⟨x, y, hprefix.trans (List.prefix_append _ _), rfl⟩

end CoversIn

/-- What covers a stretch of a lexeme lies in the source. -/
theorem Placed.StandsIn.liesIn {p : Placed} {source : String} (h : p.StandsIn source) {span : Span}
    (hspan : CoversIn p.start p.lexeme.text span) : span.LiesIn source := by
  obtain ⟨front, inner, hprefix, rfl⟩ := hspan
  refine ⟨?_, h.isValid ((List.prefix_append _ _).trans hprefix), h.isValid hprefix⟩
  rw [byteLength_append]
  exact Nat.add_le_add_left (Nat.le_add_right _ _) _

/-- The source has the text of a lexeme where the lexeme stands. -/
theorem Placed.StandsIn.slice_eq {p : Placed} {source : String} (h : p.StandsIn source) :
    p.span.slice source = String.ofList p.lexeme.text := by
  obtain ⟨front, back, hsource, hstart⟩ := h.between
  have hspan : p.span = ⟨byteLength front, byteLength front + byteLength p.lexeme.text⟩ := by
    rw [hstart]
    rfl
  have hslice := h.fits.slice?_eq h.proper.le
  rw [hspan, slice?_of_split hsource] at hslice
  rw [hspan]
  exact (Option.some.inj hslice).symm

namespace Lexeme
variable {l : Lexeme} {start : Nat}

theorem placePieces_covered {ps : List Piece} {part : StringPart}
    (h : part ∈ placePieces start ps) : CoversIn start (ps.flatMap Piece.text) part.span := by
  induction ps generalizing start with
  | nil => cases h
  | cons p ps ih =>
    rw [List.flatMap_cons]
    rcases List.mem_cons.mp h with rfl | h
    · cases p <;> exact (CoversIn.whole start _).extend
    · exact (ih h).shift

theorem escapeProblems_covered {ps : List Piece} {problem : Problem}
    (h : problem ∈ escapeProblems start ps) :
    CoversIn start (ps.flatMap Piece.text) problem.span := by
  induction ps generalizing start with
  | nil => cases h
  | cons p ps ih =>
    rw [List.flatMap_cons]
    unfold escapeProblems at h
    dsimp only at h
    split at h
    · rcases List.mem_cons.mp h with rfl | h
      · exact (CoversIn.whole start _).extend
      · exact (ih h).shift
    · exact (ih h).shift

/-- The parts of a token cover stretches of its lexeme. -/
theorem parts_covered (hregular : l.Regular) {token : Token} (h : l.token? start = some token) :
    ∀ span ∈ token.kind.parts, CoversIn start l.text span := by
  obtain ⟨kind, hkind, rfl⟩ := Option.map_eq_some_iff.mp h
  cases l with
  | string quote ps closed =>
    cases hkind
    intro span hspan
    obtain ⟨part, hpart, rfl⟩ := List.mem_map.mp hspan
    have hmark : byteLength quote.spelling.toList = 1 := by
      rcases hregular.1 with rfl | rfl <;> decide
    rw [← hmark] at hpart
    exact (placePieces_covered hpart).shift.extend
  | regex pattern flags closed =>
    cases hkind
    have hslash : byteLength ['/'] = 1 := by decide
    have htext : text (.regex pattern flags closed) =
        ['/'] ++ (pattern ++ if closed then ['/'] ++ flags else []) := by
      rw [text]
      cases closed <;> rfl
    rw [htext]
    refine List.forall_mem_cons.mpr ⟨?_, fun span hspan => ?_⟩
    · rw [← hslash]
      exact (CoversIn.whole _ pattern).extend.shift
    · have hspan := Option.mem_toList.mp hspan
      cases hempty : flags.isEmpty with
      | true => rw [hempty] at hspan; cases hspan
      | false =>
        obtain rfl : closed = true := by
          by_contra hopen
          rw [hregular (Bool.not_eq_true _ ▸ hopen)] at hempty
          cases hempty
        rw [hempty] at hspan
        cases hspan
        rw [← hslash]
        exact (CoversIn.whole _ flags).shift.shift.shift
  | _ =>
    cases hkind <;>
    · intro span hspan
      cases hspan

theorem byteLength_radixMark {mark : Char} {radix : Nat} (h : radixMark? mark = some radix) :
    byteLength ['0', mark] = 2 := by
  unfold radixMark? at h
  split at h <;> first | rfl | cases h

/-- What is reported about a lexeme stands in it. -/
theorem problems_covered (hregular : l.Regular) :
    ∀ problem ∈ l.problems start, CoversIn start l.text problem.span := by
  have hwhole {cause : Cause} : ∀ problem ∈ [(⟨cause, l.span start⟩ : Problem)],
      CoversIn start l.text problem.span := by
    intro problem hproblem
    rw [List.mem_singleton.mp hproblem]
    exact .whole start l.text
  cases l with
  | number text missing =>
    cases missing with
    | none => exact List.forall_mem_nil _
    | some radix =>
      intro problem hproblem
      obtain ⟨mark, rest, rfl, hmark⟩ := hregular
      rw [List.mem_singleton.mp hproblem, ← byteLength_radixMark hmark]
      exact ⟨[], ['0', mark], List.prefix_append ['0', mark] rest, rfl⟩
  | string quote ps closed =>
    intro problem hproblem
    have hmark : byteLength quote.spelling.toList = 1 := by
      rcases hregular.1 with rfl | rfl <;> decide
    rcases List.mem_append.mp hproblem with hproblem | hproblem
    · rw [← hmark] at hproblem
      exact (escapeProblems_covered hproblem).shift.extend
    · cases closed with
      | true => cases hproblem
      | false => exact hwhole problem hproblem
  | unexpected c => exact hwhole
  | loose spelling strict => exact hwhole
  | comment kind text closed => cases closed <;> first | exact hwhole | exact List.forall_mem_nil _
  | regex pattern flags closed => cases closed <;> first | exact hwhole | exact List.forall_mem_nil _
  | templateEscape text wellFormed => cases wellFormed <;> first | exact hwhole | exact List.forall_mem_nil _
  | blank | keyword | identifier | operator | punctuation | templateChars => exact List.forall_mem_nil _

end Lexeme

/-! ### Sources -/

section Source
variable {source : String}

/-- Tokens and their parts lie in the source. -/
theorem token_liesIn {token : Token} (h : token ∈ (lex source).tokens.toList) :
    token.span.LiesIn source ∧ ∀ span ∈ token.kind.parts, span.LiesIn source := by
  obtain ⟨items, hitems⟩ := lex_laysOut source
  rw [hitems.tokens] at h
  rcases List.mem_append.mp h with h | h
  · obtain ⟨p, hp, htoken⟩ := List.mem_filterMap.mp h
    have hstands := hitems.each p hp
    refine ⟨?_, fun span hspan => hstands.liesIn (Lexeme.parts_covered hstands.regular htoken _ hspan)⟩
    rw [Placed.token?_span htoken]
    exact ⟨hstands.proper.le, hstands.fits⟩
  · rw [List.mem_singleton.mp h]
    exact ⟨.empty (isValid_utf8ByteSize source), nofun⟩

/-- What the lexer reports lies in the source. -/
theorem lex_problem_liesIn {problem : Problem} (h : problem ∈ (lex source).problems.toList) :
    problem.span.LiesIn source := by
  obtain ⟨items, hitems⟩ := lex_laysOut source
  obtain ⟨last, hproblems, hlast⟩ := hitems.problems
  rw [hproblems] at h
  rcases List.mem_append.mp h with h | h
  · obtain ⟨p, hp, hproblem⟩ := List.mem_flatMap.mp h
    have hstands := hitems.each p hp
    exact hstands.liesIn (Lexeme.problems_covered hstands.regular problem hproblem)
  · rw [hlast problem h]
    exact .empty (isValid_utf8ByteSize source)

end Source

end ScriptTree
