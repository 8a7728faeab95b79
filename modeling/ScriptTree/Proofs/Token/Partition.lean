import Mathlib
import ScriptTree.Proofs.Token.Streaming

/-! How a source falls apart into tokens, comments and blanks.

`lex_partitions`: whatever the source, its tokens and comments are proper stretches of it that keep
clear of each other, and a character outside all of them is a blank or has been reported, alone and
once, as one that starts no token. -/
namespace ScriptTree

/-! ### Characters and reports about them -/

/-- Whether a character of a source starts at an offset. -/
def StandsAt (source : String) (c : Char) (offset : Nat) : Prop :=
  ∃ front back, front ++ c :: back = source.toList ∧ byteLength front = offset

/-- The span of a character that starts at an offset. -/
def charSpan (c : Char) (offset : Nat) : Span := ⟨offset, offset + c.utf8Size⟩

/-- The report of a character that starts no token. -/
def stray (c : Char) (offset : Nat) : Problem := ⟨.unexpectedCharacter c, charSpan c offset⟩

def Problem.isStray (problem : Problem) : Bool :=
  match problem.cause with
  | .unexpectedCharacter _ => true
  | _ => false

/-- The reports of characters that start no token. -/
def Lexed.strays (out : Lexed) : List Problem := out.problems.toList.filter Problem.isStray

/-- Whether one span ends where the other starts, or in front of it. -/
def Span.Apart (a b : Span) : Prop := a.stop ≤ b.start ∨ b.stop ≤ a.start

/-- Whether a span is not empty and both its ends fall between characters of a source. -/
structure Span.Covers (span : Span) (source : String) : Prop where
  proper : span.start < span.stop
  fits : span.Fits source

/-- Whether one span stands in front of another: it starts earlier and ends no later than the other
starts. -/
structure Span.Before (a b : Span) : Prop where
  start : a.start < b.start
  stop : a.stop ≤ b.start

/-- What the lexer makes of a source, as a partition of it. -/
structure Partitions (source : String) (out : Lexed) : Prop where
  /-- The tokens end with the end of the file, and none but the last is that. -/
  tokens : ∃ tokens, out.tokens.toList = tokens ++ [⟨.endOfFile, .empty source.utf8ByteSize⟩] ∧
    ∀ t ∈ tokens, t.kind ≠ .endOfFile ∧ t.span.Covers source
  comments : ∀ c ∈ out.comments.toList, c.span.Covers source
  tokens_ordered : out.tokens.toList.Pairwise fun t t' => t.span.Before t'.span
  comments_ordered : out.comments.toList.Pairwise fun c c' => c.span.Before c'.span
  apart : ∀ c ∈ out.comments.toList, ∀ t ∈ out.tokens.toList, c.span.Apart t.span
  /-- A character outside is a blank, or there is one report that it is out of place. -/
  covered : ∀ c offset, StandsAt source c offset →
    (∃ t ∈ out.tokens.toList, t.span.contains (charSpan c offset) = true) ∨
    (∃ comment ∈ out.comments.toList, comment.span.contains (charSpan c offset) = true) ∨
    isBlank c = true ∨
    out.strays.filter (·.span = charSpan c offset) = [stray c offset]
  /-- A report that a character is out of place is about a character outside. -/
  strays : ∀ problem ∈ out.strays,
    (∃ c offset, StandsAt source c offset ∧ isBlank c = false ∧ problem = stray c offset) ∧
    (∀ t ∈ out.tokens.toList, problem.span.Apart t.span) ∧
    ∀ comment ∈ out.comments.toList, problem.span.Apart comment.span

/-! ### The reports of one lexeme -/

theorem Lexeme.escapeProblems_not_stray (start : Nat) (ps : List Piece) :
    ∀ problem ∈ escapeProblems start ps, problem.isStray = false := by
  fun_induction escapeProblems start ps with
  | case1 => simp
  | case2 start text ps stop ih =>
    rintro problem (_ | ⟨_, hproblem⟩)
    · rfl
    · exact ih problem hproblem
  | case3 start p ps stop _ ih => exact ih

namespace Placed
variable {p : Placed} {source : String}

/-- The lexeme is reported as out of place if it is a character that starts no token. -/
def stray? (p : Placed) : Option Problem :=
  match p.lexeme with
  | .unexpected c => some (stray c p.start)
  | _ => none

theorem filter_isStray_problems (p : Placed) :
    p.problems.filter Problem.isStray = p.stray?.toList := by
  obtain ⟨start, l⟩ := p
  cases l
  case string quote pieces closed =>
    refine List.filter_eq_nil_iff.mpr fun problem hproblem => ?_
    rcases List.mem_append.mp hproblem with hproblem | hproblem
    · simp [Lexeme.escapeProblems_not_stray _ _ problem hproblem]
    · cases closed
      · rw [List.mem_singleton.mp hproblem]
        exact nofun
      · cases hproblem
  case unexpected c =>
    simp [problems, Lexeme.problems, stray?, stray, Problem.isStray, Lexeme.span, Lexeme.size,
      Lexeme.text, charSpan, byteLength]
  case comment kind text closed => cases closed <;> rfl
  case number text missing => cases missing <;> rfl
  case regex pattern flags closed => cases closed <;> rfl
  case templateEscape text wellFormed => cases wellFormed <;> rfl
  all_goals rfl

theorem stray?_span {problem : Problem} (h : p.stray? = some problem) : problem.span = p.span := by
  obtain ⟨start, l⟩ := p
  cases l <;> cases h
  rfl

theorem token?_of_stray? {problem : Problem} (h : p.stray? = some problem) : p.token? = none := by
  obtain ⟨start, l⟩ := p
  cases l <;> cases h
  rfl

theorem comment?_of_stray? {problem : Problem} (h : p.stray? = some problem) :
    p.comment? = none := by
  obtain ⟨start, l⟩ := p
  cases l <;> cases h
  rfl

/-- What is reported as out of place is a single character. -/
theorem StandsIn.stray?_eq (h : p.StandsIn source) {problem : Problem}
    (hstray : p.stray? = some problem) :
    ∃ c offset, StandsAt source c offset ∧ isBlank c = false ∧ problem = stray c offset := by
  obtain ⟨front, back, hsource, hstart⟩ := h.between
  have hregular := h.regular
  obtain ⟨start, l⟩ := p
  cases l <;> cases hstray
  rename_i c
  exact ⟨c, start, ⟨front, back, by simpa [Lexeme.text] using hsource, hstart⟩, hregular, rfl⟩

/-- A lexeme is a token, a comment, a blank or a character out of place. -/
theorem cases (p : Placed) : (∃ token, p.token? = some token) ∨
    (∃ comment, p.comment? = some comment) ∨ (∃ c, p.lexeme = .blank c) ∨
    ∃ c, p.lexeme = .unexpected c := by
  obtain ⟨start, l⟩ := p
  cases l
  case blank c => exact .inr (.inr (.inl ⟨c, rfl⟩))
  case unexpected c => exact .inr (.inr (.inr ⟨c, rfl⟩))
  case comment => exact .inr (.inl ⟨_, rfl⟩)
  all_goals exact .inl ⟨_, rfl⟩

theorem contains_charSpan {before after : List Char} {c : Char}
    (h : p.lexeme.text = before ++ c :: after) :
    p.span.contains (charSpan c (p.start + byteLength before)) = true := by
  have hsize : p.lexeme.size = byteLength before + (c.utf8Size + byteLength after) := by
    rw [Lexeme.size, h, byteLength_append, byteLength_cons]
  simp only [Span.contains, charSpan, span, Lexeme.span, hsize, Bool.and_eq_true, decide_eq_true_eq]
  omega

theorem StandsIn.covers (h : p.StandsIn source) : p.span.Covers source := ⟨h.proper, h.fits⟩

theorem StandsIn.before (h : p.StandsIn source) {span : Span} (hle : p.span.stop ≤ span.start) :
    p.span.Before span := ⟨h.proper.trans_le hle, hle⟩

end Placed

/-! ### Whole sources -/

namespace LaysOut
variable {source : String} {items : List Placed}

theorem strays (h : LaysOut source items) :
    (lex source).strays = items.filterMap Placed.stray? := by
  obtain ⟨last, hproblems, hlast⟩ := h.problems
  have hnone : last.filter Problem.isStray = [] := List.filter_eq_nil_iff.mpr fun problem hp => by
    rw [Problem.isStray, hlast problem hp]
    exact nofun
  rw [Lexed.strays, hproblems, List.filter_append, hnone, List.append_nil, List.filter_flatMap,
    List.filterMap_eq_flatMap_toList]
  exact congrArg (items.flatMap ·) (funext Placed.filter_isStray_problems)

theorem before (h : LaysOut source items) : items.Pairwise fun p q => p.span.Before q.span :=
  h.ordered.imp_of_mem fun hp _ hle => (h.each _ hp).before hle

/-- A character out of place is reported once. -/
theorem filter_span_strays (h : LaysOut source items) {p : Placed} (hp : p ∈ items) {c : Char}
    (hc : p.lexeme = .unexpected c) :
    (lex source).strays.filter (·.span = charSpan c p.start) = [stray c p.start] := by
  have hstray : p.stray? = some (stray c p.start) := by rw [Placed.stray?, hc]
  have hnone : ∀ others : List Placed, (∀ q ∈ others, q.span ≠ p.span) →
      (others.filterMap Placed.stray?).filter (·.span = charSpan c p.start) = [] := by
    refine fun others hothers => List.filter_eq_nil_iff.mpr fun problem hproblem => ?_
    obtain ⟨q, hq, hproblem⟩ := List.mem_filterMap.mp hproblem
    rw [decide_eq_true_eq, Placed.stray?_span hproblem, show charSpan c p.start = p.span from
      Placed.stray?_span hstray]
    exact hothers q hq
  obtain ⟨front, back, rfl⟩ := List.append_of_mem hp
  obtain ⟨_, hback, hfront⟩ := List.pairwise_append.mp h.before
  rw [h.strays, List.filterMap_append, List.filterMap_cons_some hstray, List.filter_append,
    hnone front fun q hq heq => (heq ▸ hfront q hq p List.mem_cons_self).start.false,
    List.nil_append, List.filter_cons_of_pos (by exact decide_eq_true rfl),
    hnone back fun q hq heq => (heq ▸ List.rel_of_pairwise_cons hback hq).start.false]

theorem tokens_before (h : LaysOut source items) :
    (lex source).tokens.toList.Pairwise fun t t' => t.span.Before t'.span := by
  rw [h.tokens, List.pairwise_append]
  refine ⟨h.before.filterMap _ fun p q hpq t ht t' ht' => ?_, List.pairwise_singleton _ _, ?_⟩
  · rw [Placed.token?_span ht, Placed.token?_span ht']
    exact hpq
  · intro t ht t' ht'
    obtain ⟨p, hp, ht⟩ := List.mem_filterMap.mp ht
    rw [List.mem_singleton.mp ht', Placed.token?_span ht]
    exact (h.each p hp).before (h.each p hp).fits.stop.le_utf8ByteSize

theorem comments_before (h : LaysOut source items) :
    (lex source).comments.toList.Pairwise fun c c' => c.span.Before c'.span := by
  rw [h.comments]
  refine h.before.filterMap _ fun p q hpq c hc c' hc' => ?_
  rw [Placed.comment?_span hc, Placed.comment?_span hc']
  exact hpq

/-- A lexeme that is no comment keeps clear of all comments. -/
theorem apart_comments (h : LaysOut source items) {p : Placed} (hp : p ∈ items)
    (hnone : p.comment? = none) : ∀ c ∈ (lex source).comments.toList, p.span.Apart c.span := by
  intro c hc
  rw [h.comments] at hc
  obtain ⟨q, hq, hc⟩ := List.mem_filterMap.mp hc
  rw [Placed.comment?_span hc]
  refine h.apart hp hq fun heq => ?_
  rw [heq, hc] at hnone
  cases hnone

theorem covered (h : LaysOut source items) {c : Char} {offset : Nat}
    (hc : StandsAt source c offset) :
    (∃ t ∈ (lex source).tokens.toList, t.span.contains (charSpan c offset) = true) ∨
    (∃ comment ∈ (lex source).comments.toList,
      comment.span.contains (charSpan c offset) = true) ∨
    isBlank c = true ∨
    (lex source).strays.filter (·.span = charSpan c offset) = [stray c offset] := by
  obtain ⟨front, back, hsource, rfl⟩ := hc
  obtain ⟨p, hp, before, after, htext, hstart⟩ := h.covers hsource
  have hcontains : p.span.contains (charSpan c (byteLength front)) = true := by
    rw [hstart]
    exact Placed.contains_charSpan htext
  -- A lexeme of one character is that character.
  have hsingle : ∀ {d}, p.lexeme.text = [d] → d = c ∧ byteLength front = p.start := by
    intro d hd
    rw [hd, List.singleton_eq_append_iff] at htext
    rcases htext with ⟨rfl, heq⟩ | ⟨_, heq⟩
    · exact ⟨(List.cons.inj heq).1.symm, hstart⟩
    · cases heq
  rcases p.cases with ⟨t, ht⟩ | ⟨comment, hcomment⟩ | ⟨d, hd⟩ | ⟨d, hd⟩
  · refine .inl ⟨t, ?_, Placed.token?_span ht ▸ hcontains⟩
    rw [h.tokens]
    exact List.mem_append_left _ (List.mem_filterMap.mpr ⟨p, hp, ht⟩)
  · refine .inr (.inl ⟨comment, ?_, Placed.comment?_span hcomment ▸ hcontains⟩)
    rw [h.comments]
    exact List.mem_filterMap.mpr ⟨p, hp, hcomment⟩
  · obtain ⟨rfl, -⟩ := hsingle (by rw [hd]; rfl)
    have hregular := (h.each p hp).regular
    rw [hd] at hregular
    exact .inr (.inr (.inl hregular))
  · obtain ⟨rfl, hoffset⟩ := hsingle (by rw [hd]; rfl)
    rw [hoffset]
    exact .inr (.inr (.inr (h.filter_span_strays hp hd)))

end LaysOut

theorem lex_partitions (source : String) : Partitions source (lex source) := by
  obtain ⟨items, h⟩ := lex_laysOut source
  refine ⟨⟨_, h.tokens, fun t ht => ?_⟩, fun c hc => ?_, h.tokens_before, h.comments_before,
    fun c hc => ?_, fun c offset => h.covered, fun problem hproblem => ?_⟩
  · obtain ⟨p, hp, ht⟩ := List.mem_filterMap.mp ht
    rw [Placed.token?_span ht]
    exact ⟨Placed.StandsIn.kind_ne_endOfFile ht, (h.each p hp).covers⟩
  · rw [h.comments] at hc
    obtain ⟨p, hp, hc⟩ := List.mem_filterMap.mp hc
    rw [Placed.comment?_span hc]
    exact (h.each p hp).covers
  · rw [h.comments] at hc
    obtain ⟨p, hp, hc⟩ := List.mem_filterMap.mp hc
    rw [Placed.comment?_span hc]
    exact fun t => h.apart_tokens hp (Placed.token?_of_comment? hc)
  · rw [h.strays] at hproblem
    obtain ⟨p, hp, hstray⟩ := List.mem_filterMap.mp hproblem
    rw [Placed.stray?_span hstray]
    exact ⟨(h.each p hp).stray?_eq hstray,
      fun t => h.apart_tokens hp (Placed.token?_of_stray? hstray),
      h.apart_comments hp (Placed.comment?_of_stray? hstray)⟩

end ScriptTree
