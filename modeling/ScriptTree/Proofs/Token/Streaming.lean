import Mathlib
import ScriptTree.Proofs.Token.Parts

/-! The tokens and comments of a source.

Tokens of a source are a token list as the parser reads them (`lex_isStream`); comments stand
between tokens, and all of them where characters begin and end. -/
namespace ScriptTree

open Parsing

variable {source : String}

theorem isValid_utf8ByteSize (source : String) :
    (⟨source.utf8ByteSize⟩ : String.Pos.Raw).IsValid source := String.Pos.Raw.isValid_rawEndPos

namespace LaysOut
variable {items : List Placed}

/-- Of two lexemes, one stands in front of the other. -/
theorem apart (h : LaysOut source items) {p q : Placed} (hp : p ∈ items) (hq : q ∈ items)
    (hne : p ≠ q) : p.span.stop ≤ q.span.start ∨ q.span.stop ≤ p.span.start := by
  let Apart (p q : Placed) : Prop := p.span.stop ≤ q.span.start ∨ q.span.stop ≤ p.span.start
  have : Std.Symm Apart := ⟨fun _ _ => Or.symm⟩
  have hall : items.Pairwise Apart := h.ordered.imp Or.inl
  exact hall.forall hp hq hne

theorem size_eq (h : LaysOut source items) :
    (lex source).tokens.size = (items.filterMap Placed.token?).length + 1 := by
  rw [← Array.length_toList, h.tokens, List.length_append, List.length_singleton]

/-- Every token but the last one comes from a lexeme. -/
theorem tokenAt_of_lt (h : LaysOut source items) {i : Nat}
    (hi : i + 1 < (lex source).tokens.size) :
    ∃ p ∈ items, p.token? = some (tokenAt (lex source).tokens i) := by
  rw [h.size_eq] at hi
  have hi : i < (items.filterMap Placed.token?).length := Nat.lt_of_succ_lt_succ hi
  have htoken : tokenAt (lex source).tokens i = (items.filterMap Placed.token?)[i] := by
    rw [tokenAt, Array.getD_eq_getD_getElem?, ← Array.getElem?_toList, h.tokens,
      List.getElem?_append_left hi, List.getElem?_eq_getElem hi]
    rfl
  rw [htoken]
  exact List.mem_filterMap.mp (List.getElem_mem hi)

theorem tokenAt_last (h : LaysOut source items) :
    tokenAt (lex source).tokens ((lex source).tokens.size - 1) =
      ⟨.endOfFile, .empty source.utf8ByteSize⟩ := by
  rw [h.size_eq, Nat.add_sub_cancel, tokenAt, Array.getD_eq_getD_getElem?, ← Array.getElem?_toList,
    h.tokens, List.getElem?_append_right (Nat.le_refl _), Nat.sub_self]
  rfl

theorem pairwise_tokens (h : LaysOut source items) :
    (lex source).tokens.toList.Pairwise fun t t' => t.span.stop ≤ t'.span.start := by
  rw [h.tokens, List.pairwise_append]
  refine ⟨h.ordered.filterMap _ fun p q hpq t ht t' ht' => ?_, List.pairwise_singleton _ _, ?_⟩
  · rw [Placed.token?_span ht, Placed.token?_span ht']
    exact hpq
  · intro t ht t' ht'
    obtain ⟨p, hp, ht⟩ := List.mem_filterMap.mp ht
    rw [List.mem_singleton.mp ht', Placed.token?_span ht]
    exact (h.each p hp).fits.stop.le_utf8ByteSize

/-- A lexeme that is no token keeps clear of all tokens. -/
theorem apart_tokens (h : LaysOut source items) {p : Placed} (hp : p ∈ items)
    (hnone : p.token? = none) {t : Token} (ht : t ∈ (lex source).tokens.toList) :
    p.span.stop ≤ t.span.start ∨ t.span.stop ≤ p.span.start := by
  rw [h.tokens] at ht
  rcases List.mem_append.mp ht with ht | ht
  · obtain ⟨q, hq, ht⟩ := List.mem_filterMap.mp ht
    rw [Placed.token?_span ht]
    refine h.apart hp hq fun heq => ?_
    rw [heq, ht] at hnone
    cases hnone
  · rw [List.mem_singleton.mp ht]
    exact .inl (h.each p hp).fits.stop.le_utf8ByteSize

end LaysOut

/-! ### Tokens -/

/-- The tokens of a source, with what the string and regular expression nodes made of them need. -/
theorem tokenAt_cases {i : Nat} (hi : i < (lex source).tokens.size) :
    (i + 1 = (lex source).tokens.size ∧
      tokenAt (lex source).tokens i = ⟨.endOfFile, .empty source.utf8ByteSize⟩) ∨
    (i + 1 < (lex source).tokens.size ∧ ∃ p : Placed, p.StandsIn source ∧
      p.token? = some (tokenAt (lex source).tokens i) ∧
      ∀ problem ∈ p.problems, problem ∈ (lex source).problems.toList) := by
  obtain ⟨items, h⟩ := lex_laysOut source
  rcases Nat.lt_or_ge (i + 1) (lex source).tokens.size with hlt | hge
  · obtain ⟨p, hp, htoken⟩ := h.tokenAt_of_lt hlt
    refine .inr ⟨hlt, p, h.each p hp, htoken, fun problem hproblem => ?_⟩
    obtain ⟨last, hproblems, _⟩ := h.problems
    rw [hproblems]
    exact List.mem_append_left _ (List.mem_flatMap.mpr ⟨p, hp, hproblem⟩)
  · obtain rfl : i = (lex source).tokens.size - 1 := by omega
    exact .inl ⟨by omega, h.tokenAt_last⟩

theorem spanAt_fits {i : Nat} (hi : i < (lex source).tokens.size) :
    (spanAt (lex source).tokens i).Fits source := by
  rcases tokenAt_cases hi with ⟨_, hlast⟩ | ⟨_, p, hp, htoken, _⟩
  · rw [spanAt, hlast]
    exact ⟨isValid_utf8ByteSize source, isValid_utf8ByteSize source⟩
  · rw [spanAt, Placed.token?_span htoken]
    exact hp.fits

theorem literal_takenApart {i : Nat} {n : Node}
    (hn : literalNode? (tokenAt (lex source).tokens i) = some n) :
    TakenApart source (lex source).problems.toList (spanAt (lex source).tokens i) n := by
  have hi : i < (lex source).tokens.size := by
    by_contra hge
    rw [tokenAt, Array.getD_eq_getD_getElem?, Array.getElem?_eq_none (Nat.not_lt.mp hge)] at hn
    cases hn
  rcases tokenAt_cases hi with ⟨_, hlast⟩ | ⟨_, p, hp, htoken, hproblems⟩
  · rw [hlast] at hn
    cases hn
  · rw [spanAt, Placed.token?_span htoken]
    obtain ⟨row, tiles, fits, proper, unended⟩ := hp.takenApart htoken hn
    refine ⟨row, tiles, fits, proper, fun m hm hmissing => ?_⟩
    rcases unended m hm hmissing with ⟨hkind, hproblem⟩ | ⟨hkind, hproblem⟩
    · exact .inl ⟨hkind, hproblems _ hproblem⟩
    · exact .inr ⟨hkind, hproblems _ hproblem⟩

theorem Placed.StandsIn.kind_ne_endOfFile {p : Placed} {token : Token}
    (htoken : p.token? = some token) : token.kind ≠ .endOfFile := by
  obtain ⟨kind, hkind, rfl⟩ := Option.map_eq_some_iff.mp htoken
  rintro rfl
  unfold Lexeme.tokenKind? at hkind
  split at hkind <;> cases hkind

theorem Placed.StandsIn.operator_symbolic {p : Placed} (h : p.StandsIn source) {token : Token}
    (htoken : p.token? = some token) {o : Operator} (ho : token.kind = .operator o) :
    o.isWord = false := by
  obtain ⟨kind, hkind, rfl⟩ := Option.map_eq_some_iff.mp htoken
  obtain rfl : kind = .operator o := ho
  have hregular := h.regular
  unfold Lexeme.tokenKind? at hkind
  split at hkind <;> cases hkind
  · rename_i hl
    rwa [hl] at hregular
  · rename_i hl
    rwa [hl] at hregular

theorem lex_isStream (source : String) : IsStream (lex source).tokens := by
  obtain ⟨items, h⟩ := lex_laysOut source
  refine ⟨?_, fun i hi => ?_, fun i hi => ?_, fun i hi => ?_, fun i o hkind => ?_,
    fun i n hn => (literal_takenApart hn).row, fun i n hn => (literal_takenApart hn).tiles⟩
  · rw [h.size_eq]
    exact Nat.succ_pos _
  · rcases tokenAt_cases hi with ⟨hend, hlast⟩ | ⟨hlt, p, _, htoken, _⟩
    · exact ⟨fun _ => hend, fun _ => by rw [kindAt, hlast]⟩
    · exact ⟨fun heof => absurd heof (Placed.StandsIn.kind_ne_endOfFile htoken),
        fun hend => absurd hend hlt.ne⟩
  · rcases tokenAt_cases (Nat.lt_of_succ_lt hi) with ⟨hend, _⟩ | ⟨_, p, hp, htoken, _⟩
    · exact absurd hend hi.ne
    · rw [spanAt, Placed.token?_span htoken]
      exact hp.proper
  · have hpairwise := List.pairwise_iff_getElem.mp h.pairwise_tokens i (i + 1)
      (by simpa using Nat.lt_of_succ_lt hi) (by simpa using hi) (Nat.lt_succ_self i)
    simpa [spanAt, tokenAt, Array.getD_eq_getD_getElem?, hi, Nat.lt_of_succ_lt hi] using hpairwise
  · have hi : i < (lex source).tokens.size := by
      by_contra hge
      rw [kindAt, tokenAt, Array.getD_eq_getD_getElem?,
        Array.getElem?_eq_none (Nat.not_lt.mp hge)] at hkind
      cases hkind
    rcases tokenAt_cases hi with ⟨_, hlast⟩ | ⟨_, p, hp, htoken, _⟩
    · rw [kindAt, hlast] at hkind
      cases hkind
    · exact hp.operator_symbolic htoken hkind

theorem spanAt_last (source : String) :
    spanAt (lex source).tokens ((lex source).tokens.size - 1) = .empty source.utf8ByteSize := by
  obtain ⟨items, h⟩ := lex_laysOut source
  rw [spanAt, h.tokenAt_last]

/-! ### Comments -/

theorem lex_comments_ordered (source : String) :
    (lex source).comments.toList.Pairwise fun c c' => c.span.stop ≤ c'.span.start := by
  obtain ⟨items, h⟩ := lex_laysOut source
  rw [h.comments]
  refine h.ordered.filterMap _ fun p q hpq c hc c' hc' => ?_
  rw [Placed.comment?_span hc, Placed.comment?_span hc']
  exact hpq

theorem comment_stands {c : Comment} (hc : c ∈ (lex source).comments.toList) :
    ∃ p : Placed, p.StandsIn source ∧ c.span = p.span := by
  obtain ⟨items, h⟩ := lex_laysOut source
  rw [h.comments] at hc
  obtain ⟨p, hp, hc⟩ := List.mem_filterMap.mp hc
  exact ⟨p, h.each p hp, Placed.comment?_span hc⟩

/-- A comment stands in front of a token or behind it. -/
theorem comment_clear {c : Comment} (hc : c ∈ (lex source).comments.toList) {t : Token}
    (ht : t ∈ (lex source).tokens.toList) :
    c.span.stop ≤ t.span.start ∨ t.span.stop ≤ c.span.start := by
  obtain ⟨items, h⟩ := lex_laysOut source
  rw [h.comments] at hc
  obtain ⟨p, hp, hc⟩ := List.mem_filterMap.mp hc
  rw [Placed.comment?_span hc]
  exact h.apart_tokens hp (Placed.token?_of_comment? hc) ht

/-! ### Problems -/

theorem Lexeme.escapeProblems_lexical (start : Nat) (ps : List Piece) :
    ∀ problem ∈ escapeProblems start ps, problem.cause.kind = .lexical := by
  fun_induction escapeProblems start ps with
  | case1 => exact List.forall_mem_nil _
  | case2 start text ps stop ih =>
    rintro problem (_ | ⟨_, hproblem⟩)
    · rfl
    · exact ih problem hproblem
  | case3 start p ps stop _ ih => exact ih

theorem Lexeme.problems_lexical (l : Lexeme) (start : Nat) :
    ∀ problem ∈ l.problems start, problem.cause.kind = .lexical := by
  unfold problems
  split
  case h_5 ps closed =>
    intro problem hproblem
    rcases List.mem_append.mp hproblem with hproblem | hproblem
    · exact escapeProblems_lexical _ _ problem hproblem
    · split at hproblem
      · cases hproblem
      · rw [List.mem_singleton.mp hproblem]
        rfl
  case h_8 => exact List.forall_mem_nil _
  all_goals
    intro problem hproblem
    rw [List.mem_singleton.mp hproblem]
    rfl

theorem lex_problems_lexical (source : String) :
    ∀ problem ∈ (lex source).problems.toList, problem.cause.kind = .lexical := by
  obtain ⟨items, h⟩ := lex_laysOut source
  obtain ⟨last, hproblems, hlast⟩ := h.problems
  rw [hproblems]
  intro problem hproblem
  rcases List.mem_append.mp hproblem with hproblem | hproblem
  · obtain ⟨p, _, hproblem⟩ := List.mem_flatMap.mp hproblem
    exact p.lexeme.problems_lexical p.start problem hproblem
  · rw [hlast problem hproblem]
    rfl

end ScriptTree
