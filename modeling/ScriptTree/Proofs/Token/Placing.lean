import Mathlib
import ScriptTree.Proofs.Text.Bytes
import ScriptTree.Proofs.Token.Covering

/-! Where lexemes stand.

A lexeme and the offset at which it starts are one thing here (`Placed`). What the lexer makes of a
source comes from such things, one behind the other, each of which covers a stretch of the source
(`lex_laysOut`); tokens, comments and problems are read off them one by one. -/
namespace ScriptTree

/-! ### Offsets and what lies between them -/

/-- Whether both ends of a span fall between characters of a source. -/
structure Span.Fits (span : Span) (source : String) : Prop where
  start : (⟨span.start⟩ : String.Pos.Raw).IsValid source
  stop : (⟨span.stop⟩ : String.Pos.Raw).IsValid source

/-- A lexeme and where it starts. -/
structure Placed where
  start : Nat
  lexeme : Lexeme

namespace Placed

def span (p : Placed) : Span := p.lexeme.span p.start
def token? (p : Placed) : Option Token := p.lexeme.token? p.start
def comment? (p : Placed) : Option Comment := p.lexeme.comment? p.start
def problems (p : Placed) : List Problem := p.lexeme.problems p.start

/-- Whether the lexeme is what a source says at this place. -/
structure StandsIn (p : Placed) (source : String) : Prop where
  between : ∃ front back, front ++ p.lexeme.text ++ back = source.toList ∧
    byteLength front = p.start
  nonempty : p.lexeme.text ≠ []
  regular : p.lexeme.Regular

variable {p : Placed} {source : String}

/-- The offset behind any beginning of a lexeme falls between two characters. -/
theorem StandsIn.isValid (h : p.StandsIn source) {part : List Char} (hpart : part <+: p.lexeme.text) :
    (⟨p.start + byteLength part⟩ : String.Pos.Raw).IsValid source := by
  obtain ⟨front, back, hsource, hstart⟩ := h.between
  obtain ⟨rest, htext⟩ := hpart
  have hsplit : (front ++ part) ++ (rest ++ back) = source.toList := by
    rw [← hsource, ← htext]
    simp
  rw [← hstart, ← byteLength_append]
  exact isValid_byteLength hsplit

theorem StandsIn.fits (h : p.StandsIn source) : p.span.Fits source :=
  ⟨h.isValid List.nil_prefix, h.isValid (List.prefix_refl _)⟩

theorem StandsIn.proper (h : p.StandsIn source) : p.span.start < p.span.stop :=
  Nat.lt_add_of_pos_right (byteLength_pos h.nonempty)

theorem token?_span {token : Token} (h : p.token? = some token) : token.span = p.span := by
  obtain ⟨_, _, rfl⟩ := Option.map_eq_some_iff.mp h
  rfl

theorem comment?_span {comment : Comment} (h : p.comment? = some comment) :
    comment.span = p.span := by
  unfold comment? Lexeme.comment? at h
  split at h <;> cases h
  rename_i hl
  rw [span, hl]

/-- No lexeme is both a token and a comment. -/
theorem token?_of_comment? {comment : Comment} (h : p.comment? = some comment) :
    p.token? = none := by
  unfold comment? Lexeme.comment? at h
  split at h <;> cases h
  rename_i hl
  rw [token?, hl]
  rfl

end Placed

/-! ### Laying end to end -/

/-- Lexemes end to end, the first one at an offset. -/
def placeFrom (start : Nat) : List Lexeme → List Placed
  | [] => []
  | l :: ls => ⟨start, l⟩ :: placeFrom (start + l.size) ls

theorem mem_placeFrom {start : Nat} {ls : List Lexeme} {p : Placed} (h : p ∈ placeFrom start ls) :
    ∃ before after, ls = before ++ p.lexeme :: after ∧
      p.start = start + byteLength (before.flatMap Lexeme.text) := by
  induction ls generalizing start with
  | nil => cases h
  | cons l ls ih =>
    rcases List.mem_cons.mp h with rfl | h
    · exact ⟨[], ls, rfl, rfl⟩
    · obtain ⟨before, after, rfl, hstart⟩ := ih h
      refine ⟨l :: before, after, rfl, ?_⟩
      rw [hstart, List.flatMap_cons, byteLength_append, ← Nat.add_assoc]
      rfl

theorem placeFrom_append (start : Nat) (ls ms : List Lexeme) :
    placeFrom start (ls ++ ms) =
      placeFrom start ls ++ placeFrom (start + byteLength (ls.flatMap Lexeme.text)) ms := by
  induction ls generalizing start with
  | nil => rfl
  | cons l ls ih =>
    rw [List.cons_append, placeFrom, placeFrom, ih, List.flatMap_cons, byteLength_append,
      ← Nat.add_assoc]
    rfl

/-- Each character of lexemes end to end is a character of one of them. -/
theorem placeFrom_covers {start : Nat} {ls : List Lexeme} {front back : List Char} {c : Char}
    (h : front ++ c :: back = ls.flatMap Lexeme.text) :
    ∃ p ∈ placeFrom start ls, ∃ before after, p.lexeme.text = before ++ c :: after ∧
      start + byteLength front = p.start + byteLength before := by
  induction ls generalizing start front with
  | nil => simp at h
  | cons l ls ih =>
    rw [List.flatMap_cons, List.append_eq_append_iff] at h
    rcases h with ⟨inner, htext, hrest⟩ | ⟨inner, hfront, hrest⟩
    · cases inner with
      | nil =>
        obtain ⟨p, hp, before, after, hbefore, hstart⟩ := @ih (start + l.size) [] hrest
        refine ⟨p, List.mem_cons_of_mem _ hp, before, after, hbefore, ?_⟩
        rw [← hstart, Lexeme.size, htext, List.append_nil]
        rfl
      | cons d inner =>
        obtain ⟨rfl, -⟩ := List.cons.inj hrest
        exact ⟨⟨start, l⟩, List.mem_cons_self, front, inner, htext, rfl⟩
    · obtain ⟨p, hp, before, after, hbefore, hstart⟩ := @ih (start + l.size) _ hrest.symm
      refine ⟨p, List.mem_cons_of_mem _ hp, before, after, hbefore, ?_⟩
      rw [← hstart, hfront, byteLength_append, Lexeme.size, Nat.add_assoc]

theorem pairwise_placeFrom (start : Nat) (ls : List Lexeme) :
    (placeFrom start ls).Pairwise fun p q => p.span.stop ≤ q.span.start := by
  induction ls generalizing start with
  | nil => exact .nil
  | cons l ls ih =>
    refine .cons (fun q hq => ?_) (ih _)
    obtain ⟨_, _, _, hstart⟩ := mem_placeFrom hq
    exact (Nat.le_add_right _ _).trans_eq hstart.symm

namespace Lexed

theorem place_eq (out : Lexed) (start : Nat) (ls : List Lexeme) :
    (place out start ls).1.tokens.toList =
        out.tokens.toList ++ (placeFrom start ls).filterMap Placed.token? ∧
      (place out start ls).1.comments.toList =
        out.comments.toList ++ (placeFrom start ls).filterMap Placed.comment? ∧
      (place out start ls).1.problems.toList =
        out.problems.toList ++ (placeFrom start ls).flatMap Placed.problems ∧
      (place out start ls).2 = start + byteLength (ls.flatMap Lexeme.text) := by
  induction ls generalizing out start with
  | nil => simp [place, placeFrom, byteLength]
  | cons l ls ih =>
    obtain ⟨htokens, hcomments, hproblems, hstop⟩ := ih (out.add start l) (start + l.size)
    rw [place]
    refine ⟨?_, ?_, ?_, ?_⟩
    · rw [htokens, placeFrom, List.filterMap_cons, Placed.token?]
      cases h : l.token? start <;> simp [add, h]
    · rw [hcomments, placeFrom, List.filterMap_cons, Placed.comment?]
      cases h : l.comment? start <;> simp [add, h]
    · rw [hproblems, placeFrom, List.flatMap_cons, Placed.problems]
      simp [add]
    · rw [hstop, List.flatMap_cons, byteLength_append, Nat.add_assoc]
      rfl

end Lexed

/-! ### Sources -/

/-- What the lexer makes of a source, lexeme by lexeme. -/
structure LaysOut (source : String) (items : List Placed) : Prop where
  tokens : (lex source).tokens.toList =
    items.filterMap Placed.token? ++ [⟨.endOfFile, .empty source.utf8ByteSize⟩]
  comments : (lex source).comments.toList = items.filterMap Placed.comment?
  problems : ∃ last, (lex source).problems.toList = items.flatMap Placed.problems ++ last ∧
    ∀ problem ∈ last, problem = ⟨.unterminatedTemplate, .empty source.utf8ByteSize⟩
  ordered : items.Pairwise fun p q => p.span.stop ≤ q.span.start
  each : ∀ p ∈ items, p.StandsIn source
  covers : ∀ {front back c}, front ++ c :: back = source.toList → ∃ p ∈ items, ∃ before after,
    p.lexeme.text = before ++ c :: after ∧ byteLength front = p.start + byteLength before

theorem lex_laysOut (source : String) : ∃ items, LaysOut source items := by
  obtain ⟨ls, hls, hjoin, hall⟩ := lexemesFrom_covers {} source.toList #[]
  rw [List.nil_append] at hls
  obtain ⟨htokens, hcomments, hproblems, hstop⟩ := Lexed.place_eq {} 0 ls
  have hlength : byteLength (ls.flatMap Lexeme.text) = source.utf8ByteSize := by
    rw [hjoin, ← utf8ByteSize_ofList, String.ofList_toList]
  have hlex : lex source = (Lexed.place {} 0 ls).1.finish (lexemesFrom {} source.toList #[]).2
      source.utf8ByteSize := by
    show ((Lexed.place {} 0 (lexemesFrom {} source.toList #[]).1.toList).1.finish _
      (Lexed.place {} 0 (lexemesFrom {} source.toList #[]).1.toList).2) = _
    rw [hls, hstop, hlength, Nat.zero_add]
  refine ⟨placeFrom 0 ls, ?_, ?_, ?_, pairwise_placeFrom 0 ls, fun p hp => ?_, fun hsplit => ?_⟩
  · rw [hlex, Lexed.finish, Array.toList_push, htokens]
    rfl
  · rw [hlex, Lexed.finish, hcomments]
    rfl
  · rw [hlex, Lexed.finish]
    dsimp only
    split
    · exact ⟨[⟨.unterminatedTemplate, _⟩], by rw [Array.toList_push, hproblems]; rfl, by simp⟩
    · exact ⟨[], by rw [hproblems, List.append_nil]; rfl, by simp⟩
  · obtain ⟨before, after, rfl, hstart⟩ := mem_placeFrom hp
    obtain ⟨hnonempty, hregular⟩ := hall p.lexeme (by simp)
    refine ⟨⟨before.flatMap Lexeme.text, after.flatMap Lexeme.text, ?_, ?_⟩, hnonempty, hregular⟩
    · rw [← hjoin]
      simp
    · rw [hstart, Nat.zero_add]
  · obtain ⟨p, hp, before, after, hbefore, hstart⟩ := @placeFrom_covers 0 _ _ _ _
      (hsplit.trans hjoin.symm)
    exact ⟨p, hp, before, after, hbefore, by rw [← hstart, Nat.zero_add]⟩

end ScriptTree
