import Mathlib
import ScriptTree.Proofs.Parsing.Outcome
import ScriptTree.Proofs.Token.Fixes
import ScriptTree.Proofs.Token.Strays

/-! Spaces in the place of characters that start nothing.

A character that starts no token is reported, and then passed over like a space. A source with spaces in the
place of all such characters has the same tokens and comments where they were, the other reports, and a
tree of the same nodes (`parse_withBlanks`). -/
namespace ScriptTree

open Parsing

/-- The edit that puts spaces in the place of a character that starts no token, one for each byte. -/
def Problem.blanks? (p : Problem) : Option Edit :=
  if p.isStray then some ⟨p.span, List.replicate p.span.length ' '⟩ else none

/-- The source with spaces in the place of each character that is reported as unexpected. -/
def withBlanks (source : String) : String :=
  edited source ((lex source).problems.toList.filterMap Problem.blanks?)

/-! ### Lexemes -/

theorem Lexeme.size_unexpected (c : Char) : (Lexeme.unexpected c).size = c.utf8Size := rfl

theorem byteLength_spaces (n : Nat) : byteLength (List.replicate n ' ') = n := by
  induction n with
  | zero => rfl
  | succ n ih =>
    rw [List.replicate_succ, byteLength_cons, ih, Nat.add_comm]
    rfl

/-- Blanked lexemes take the same room. -/
theorem size_blanked (l : Lexeme) : byteLength (l.blanked.flatMap Lexeme.text) = l.size := by
  rcases l.blanked_cases with ⟨c, rfl⟩ | ⟨hsame, _⟩
  · rw [Lexeme.text_blanked_unexpected, byteLength_spaces, Lexeme.size_unexpected]
  · rw [hsame, List.flatMap_singleton, Lexeme.size]

theorem byteLength_blanked (ls : List Lexeme) :
    byteLength ((ls.flatMap Lexeme.blanked).flatMap Lexeme.text) = byteLength (ls.flatMap Lexeme.text) := by
  induction ls with
  | nil => rfl
  | cons l ls ih =>
    rw [List.flatMap_cons, List.flatMap_append, byteLength_append, List.flatMap_cons, byteLength_append,
      size_blanked, ih, Lexeme.size]

/-- Only what is blanked is reported as unexpected. -/
theorem problems_kept {l : Lexeme} (start : Nat) (h : (Placed.mk start l).stray? = none) :
    (l.problems start).filter Problem.isStray = [] := by
  have hstrays := Placed.filter_isStray_problems ⟨start, l⟩
  rwa [h] at hstrays

theorem rewritten_blanked (ls : List Lexeme) :
    Rewritten Problem.blanks? (·.blanked.flatMap Lexeme.text) ls := by
  intro l _ start
  rcases l.blanked_cases with ⟨c, rfl⟩ | ⟨hsame, hstray⟩
  · have hlength : ((Lexeme.unexpected c).span start).length = c.utf8Size := by
      rw [Lexeme.span, Span.length, Nat.add_sub_cancel_left, Lexeme.size_unexpected]
    refine .inr ?_
    dsimp only
    rw [Lexeme.text_blanked_unexpected, ← hlength]
    rfl
  · refine .inl ⟨List.filterMap_eq_nil_iff.mpr fun p hp => ?_, by simp [hsame]⟩
    have hkept : p.isStray = false := by
      simpa using List.filter_eq_nil_iff.mp (problems_kept start (hstray start)) p hp
    rw [Problem.blanks?, hkept]
    rfl

/-- What spaces are found to be: nothing. -/
theorem placeFrom_spaces (start n : Nat) : ∀ p ∈ placeFrom start (List.replicate n (.blank ' ')),
    p.token? = none ∧ p.comment? = none ∧ p.problems = [] := by
  rintro ⟨start', l⟩ hp
  obtain ⟨before, after, hsplit, _⟩ := mem_placeFrom hp
  have hmem : l ∈ List.replicate n (.blank ' ') := by
    rw [hsplit]
    simp
  obtain rfl := List.eq_of_mem_replicate hmem
  exact ⟨rfl, rfl, rfl⟩

/-- What a lexeme is found to be once it is blanked. -/
theorem placed_blanked (start : Nat) (l : Lexeme) :
    (placeFrom start l.blanked).filterMap Placed.token? = (l.token? start).toList ∧
      (placeFrom start l.blanked).filterMap Placed.comment? = (l.comment? start).toList ∧
      (placeFrom start l.blanked).flatMap Placed.problems =
        (l.problems start).filter (!·.isStray) := by
  rcases l.blanked_cases with ⟨c, rfl⟩ | ⟨hsame, hstray⟩
  · have hspaces := placeFrom_spaces start c.utf8Size
    exact ⟨List.filterMap_eq_nil_iff.mpr fun p hp => (hspaces p hp).1,
      List.filterMap_eq_nil_iff.mpr fun p hp => (hspaces p hp).2.1,
      List.flatMap_eq_nil_iff.mpr fun p hp => (hspaces p hp).2.2⟩
  · have hkept := List.filter_eq_nil_iff.mp (problems_kept start (hstray start))
    have hall : (l.problems start).filter (!·.isStray) = l.problems start :=
      List.filter_eq_self.mpr fun p hp => by simpa using hkept p hp
    rw [hsame, hall, placeFrom, placeFrom, List.filterMap_cons, List.filterMap_cons, List.flatMap_singleton]
    refine ⟨?_, ?_, rfl⟩
    · cases h : l.token? start <;> simp [Placed.token?, h]
    · cases h : l.comment? start <;> simp [Placed.comment?, h]

theorem placeFrom_blanked (start : Nat) (ls : List Lexeme) :
    (placeFrom start (ls.flatMap Lexeme.blanked)).filterMap Placed.token? =
        (placeFrom start ls).filterMap Placed.token? ∧
      (placeFrom start (ls.flatMap Lexeme.blanked)).filterMap Placed.comment? =
        (placeFrom start ls).filterMap Placed.comment? ∧
      (placeFrom start (ls.flatMap Lexeme.blanked)).flatMap Placed.problems =
        ((placeFrom start ls).flatMap Placed.problems).filter (!·.isStray) := by
  induction ls generalizing start with
  | nil => exact ⟨rfl, rfl, rfl⟩
  | cons l ls ih =>
    obtain ⟨htoken, hcomment, hproblems⟩ := placed_blanked start l
    obtain ⟨htokens, hcomments, hrest⟩ := ih (start + l.size)
    rw [List.flatMap_cons, placeFrom_append, size_blanked, placeFrom]
    refine ⟨?_, ?_, ?_⟩
    · rw [List.filterMap_append, htoken, htokens, List.filterMap_cons, Placed.token?]
      cases l.token? start <;> rfl
    · rw [List.filterMap_append, hcomment, hcomments, List.filterMap_cons, Placed.comment?]
      cases l.comment? start <;> rfl
    · rw [List.flatMap_append, hproblems, hrest, List.flatMap_cons, List.filter_append]
      rfl

/-! ### Sources -/

theorem lex_withBlanks (source : String) :
    (withBlanks source).utf8ByteSize = source.utf8ByteSize ∧
      (lex (withBlanks source)).tokens = (lex source).tokens ∧
      (lex (withBlanks source)).comments = (lex source).comments ∧
      (lex (withBlanks source)).problems.toList =
        (lex source).problems.toList.filter (!·.isStray) := by
  obtain ⟨ls, last, h⟩ := Lexes.total {} source.toList
  have hwidth : source.utf8ByteSize = byteLength source.toList := by
    rw [← utf8ByteSize_ofList, String.ofList_toList]
  have hsource : withBlanks source = .ofList ((ls.flatMap Lexeme.blanked).flatMap Lexeme.text) := by
    rw [withBlanks, edited, List.flatMap_assoc, ← applyEdits_placeFrom (rewritten_blanked ls) 0, h.text, lex,
      h.problems, List.filterMap_append]
    split <;> exact congrArg (fun edits => String.ofList (applyEdits 0 source.toList edits))
      (List.append_nil _)
  obtain ⟨hblanked, _⟩ := h.blanked
  obtain ⟨htokens, hcomments, hproblems⟩ := placeFrom_blanked 0 ls
  have hsize := byteLength_blanked ls
  rw [h.text] at hsize
  refine ⟨?_, ?_, ?_, ?_⟩
  · rw [hsource, utf8ByteSize_ofList, hwidth, hsize]
  · rw [hsource, lex, lex, String.toList_ofList, ← Array.toList_inj, hblanked.tokens, h.tokens, htokens, hsize]
  · rw [hsource, lex, lex, String.toList_ofList, ← Array.toList_inj, hblanked.comments, h.comments, hcomments]
  · rw [hsource, lex, lex, String.toList_ofList, hblanked.problems, h.problems, hproblems, hsize,
      List.filter_append]
    split <;> rfl

/-- **Unexpected characters are passed over like blanks**: with spaces in their place, tokens and comments are
the same, all other reports remain, and the tree has the same nodes. -/
theorem parse_withBlanks (source : String) (options : ParseOptions) :
    (lex (withBlanks source)).tokens = (lex source).tokens ∧
      (lex (withBlanks source)).comments = (lex source).comments ∧
      (lex (withBlanks source)).problems.toList =
        (lex source).problems.toList.filter (!·.isStray) ∧
      (parse (withBlanks source) options).entries = (parse source options).entries := by
  obtain ⟨hsize, htokens, hcomments, hproblems⟩ := lex_withBlanks source
  refine ⟨htokens, hcomments, hproblems, ?_⟩
  by_cases hfits : ∀ limit ∈ options.maxLength, source.utf8ByteSize ≤ limit
  · have hroot : dressedRoot (withBlanks source) options.maxDepth = dressedRoot source options.maxDepth := by
      rw [dressedRoot, dressedRoot, bareRoot, bareRoot, commentNodes, commentNodes, hsize, htokens, hcomments]
    rw [parse_eq hfits, parse_eq (by rwa [hsize]), hroot]
    rfl
  · push Not at hfits
    obtain ⟨limit, hlimit, hlong⟩ := hfits
    rw [parse_refused hlimit hlong, parse_refused hlimit (by rwa [hsize]), hsize]
    rfl

example : withBlanks "let \\ s = '§'; § é 1" = "let   s = '§';       1" := by decide +kernel

end ScriptTree
