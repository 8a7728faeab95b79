import Mathlib
import ScriptTree.Proofs.Mirror.Lockstep
import ScriptTree.Proofs.Parsing.Outcome
import ScriptTree.Proofs.Token.Respelling

/-! Sources with the same tokens at other places.

A source is displaced by `place` into another if the tokens and comments of the other are its own with
every offset moved. Both are then read in lockstep, and the tree and the parser's reports are moved like
the tokens (`Displaced.dressedRoot_eq`,
`Displaced.runProgram_eq`). -/
namespace ScriptTree

open Parsing

/-- Whether the tokens and comments of one source, moved by `place`, are those of another. -/
structure Displaced (place : Nat → Nat) (source source' : String) : Prop where
  strictMono : StrictMono place
  start : place 0 = 0
  stop : place source.utf8ByteSize = source'.utf8ByteSize
  tokens : (lex source').tokens.toList = (lex source).tokens.toList.map (Token.relocate place)
  comments : (lex source').comments.toList = (lex source).comments.toList.map (Comment.relocate place)
  /-- The marks of strings and regular expressions stay one byte wide. -/
  marks : ∀ t ∈ (lex source).tokens.toList, ∀ offset ∈ t.marks, place (offset + 1) = place offset + 1

section Tokens
variable {place : Nat → Nat}

theorem kindLike_relocate (place : Nat → Nat) (kind : TokenKind) :
    KindLike kind (kind.relocate place) := by
  cases kind with
  | string => exact .string
  | regex => exact .regex
  | keyword | operator | punctuation | identifier | number | templateChars | templateEscape
  | endOfFile => exact .refl _

theorem describe_relocate (place : Nat → Nat) (kind : TokenKind) :
    (kind.relocate place).describe = kind.describe := by
  cases kind <;> rfl

theorem commentNode_relocate (place : Nat → Nat) (c : Comment) :
    commentNode (c.relocate place) = (commentNode c).relocate place := by
  rw [Node.relocate_eq, commentNode, commentNode, Comment.relocate]
  cases c.kind <;> rfl

theorem sorted_relocate (hmono : StrictMono place) (problems : List Problem) :
    sorted (problems.map (Problem.relocate place)) = (sorted problems).map (Problem.relocate place) := by
  refine (List.map_mergeSort fun p _ q _ => ?_).symm
  exact decide_eq_decide.mpr hmono.le_iff_le.symm

end Tokens

namespace Parsing

namespace Lockstep
variable {L : Lockstep} (hid : L.place' = id)
include hid

/-- A token that is moved is read alike. -/
theorem agree_relocate (hmono : StrictMono L.place) {t : Token}
    (hmarks : ∀ offset ∈ t.marks, L.place (offset + 1) = L.place offset + 1) :
    L.Agree t (t.relocate L.place) := by
  refine ⟨kindLike_relocate _ _, ?_, fun n n' hn hn' => ?_, fun _ => (describe_relocate ..).symm⟩
  · rw [hid]
    rfl
  · rw [literalNode?_relocate hmono hmarks, hn] at hn'
    obtain rfl := Option.some.inj hn'
    rw [hid, Node.relocate_id]

/-- Nodes alike are moved. -/
theorem alike_eq {nodes nodes' : List Node} (h : List.Forall₂ L.world.like nodes nodes') :
    nodes' = nodes.map (Node.relocate L.place) := by
  rw [alike_iff.mp h, hid, Node.map_relocate_id]

/-- Reports alike are moved. -/
theorem reported_eq (hfaithful : L.faithful) {problems problems' : List Problem}
    (h : List.Forall₂ L.Reported problems problems') :
    problems' = problems.map (Problem.relocate L.place) := by
  rw [← List.forall₂_eq_eq_eq, List.forall₂_map_right_iff]
  refine h.flip.imp fun p' p hreported => ?_
  obtain ⟨hcause, hspan⟩ := hreported
  rw [hid] at hspan
  cases p
  cases p'
  exact congrArg₂ Problem.mk (hcause hfaithful).symm hspan.symm

end Lockstep

/-- Two runs on tokens that are moved. -/
def Lockstep.moved (place : Nat → Nat) (tokens tokens' : Array Token) : Lockstep where
  left := tokens
  right := tokens'
  shift := 0
  place := place
  place' := id
  faithful := True
  earlier := []
  live _ := True

end Parsing

namespace Displaced
variable {place : Nat → Nat} {source source' : String} (h : Displaced place source source')
include h

theorem size_eq : (lex source).tokens.size = (lex source').tokens.size := by
  simpa using (congrArg List.length h.tokens).symm

theorem tokenAt_eq {i : Nat} (hi : i < (lex source).tokens.size) :
    tokenAt (lex source').tokens i = (tokenAt (lex source).tokens i).relocate place := by
  have hi' : i < (lex source').tokens.size := h.size_eq ▸ hi
  have hget := congrArg (·[i]?) h.tokens
  simp only [List.getElem?_map, Array.getElem?_toList, Array.getElem?_eq_getElem hi,
    Array.getElem?_eq_getElem hi', Option.map_some, Option.some.injEq] at hget
  rw [tokenAt, tokenAt, Array.getD, Array.getD, dif_pos hi, dif_pos hi']
  exact hget

theorem agree {i : Nat} (hi : i < (lex source).tokens.size) :
    (Lockstep.moved place (lex source).tokens (lex source').tokens).Agree
      (tokenAt (lex source).tokens i) (tokenAt (lex source').tokens i) := by
  have hmarks : ∀ offset ∈ (tokenAt (lex source).tokens i).marks,
      place (offset + 1) = place offset + 1 := by
    refine h.marks _ ?_
    rw [tokenAt, Array.getD, dif_pos hi]
    exact Array.getElem_mem_toList hi
  rw [h.tokenAt_eq hi]
  exact Lockstep.agree_relocate rfl h.strictMono hmarks

theorem valid : (Lockstep.moved place (lex source).tokens (lex source').tokens).Valid where
  place := h.strictMono.monotone
  place' := monotone_id
  streamLeft := lex_isStream source
  streamRight := lex_isStream source'
  size := h.size_eq
  agree _ hi := h.agree hi
  touching i hsign hnumber := by
    obtain ⟨text, hnumber⟩ := hnumber
    have hnext : i + 1 < (lex source).tokens.size := lt_size_of_real (number_real hnumber)
    have hspan {i : Nat} (hi : i < (lex source).tokens.size) :
        spanAt (lex source').tokens i = (spanAt (lex source).tokens i).relocate place :=
      congrArg Token.span (h.tokenAt_eq hi)
    show (_ == _) = ((spanAt (lex source').tokens i).stop == (spanAt (lex source').tokens (i + 1)).start)
    rw [hspan hnext, hspan (by omega), Bool.eq_iff_iff, beq_iff_eq, beq_iff_eq]
    exact h.strictMono.injective.eq_iff.symm
  alive _ _ := trivial
  start _ _ _ _ := h.start

/-- What the parser makes of both sources. -/
theorem runProgram_eq (maxDepth : Nat) :
    (runProgram (lex source').tokens maxDepth).1.toList =
        (runProgram (lex source).tokens maxDepth).1.toList.map (Node.relocate place) ∧
      (runProgram (lex source').tokens maxDepth).2.problems.toList =
        (runProgram (lex source).tokens maxDepth).2.problems.toList.map (Problem.relocate place) := by
  obtain ⟨hnodes, hreports⟩ := h.valid.programs rfl rfl (.inl ⟨rfl, rfl⟩) (Nat.zero_add maxDepth).symm
    trivial
  exact ⟨Lockstep.alike_eq rfl (Lockstep.alike_iff.mpr hnodes), Lockstep.reported_eq rfl trivial hreports⟩

theorem bareRoot_eq (maxDepth : Nat) :
    bareRoot source' maxDepth = (bareRoot source maxDepth).relocate place := by
  rw [bareRoot, bareRoot, (h.runProgram_eq maxDepth).1, Node.relocate_eq, rootNode, rootNode,
    Span.relocate, h.start, h.stop]

theorem dressedRoot_eq (maxDepth : Nat) :
    dressedRoot source' maxDepth = (dressedRoot source maxDepth).relocate place := by
  have hcomments : commentNodes source' = (commentNodes source).map (Node.relocate place) := by
    rw [commentNodes, commentNodes, h.comments, List.map_map, List.map_map]
    exact List.map_congr_left fun c _ => commentNode_relocate place c
  rw [dressedRoot, dressedRoot, h.bareRoot_eq, hcomments, Node.attachAll_relocate h.strictMono]

end Displaced

end ScriptTree
