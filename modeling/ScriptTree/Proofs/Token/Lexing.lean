import Mathlib
import ScriptTree.Proofs.Token.Placing

/-! Lexing as a relation.

`Lexes ctx cs ls last` says that from the context `ctx` the text `cs` falls into the lexemes `ls`, and
leaves the context `last`. Every text does (`Lexes.total`), and what the lexer makes of it can be told from
any such derivation (`Lexes.tokens`, …). -/
namespace ScriptTree

theorem Context.modesAfter_of_plain {l : Lexeme} (h : ∀ mark, l ≠ .punctuation mark)
    (modes : List Mode) : modesAfter modes l = modes := by
  unfold modesAfter
  split
  case h_7 => rfl
  all_goals exact absurd rfl (h _)

/-- Only punctuation opens and closes templates. -/
theorem Context.after_of_plain (ctx : Context) {l : Lexeme} (h : ∀ mark, l ≠ .punctuation mark) :
    ctx.after l =
      ⟨ctx.modes, lineStartAfter ctx.lineStart l, l.endsOperand?.getD ctx.operandEnd⟩ := by
  rw [after, modesAfter_of_plain h]

inductive Lexes : Context → List Char → List Lexeme → Context → Prop
  | nil {ctx : Context} : Lexes ctx [] [] ctx
  | cons {ctx last : Context} {c : Char} {cs rest : List Char} {l : Lexeme} {ls : List Lexeme}
    (first : Lexeme.first ctx c cs = l) (split : c :: cs = l.text ++ rest)
    (below : Lexes (ctx.after l) rest ls last) : Lexes ctx (c :: cs) (l :: ls) last

namespace Lexes
variable {ctx last : Context} {cs : List Char} {ls : List Lexeme}

theorem text (h : Lexes ctx cs ls last) : ls.flatMap Lexeme.text = cs := by
  induction h with
  | nil => rfl
  | cons _ split _ ih => rw [List.flatMap_cons, ih, split]

theorem regular (h : Lexes ctx cs ls last) : ∀ l ∈ ls, l.Regular := by
  induction h with
  | nil => nofun
  | cons first _ _ ih =>
    refine List.forall_mem_cons.mpr ⟨?_, ih⟩
    rw [← first]
    exact (Lexeme.first_heads ..).regular

theorem nonempty (h : Lexes ctx cs ls last) : ∀ l ∈ ls, l.text ≠ [] := by
  induction h with
  | nil => simp
  | cons first _ _ ih => exact List.forall_mem_cons.mpr ⟨first ▸ (Lexeme.first_heads ..).nonempty, ih⟩

theorem lexemesFrom_eq (h : Lexes ctx cs ls last) (taken : Array Lexeme) :
    lexemesFrom ctx cs taken = (taken ++ ls.toArray, last) := by
  induction h generalizing taken with
  | nil =>
    rw [lexemesFrom]
    simp
  | @cons ctx last c cs rest l ls first split below ih =>
    have hnonempty : l.text ≠ [] := first ▸ (Lexeme.first_heads ctx c cs).nonempty
    obtain ⟨d, front, htext⟩ := List.exists_cons_of_ne_nil hnonempty
    rw [htext, List.cons_append, List.cons.injEq] at split
    have hrest : cs.drop (l.text.length - 1) = rest := by
      rw [htext, List.length_cons, Nat.add_sub_cancel, split.2, List.drop_left]
    rw [lexemesFrom, first, hrest, ih]
    simp

theorem total (ctx : Context) (cs : List Char) : ∃ ls last, Lexes ctx cs ls last := by
  induction hlength : cs.length using Nat.strong_induction_on generalizing ctx cs with
  | _ n ih =>
    cases cs with
    | nil => exact ⟨[], ctx, .nil⟩
    | cons c cs =>
      have hheads := Lexeme.first_heads ctx c cs
      obtain ⟨rest, hsplit⟩ := hheads.front
      have hshorter : rest.length < n := by
        have := congrArg List.length hsplit
        rw [List.length_append] at this
        have := List.length_pos_of_ne_nil hheads.nonempty
        omega
      obtain ⟨ls, last, below⟩ := ih _ hshorter (ctx.after (Lexeme.first ctx c cs)) rest rfl
      exact ⟨_, last, .cons rfl hsplit.symm below⟩

/-! ### What the lexer makes of a text -/

section Lexed
variable (h : Lexes {} cs ls last)
include h

theorem lexChars_eq : lexChars cs = (Lexed.place {} 0 ls).1.finish last (byteLength cs) := by
  obtain ⟨_, _, _, hstop⟩ := Lexed.place_eq {} 0 ls
  rw [h.text, Nat.zero_add] at hstop
  rw [← hstop, lexChars, h.lexemesFrom_eq]
  simp

theorem tokens : (lexChars cs).tokens.toList =
    (placeFrom 0 ls).filterMap Placed.token? ++ [⟨.endOfFile, .empty (byteLength cs)⟩] := by
  obtain ⟨htokens, _⟩ := Lexed.place_eq {} 0 ls
  rw [h.lexChars_eq, Lexed.finish, Array.toList_push, htokens]
  rfl

theorem comments : (lexChars cs).comments.toList = (placeFrom 0 ls).filterMap Placed.comment? := by
  obtain ⟨_, hcomments, _⟩ := Lexed.place_eq {} 0 ls
  rw [h.lexChars_eq, Lexed.finish, hcomments]
  rfl

theorem problems : (lexChars cs).problems.toList = (placeFrom 0 ls).flatMap Placed.problems ++
    if last.modes.contains .template then [⟨.unterminatedTemplate, .empty (byteLength cs)⟩]
    else [] := by
  obtain ⟨_, _, hproblems, _⟩ := Lexed.place_eq {} 0 ls
  rw [h.lexChars_eq, Lexed.finish]
  dsimp only
  split
  · rw [Array.toList_push, hproblems]
    rfl
  · rw [hproblems, List.append_nil]
    rfl

end Lexed

end Lexes

end ScriptTree
