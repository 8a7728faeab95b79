import Mathlib
import ScriptTree.Proofs.Token.Nesting

/-! The context in front of a lexeme.

The lexemes of a text can be cut at any of them: what stands behind the cut is read from the context that
the lexemes in front of it leave (`Lexes.split`), and of that context the tokens alone tell what is open
(`Lexes.run_context`). A token is cut out as the lexeme that it comes from (`Lexes.at_token`). -/
namespace ScriptTree

namespace Lexes
variable {ctx last : Context} {cs : List Char} {before after : List Lexeme}

/-- What the lexer knows behind lexemes. -/
def context (ctx : Context) (ls : List Lexeme) : Context := ls.foldl Context.after ctx

theorem split (h : Lexes ctx cs (before ++ after) last) :
    ∃ back, cs = before.flatMap Lexeme.text ++ back ∧ Lexes (context ctx before) back after last := by
  induction before generalizing ctx cs with
  | nil => exact ⟨cs, rfl, h⟩
  | cons l before ih =>
    cases h with
    | cons first split below =>
      obtain ⟨back, rfl, hback⟩ := ih below
      refine ⟨back, ?_, hback⟩
      rw [split, List.flatMap_cons, List.append_assoc]

theorem run_context (h : Lexes ctx cs (before ++ after) last) (start : Nat) :
    Nesting.run ctx.modes (Nesting.tokensFrom start before) = some (context ctx before).modes := by
  induction before generalizing ctx cs start with
  | nil => rfl
  | cons l before ih =>
    cases h with
    | cons first split below =>
      rw [Nesting.tokensFrom_cons, Nesting.run_append, Nesting.run_first first start]
      exact ih below _

end Lexes

/-! ### Tokens and their lexemes -/

theorem Lexes.standsIn {source : String} {ls : List Lexeme} {last : Context}
    (h : Lexes {} source.toList ls last) : ∀ p ∈ placeFrom 0 ls, p.StandsIn source := by
  intro p hp
  obtain ⟨before, after, rfl, hstart⟩ := mem_placeFrom hp
  refine ⟨⟨before.flatMap Lexeme.text, after.flatMap Lexeme.text, ?_, by rw [hstart, Nat.zero_add]⟩,
    h.nonempty _ (by simp), h.regular _ (by simp)⟩
  rw [← h.text, List.flatMap_append, List.flatMap_cons, List.append_assoc]

/-- The lexemes around a token. -/
theorem tokensFrom_split {start : Nat} {ls : List Lexeme} {front back : List Token} {t : Token}
    (h : Nesting.tokensFrom start ls = front ++ t :: back) : ∃ before l after,
      ls = before ++ l :: after ∧ Nesting.tokensFrom start before = front ∧
      l.token? (start + byteLength (before.flatMap Lexeme.text)) = some t ∧
      Nesting.tokensFrom (start + byteLength ((before ++ [l]).flatMap Lexeme.text)) after = back := by
  induction ls generalizing start front with
  | nil => simp [Nesting.tokensFrom, placeFrom] at h
  | cons l ls ih =>
    -- Whatever stands in front of the token stays in front of it.
    have hcons {front' : List Token} (hfront : (l.token? start).toList ++ front' = front)
        (hrest : Nesting.tokensFrom (start + l.size) ls = front' ++ t :: back) :
        ∃ before m after, l :: ls = before ++ m :: after ∧ Nesting.tokensFrom start before = front ∧
          m.token? (start + byteLength (before.flatMap Lexeme.text)) = some t ∧
          Nesting.tokensFrom (start + byteLength ((before ++ [m]).flatMap Lexeme.text)) after =
            back := by
      obtain ⟨before, m, after, rfl, hbefore, hm, hafter⟩ := ih hrest
      refine ⟨l :: before, m, after, rfl, ?_, ?_, ?_⟩
      · rw [Nesting.tokensFrom_cons, hbefore, hfront]
      · rw [List.flatMap_cons, byteLength_append, ← Nat.add_assoc]
        exact hm
      · rw [List.cons_append, List.flatMap_cons, byteLength_append, ← Nat.add_assoc]
        exact hafter
    rw [Nesting.tokensFrom_cons] at h
    cases htoken : l.token? start with
    | none =>
      rw [htoken] at h
      exact hcons (by rw [htoken]; rfl) h
    | some u =>
      rw [htoken] at h
      cases front with
      | nil =>
        obtain ⟨rfl, hrest⟩ := List.cons.inj h
        refine ⟨[], l, ls, rfl, rfl, htoken, ?_⟩
        rw [List.nil_append, List.flatMap_singleton]
        exact hrest
      | cons u' front =>
        obtain ⟨rfl, hrest⟩ := List.cons.inj h
        exact hcons (by rw [htoken]; rfl) hrest

/-- What a token is read from, and in which context. -/
theorem Lexes.at_token {cs : List Char} {ls : List Lexeme} {last : Context} (h : Lexes {} cs ls last)
    {front back : List Token} {t : Token} (ht : Nesting.tokensFrom 0 ls = front ++ t :: back) :
    ∃ before l after c behind, ls = before ++ l :: after ∧
      cs = before.flatMap Lexeme.text ++ c :: behind ∧
      c :: behind = l.text ++ after.flatMap Lexeme.text ∧
      Lexeme.first (context {} before) c behind = l ∧
      l.token? (byteLength (before.flatMap Lexeme.text)) = some t ∧
      Nesting.run [] front = some (context {} before).modes := by
  obtain ⟨before, l, after, rfl, hfront, htoken, _⟩ := tokensFrom_split ht
  rw [Nat.zero_add] at htoken
  obtain ⟨text, hcs, hback⟩ := h.split
  have hrun : Nesting.run [] _ = _ := h.run_context 0
  rw [hfront] at hrun
  cases hback with
  | cons first split below =>
    rw [← below.text] at split
    exact ⟨before, l, after, _, _, rfl, hcs, split, first, htoken, hrun⟩

end ScriptTree
