import Mathlib
import ScriptTree.Proofs.Calls.Depth
import ScriptTree.Proofs.Calls.Reached
import ScriptTree.Proofs.Token.Streaming

/-! Statements that may fail, wherever a run calls for one.

Such a call gives a node with the depth counter as it was, and leaves as it is what had been kept and
reported when it was made; and if the statement fails, nothing is left of it but the leaves of its tokens
and the damage that lists them (`statement_rolls_back`). -/
namespace ScriptTree.Calls

open Parsing

def Outcome.isError {α : Type} : Outcome α → Bool
  | .error _ _ _ => true
  | _ => false

/-- Whether the statement that is called for fails, with the room that the call leaves. -/
def StatementFails (tokens : Array Token) (maxDepth stack depth : Nat) (s : State) : Prop :=
  (Step.statement ⟨tokens, maxDepth, exec tokens maxDepth (stack - 1)⟩ depth s).isError = true

/-- What a call for a statement that may fail leaves, from the state `s` on, in the state `s'`. -/
structure RollsBack (tokens : Array Token) (failed : Prop) (s s' : State) : Prop where
  /-- All that was kept is as it was: symbols, spans, fields, flags and children. -/
  kept : ∀ i < s.made.size, s'.made[i]? = s.made[i]?
  /-- It refers to nothing that was kept later. -/
  closed : ∀ (i : Nat) (b : Built), i < s.made.size → s'.made[i]? = some b →
    ∀ j ∈ b.children, j < s.made.size
  /-- What was reported stays in front. -/
  reported : s.problems.toList <+: s'.problems.toList
  /-- Of a statement that failed, the leaves of the skipped tokens are kept and the damage that lists
  them, and nothing else. -/
  damage : failed → s'.made = s.made ++ builtLeaves tokens s.position s'.position ++
    #[builtDamage tokens s.position s'.position s.made.size]

section Statements
variable {tokens : Array Token} {maxDepth stack depth : Nat} {s : State}

/-- A call that does not overflow does what its production does. -/
theorem exec_eq_of_returns {α : Type} {r : Routine α} (hdepth : depth ≤ maxDepth)
    (hreturns : exec tokens maxDepth stack r depth s ≠ .overflow) :
    exec tokens maxDepth stack r depth s =
      .ofResult depth (r.production ⟨tokens, level tokens maxDepth (maxDepth - depth)⟩ s) := by
  let room := r.rank + callsPerLevel * (maxDepth - depth) + 1
  rw [(exec_mono tokens maxDepth (Nat.le_max_left stack room) r depth s).resolve_left hreturns]
  exact exec_eq tokens maxDepth r hdepth (Nat.lt_of_succ_le (Nat.le_max_right stack room)) s

theorem StatementFails.level (h : StatementFails tokens maxDepth stack depth s) : ∃ problem s₁,
    level tokens maxDepth (maxDepth - depth) .statement s = .error problem s₁ := by
  unfold StatementFails Step.statement Step.nested at h
  dsimp only at h
  split at h
  · rw [Nat.sub_eq_zero_of_le ‹_›]
    exact ⟨_, _, rfl⟩
  · have hlt : depth < maxDepth := Nat.lt_of_not_le ‹_›
    obtain ⟨left, hleft⟩ : ∃ left, maxDepth - depth = left + 1 := ⟨maxDepth - depth - 1, by omega⟩
    have hreturns : exec tokens maxDepth (stack - 1) (.ofGoal .statement) (depth + 1) s ≠ .overflow := by
      intro hover
      rw [hover] at h
      cases h
    rw [exec_eq_of_returns hlt hreturns, production_ofGoal,
      show maxDepth - (depth + 1) = left by omega] at h
    rw [hleft]
    show ∃ problem s₁, production .statement ⟨tokens, Parsing.level tokens maxDepth left⟩ s =
      .error problem s₁
    cases hproduction : production .statement ⟨tokens, Parsing.level tokens maxDepth left⟩ s with
    | ok n s' =>
      rw [hproduction] at h
      cases h
    | error e s' => exact ⟨e, s', rfl⟩

theorem Step.overflow_bind {α β : Type} {m : Step α} {f : α → Step β} {frame : Frame}
    (h : m frame depth s = .overflow) : (m >>= f) frame depth s = .overflow := by
  simp only [Bind.bind, h]

/-- The first call for a statement, if there is a token to start with and room enough. -/
theorem Reached.first (hreal : kindAt tokens 0 ≠ .endOfFile)
    (hroom : callsPerLevel * (maxDepth + 1) ≤ stack) :
    Reached tokens maxDepth stack ⟨.statementOrError, 0, {}⟩ := by
  refine .call (.start (stack + 1)) ⟨?_, ?_⟩
  · show exec tokens maxDepth (stack + 1) (.statements false #[]) 0 {} ≠ .overflow
    rw [exec_eq tokens maxDepth (.statements false #[]) (Nat.zero_le _)
      (by show 1 + callsPerLevel * (maxDepth - 0) < stack + 1; unfold callsPerLevel at *; omega) {}]
    cases (Routine.statements false #[]).production _ _ <;> nofun
  · let frame := Frame.without ⟨tokens, maxDepth, exec tokens maxDepth stack⟩
      ⟨.statementOrError, 0, {}⟩
    have hcall : Step.call .statementOrError frame 0 {} = .overflow := if_pos rfl
    have hround : Step.statementsRound false #[] frame 0 {} = .overflow := by
      show (if (kindAt tokens 0 == .endOfFile) = true then _ else _ : Step _) frame 0 {} = _
      rw [if_neg fun hend => hreal (beq_iff_eq.mp hend)]
      exact Step.overflow_bind (m := .call .statementOrError) hcall
    show (Step.rounds (Step.statementsRound false) (tokens.size + 1) #[]) frame 0 {} = _
    unfold Step.rounds
    simp only [Bind.bind]
    rw [hround]

end Statements

/-- **The rollback of a failed statement is exact**, for every call that a run makes. -/
theorem statement_rolls_back {source : String} {maxDepth stack depth : Nat} {s : State}
    (h : Reached (lex source).tokens maxDepth stack ⟨.statementOrError, depth, s⟩) :
    ∃ n s', exec (lex source).tokens maxDepth stack .statementOrError depth s = .ok (some n) s' depth ∧
      RollsBack (lex source).tokens (StatementFails (lex source).tokens maxDepth stack depth s) s s' := by
  have hs := lex_isStream source
  obtain ⟨hsane, hdepth, hreal⟩ := h.fits hs.endsOnce
  have hreal : kindAt (lex source).tokens s.position ≠ .endOfFile := hreal rfl
  have hexec := exec_eq_of_returns hdepth (h.returns rfl)
  obtain ⟨n, s', hrun, hspares, _⟩ :
      ∃ n s', statementOrError ⟨_, level _ maxDepth (maxDepth - depth)⟩ s = .ok (some n) s' ∧ _ ∧ _ :=
    statementOrError_spares hreal
  refine ⟨n, s', ?_, hspares.below, fun i b hi hb => ?_, hspares.reported, fun hfailed => ?_⟩
  · rw [hexec]
    show Outcome.ofResult depth (statementOrError _ s) = _
    rw [hrun]
    rfl
  · rw [hspares.below i hi] at hb
    exact fun j hj => (hsane.grown i b hb j hj).trans hi
  · obtain ⟨problem, s₁, hfails⟩ := hfailed.level
    exact statementOrError_damage hreal hfails hrun

/-- A call without its closing parenthesis: the statement fails and is skipped with its semicolon. -/
theorem statement_rolls_back_unclosed_call :
    Reached (lex "f(; g();").tokens 256 4112 ⟨.statementOrError, 0, {}⟩ ∧
      StatementFails (lex "f(; g();").tokens 256 4112 0 {} ∧
      ∃ n s', exec (lex "f(; g();").tokens 256 4112 .statementOrError 0 {} = .ok (some n) s' 0 ∧
        RollsBack (lex "f(; g();").tokens (StatementFails (lex "f(; g();").tokens 256 4112 0 {})
          {} s' := by
  have hreached : Reached (lex "f(; g();").tokens 256 4112 ⟨.statementOrError, 0, {}⟩ :=
    .first (by decide +kernel) (by decide)
  exact ⟨hreached, by unfold StatementFails; decide +kernel, statement_rolls_back hreached⟩

end ScriptTree.Calls
