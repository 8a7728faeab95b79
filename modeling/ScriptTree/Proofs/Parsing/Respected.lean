import Mathlib
import ScriptTree.Proofs.Parsing.Composed
import ScriptTree.Proofs.Parsing.Recovery

/-! What the parts of productions respect, parses respect.

A relation between states is respected in a scope if every part of a production leads from a state
only to such as it relates to it (`Respected`): there is one field for each part, none of which
speaks of a production. All that is composed of these parts then stays within the relation
(`Composed.leads`), and so do parses at any depth (`level_respected`).

The first of these relations: from whatever state a step starts, it does not go back behind it, not in
the tokens and not in the reports, whether it gives a value or fails (`Composed.onward`). The marks that
it makes up stand between where it began and where it ends, and it does not fail for want of one. -/
namespace ScriptTree.Parsing

/-- The state in which parsing takes up again behind a statement that began in the state `s` and
failed in the state `s'`. -/
def State.resumed (tokens : Array Token) (s s' : State) (problem : Problem) : State where
  position := resumeFrom tokens s.position s'.position (depthBetween tokens s.position s'.position)
  problems := s'.problems.push problem
  made := s'.made.shrink s.made.size

/-- Whether a step that began in the state `s` ends in a state related to it, and fails only for such
problems as it may. -/
def Leads {α : Type} (rel : State → State → Prop) (blamed : Problem → Prop) (s : State) :
    EStateM.Result Problem State α → Prop
  | .ok _ s' => rel s s'
  | .error problem s' => rel s s' ∧ blamed problem

/-- Whether the parts of productions lead only to related states. -/
structure Respected (scope : Scope) (rel : State → State → Prop) (blamed : Problem → Prop) :
    Prop where
  refl : ∀ s, rel s s
  trans : ∀ s s' s'', rel s s' → rel s' s'' → rel s s''
  advance : ∀ s, kindAt scope.tokens s.position ≠ .endOfFile →
    rel s { s with position := s.position + 1 }
  make : ∀ s n, rel s { s with made := keep s.made n }
  missing : ∀ s mark found, rel s { s with
    problems := s.problems.push ⟨.missingMark mark found, .empty (stopBefore scope.tokens s.position)⟩ }
  throw : ∀ cause span, cause.kind ≠ .missing → blamed ⟨cause, span⟩
  deeper : ∀ goal s, Leads rel blamed s (scope.deeper goal s)
  recover : ∀ s problem s', scope.deeper .statement s = .error problem s' →
    rel s (.resumed scope.tokens s s' problem)

namespace Respected
variable {α β : Type} {scope : Scope} {rel : State → State → Prop} {blamed : Problem → Prop}
  {s s' : State}

theorem leads_trans (h : Respected scope rel blamed) (hfirst : rel s s')
    {result : EStateM.Result Problem State α} (hrest : Leads rel blamed s' result) :
    Leads rel blamed s result := by
  cases result with
  | ok a s'' => exact h.trans s s' s'' hfirst hrest
  | error e s'' => exact ⟨h.trans s s' s'' hfirst hrest.1, hrest.2⟩

theorem leads_bind (h : Respected scope rel blamed) {m : Parse α} {f : α → Parse β}
    (hm : Leads rel blamed s (m scope s)) (hf : ∀ a s', Leads rel blamed s' (f a scope s')) :
    Leads rel blamed s ((m >>= f) scope s) := by
  simp only [Bind.bind, ReaderT.bind, EStateM.bind]
  cases hrun : m scope s with
  | ok a s' =>
    rw [hrun] at hm
    exact h.leads_trans hm (hf a s')
  | error e s' =>
    rw [hrun] at hm
    exact hm

/-! ### The parts of productions -/

theorem leads_advance (h : Respected scope rel blamed) (s : State) :
    Leads rel blamed s (Parsing.advance scope s) := by
  show Leads rel blamed s ((if ((tokenAt scope.tokens s.position).kind != .endOfFile) = true
    then _ else _ : Parse Token) scope s)
  split
  · rename_i hreal
    exact h.advance s (bne_iff_ne.mp hreal)
  · exact h.refl s

theorem leads_bump (h : Respected scope rel blamed) (s : State) :
    Leads rel blamed s (bump scope s) :=
  h.leads_bind (m := peekKind) (h.refl s) fun _ s => h.leads_bind (h.leads_advance s)
    fun _ s => h.make s _

theorem leads_expectOrMissing (h : Respected scope rel blamed) (mark : Punctuation) (s : State) :
    Leads rel blamed s (expectOrMissing mark scope s) := by
  show Leads rel blamed s ((if (kindAt scope.tokens s.position).isPunctuation mark then bump
    else _ : Parse Node) scope s)
  split
  · exact h.leads_bump s
  · exact h.trans _ _ _ (h.missing s mark _) (h.make _ _)

theorem leads_errorNode (h : Respected scope rel blamed) (start stop : Nat) (s : State) :
    Leads rel blamed s (errorNode? start stop scope s) := by
  have hleaves (tokens : List Token) (s : State) : Leads rel blamed s
      ((tokens.mapM fun token => leaf (symbolOf token.kind) token.span : Parse _) scope s) := by
    induction tokens generalizing s with
    | nil => exact h.refl s
    | cons token tokens ih =>
      rw [List.mapM_cons]
      exact h.leads_bind (h.make s _) fun _ s => h.leads_bind (ih s) fun _ s => h.refl s
  unfold errorNode?
  split
  · exact h.refl s
  · exact h.leads_bind (m := read) (h.refl s) fun _ s => h.leads_bind (hleaves _ s)
      fun _ s => h.leads_bind (m := node _ _) (h.make s _) fun _ s => h.refl s

theorem leads_statementOrError (h : Respected scope rel blamed) (s : State) :
    Leads rel blamed s (statementOrError scope s) := by
  have hstatement := h.deeper .statement s
  show Leads rel blamed s
    (tryCatch (some <$> statement) (Parsing.recover s.position s.made.size) scope s)
  rw [map_eq_pure_bind]
  simp only [tryCatch, tryCatchThe, MonadExceptOf.tryCatch, EStateM.tryCatch, Bind.bind,
    ReaderT.bind, EStateM.bind, statement, descend]
  cases hrun : scope.deeper .statement s with
  | ok n s' =>
    rw [hrun] at hstatement
    exact hstatement
  | error problem s' =>
    exact h.leads_trans (h.recover s problem s' hrun) (h.leads_errorNode _ _ _)

end Respected

/-- Whatever is composed of the parts of productions leads to related states. -/
theorem Composed.leads {α : Type} {m : Parse α} [hm : Composed m] {scope : Scope}
    {rel : State → State → Prop} {blamed : Problem → Prop} (h : Respected scope rel blamed)
    (s : State) : Leads rel blamed s (m scope s) := by
  induction hm generalizing s with
  | pure a => exact h.refl s
  | bind _ _ hm hf => exact h.leads_bind (hm s) hf
  | throw span blamable => exact ⟨h.refl s, h.throw _ span blamable⟩
  | read | get => exact h.refl s
  | advance => exact h.leads_advance s
  | make n => exact h.make s n
  | expectOrMissing mark => exact h.leads_expectOrMissing mark s
  | descend goal => exact h.deeper goal s
  | statementOrError => exact h.leads_statementOrError s

/-! ### Levels -/

/-- A relation that is respected as long as it is respected deeper down is respected at any depth. -/
theorem level_respected {tokens : Array Token} {maxDepth : Nat} {rel : State → State → Prop}
    {blamed : Problem → Prop} (hrefl : ∀ s, rel s s)
    (hdeep : ∀ span, blamed ⟨.tooDeep maxDepth, span⟩)
    (h : ∀ levels, (∀ goal s, Leads rel blamed s (level tokens maxDepth levels goal s)) →
      Respected ⟨tokens, level tokens maxDepth levels⟩ rel blamed) (levels : Nat) :
    Respected ⟨tokens, level tokens maxDepth levels⟩ rel blamed := by
  induction levels with
  | zero => exact h 0 fun goal s => ⟨hrefl s, hdeep _⟩
  | succ levels ih => exact h _ fun goal s => Composed.leads (m := production goal) ih s

/-! ### Later states -/

/-- A state at or behind index `i`; the marks made up on the way stand between the two. -/
structure Reaches (tokens : Array Token) (i : Nat) (s s' : State) : Prop where
  le : i ≤ s'.position
  problems : ∃ ps, s'.problems.toList = s.problems.toList ++ ps ∧
    ∀ p ∈ ps, p.cause.kind = .missing →
      ∃ j, i ≤ j ∧ j ≤ s'.position ∧ p.span = .empty (stopBefore tokens j)

/-- A state that can be reached from another. -/
abbrev Later (tokens : Array Token) (s s' : State) : Prop := Reaches tokens s.position s s'

/-- A state that is reached by reading a token first. -/
abbrev Past (tokens : Array Token) (s s' : State) : Prop := Reaches tokens (s.position + 1) s s'

namespace Reaches
variable {tokens : Array Token} {i j : Nat} {s s' s'' : State}

theorem trans (h : Reaches tokens i s s') (h' : Later tokens s' s'') : Reaches tokens i s s'' := by
  obtain ⟨ps, hps, hmarks⟩ := h.problems
  obtain ⟨ps', hps', hmarks'⟩ := h'.problems
  refine ⟨h.le.trans h'.le, ps ++ ps', by rw [hps', hps, List.append_assoc], fun p hp hmissing => ?_⟩
  rcases List.mem_append.mp hp with hp | hp
  · obtain ⟨j, hj, hstop, hspan⟩ := hmarks p hp hmissing
    exact ⟨j, hj, hstop.trans h'.le, hspan⟩
  · obtain ⟨j, hj, hstop, hspan⟩ := hmarks' p hp hmissing
    exact ⟨j, h.le.trans hj, hstop, hspan⟩

theorem mono (h : Reaches tokens j s s') (hij : i ≤ j) : Reaches tokens i s s' := by
  obtain ⟨ps, hps, hmarks⟩ := h.problems
  refine ⟨hij.trans h.le, ps, hps, fun p hp hmissing => ?_⟩
  obtain ⟨k, hk, hstop, hspan⟩ := hmarks p hp hmissing
  exact ⟨k, hij.trans hk, hstop, hspan⟩

/-- Only tokens have been read. -/
theorem of_problems (hle : i ≤ s'.position) (hproblems : s'.problems = s.problems) :
    Reaches tokens i s s' :=
  ⟨hle, [], by rw [hproblems, List.append_nil], List.forall_mem_nil _⟩

/-- One more report, about something else than a mark made up. -/
theorem push {problem : Problem} {position : Nat} {made : Array Built}
    (h : Reaches tokens i s s') (hle : s'.position ≤ position)
    (hkind : problem.cause.kind ≠ .missing) :
    Reaches tokens i s ⟨position, s'.problems.push problem, made⟩ := by
  obtain ⟨ps, hps, hmarks⟩ := h.problems
  refine ⟨h.le.trans hle, ps ++ [problem], by simp [hps], fun p hp hmissing => ?_⟩
  rcases List.mem_append.mp hp with hp | hp
  · obtain ⟨j, hj, hstop, hspan⟩ := hmarks p hp hmissing
    exact ⟨j, hj, hstop.trans hle, hspan⟩
  · rw [List.mem_singleton.mp hp] at hmissing
    exact absurd hmissing hkind

end Reaches

theorem Later.refl {tokens : Array Token} {s : State} : Later tokens s s :=
  .of_problems (Nat.le_refl _) rfl

/-! ### Steps go forward -/

/-- Whether a problem may be what a step fails for. -/
def Blamed (problem : Problem) : Prop := problem.cause.kind ≠ .missing

/-- Whether what is parsed one level deeper goes forward. -/
def Deepens (scope : Scope) : Prop :=
  ∀ goal s, Leads (Later scope.tokens) Blamed s (scope.deeper goal s)

theorem Deepens.respected {scope : Scope} (hdeep : Deepens scope) :
    Respected scope (Later scope.tokens) Blamed where
  refl _ := .refl
  trans _ _ _ := Reaches.trans
  advance _ _ := .of_problems (Nat.le_succ _) rfl
  make _ _ := .of_problems (Nat.le_refl _) rfl
  missing s mark found := by
    refine ⟨Nat.le_refl _, [_], Array.toList_push, fun p hp _ => ?_⟩
    refine ⟨s.position, Nat.le_refl _, Nat.le_refl _, ?_⟩
    rw [List.mem_singleton.mp hp]
  throw _ _ := id
  deeper := hdeep
  recover s problem s' hrun := by
    have hleads := hdeep .statement s
    rw [hrun] at hleads
    exact hleads.1.push le_resumeFrom hleads.2

/-- Every step goes forward. -/
theorem Composed.onward {α : Type} {m : Parse α} [Composed m] {scope : Scope}
    (hdeep : Deepens scope) (s : State) : Leads (Later scope.tokens) Blamed s (m scope s) :=
  Composed.leads hdeep.respected s

theorem level_deepens (tokens : Array Token) (maxDepth levels : Nat) :
    Deepens ⟨tokens, level tokens maxDepth levels⟩ := by
  have h : Respected ⟨tokens, level tokens maxDepth levels⟩ (Later tokens) Blamed := by
    refine level_respected (fun _ => .refl) (fun _ => nofun) (fun levels hdeep => ?_) levels
    exact Deepens.respected (show Deepens ⟨tokens, level tokens maxDepth levels⟩ from hdeep)
  exact h.deeper

end ScriptTree.Parsing
