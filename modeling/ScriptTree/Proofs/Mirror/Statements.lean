import Mathlib
import ScriptTree.Proofs.Mirror.Operations
import ScriptTree.Proofs.Parsing.Statements

/-! The productions of statements in two runs, and with them whole programs.

`level_coherent` goes by induction on the levels that are left: what is parsed one level deeper is
mirrored, so what is parsed on a level is. -/
namespace ScriptTree.Parsing

variable {W : World} {S : Stage W} {s t : State}

section Productions
variable {ends : Node → State → Prop} [Vital W ends]

/-! ### Declarations -/

theorem initializer_mirrors (hS : S.Coherent) {ends : Array Node → State → Prop} [Vital W ends]
    (hreal : kindAt W.left s.position ≠ .endOfFile) :
    Mirrors S ends initializer s initializer t W.Lists := by
  unfold initializer
  refine (bump_mirrors hS hreal).bind hS fun sign s₁ sign' t₁ hsign => ?_
  exact (expression_mirrors hS).bind hS fun n s₂ n' t₂ hn =>
    .pure (.cons hsign (.cons (hS.world.withField _ hn) .nil))

theorem variableDeclaration_mirrors (hS : S.Coherent)
    (hreal : kindAt W.left s.position ≠ .endOfFile) :
    Mirrors S ends variableDeclaration s variableDeclaration t W.Nodes := by
  have hcolon := telling_mark .colon (by decide)
  have hsign := telling_operator .assign
  refine .of_clear (fun _ => dies_of_forward hS hreal) fun hclear => .of_aligned fun haligned => ?_
  unfold variableDeclaration
  rw [mirrors_seesWord_bind, (hS.world.kindLike haligned hclear).isKeyword_eq]
  refine (bumpAs_mirrors hS hreal).bind hS fun mark s₁ mark' t₁ hmark => ?_
  refine (expectIdentifier_mirrors hS rfl).bind hS fun name s₂ name' t₂ hname => ?_
  rw [mirrors_sees_bind]
  refine (optionally_mirrors hS hcolon fun _ _ => ?_).bind hS fun type s₃ type' t₃ htype => ?_
  · exact (typeAscription_mirrors hS).bind hS fun n s₃ n' t₃ hn => .pure (.cons hn .nil)
  rw [mirrors_seesOperator_bind]
  refine (optionally_mirrors hS hsign fun _ hkind => ?_).bind hS fun value s₄ value' t₄ hvalue => ?_
  · exact initializer_mirrors hS (hsign.real_of hkind)
  refine (expectOrMissing_mirrors hS).bind hS fun stop s₅ stop' t₅ hstop => ?_
  have hhead : W.Alike #[mark.withField .kind, name.withField .declaredName]
      #[mark'.withField .kind, name'.withField .declaredName] :=
    .cons (hS.world.withField _ hmark) (.cons (hS.world.withField _ hname) .nil)
  exact node_mirrors hS (((hhead.append htype).append hvalue).append (.cons hstop .nil)) (by simp)

theorem enumDeclaration_mirrors (hS : S.Coherent) (hreal : kindAt W.left s.position ≠ .endOfFile) :
    Mirrors S ends enumDeclaration s enumDeclaration t W.Nodes := by
  have hcomma := telling_mark .comma (by decide)
  have hreads (s : State) : Reads S.left (some s.position) enumMember s _ :=
    expectIdentifier_reads hS.world.streamLeft rfl
  unfold enumDeclaration
  dsimp only
  refine (bump_mirrors hS hreal).bind hS fun word s₁ word' t₁ hword => ?_
  refine (expectIdentifier_mirrors hS rfl).bind hS fun name s₂ name' t₂ hname => ?_
  refine (expect_mirrors hS).bind hS fun opening s₃ opening' t₃ hopening => ?_
  refine (expectIdentifier_mirrors hS rfl).bind hS fun first s₄ first' t₄ hfirst => ?_
  refine collect_mirrors hS (.cons hword (.cons hname (.cons hopening (.cons hfirst .nil))))
    fun children s₅ children' t₅ h => ?_
  rw [mirrors_sees_bind]
  refine .branch hS hcomma (fun _ hkind => ?_) fun _ => .pure (.done h)
  have hreal := hcomma.real_of hkind
  refine .advancing hS hreal ((bump_mirrors hS hreal).bind hS fun comma s₆ comma' t₆ hlast => ?_)
  have h := h.push hlast
  refine (unlessClosing_mirrors hS h (dies_of_item hS (hreads s₆)) ?_).mono fun _ _ _ h => h.1
  have hmember : Mirrors S W.Live enumMember s₆ enumMember t₆ W.Nodes :=
    expectIdentifier_mirrors hS rfl
  exact (hmember.reading hS (hreads s₆)).bind hS fun n s₇ n' t₇ hn =>
    .pure ⟨h.push hn.1, fun _ _ => hn.2.lt⟩

/-! ### Statements -/

theorem alternative_mirrors (hS : S.Coherent) :
    Mirrors S ends alternative s alternative t W.Nodes := by
  unfold alternative
  rw [mirrors_seesWord_bind]
  exact .branch hS (telling_word .ifWord)
    (fun _ hkind => descend_mirrors hS (isKeyword_iff.mp hkind)) fun _ => block_mirrors hS

theorem ifStatement_mirrors (hS : S.Coherent) (hreal : kindAt W.left s.position ≠ .endOfFile) :
    Mirrors S ends ifStatement s ifStatement t W.Nodes := by
  have helse := telling_word .elseWord
  unfold ifStatement
  refine (bump_mirrors hS hreal).bind hS fun word s₁ word' t₁ hword => ?_
  refine (parenthesized_mirrors hS).bind hS fun condition s₂ condition' t₂ hcondition => ?_
  refine (block_mirrors hS).bind hS fun consequence s₃ consequence' t₃ hconsequence => ?_
  rw [mirrors_seesWord_bind]
  refine (optionally_mirrors hS helse fun _ hkind => ?_).bind hS fun rest s₄ rest' t₄ hrest => ?_
  · unfold elseBranch
    refine (bump_mirrors hS (helse.real_of hkind)).bind hS fun word s₄ word' t₄ hword => ?_
    exact (alternative_mirrors hS).bind hS fun n s₅ n' t₅ hn =>
      .pure (.cons hword (.cons (hS.world.withField _ hn) .nil))
  have hhead : W.Alike #[word, condition.withField .condition, consequence.withField .consequence]
      #[word', condition'.withField .condition, consequence'.withField .consequence] :=
    .cons hword (.cons (hS.world.withField _ hcondition)
      (.cons (hS.world.withField _ hconsequence) .nil))
  exact node_mirrors hS (hhead.append hrest) (by simp)

theorem returnStatement_mirrors (hS : S.Coherent) (hreal : kindAt W.left s.position ≠ .endOfFile) :
    Mirrors S ends returnStatement s returnStatement t W.Nodes := by
  unfold returnStatement
  refine (bump_mirrors hS hreal).bind hS fun word s₁ word' t₁ hword => ?_
  refine (expression_mirrors hS).bind hS fun value s₂ value' t₂ hvalue => ?_
  exact (expectOrMissing_mirrors hS).bind hS fun stop s₃ stop' t₃ hstop =>
    node_mirrors hS (.cons hword (.cons hvalue (.cons hstop .nil))) (by simp)

theorem breakStatement_mirrors (hS : S.Coherent) (hreal : kindAt W.left s.position ≠ .endOfFile) :
    Mirrors S ends breakStatement s breakStatement t W.Nodes := by
  unfold breakStatement
  refine (bump_mirrors hS hreal).bind hS fun word s₁ word' t₁ hword => ?_
  exact (expectOrMissing_mirrors hS).bind hS fun stop s₂ stop' t₂ hstop =>
    node_mirrors hS (.cons hword (.cons hstop .nil)) (by simp)

theorem standAlone_composed (start : Span) (value : Node) : Composed (match value.kind? with
    | some .assignmentExpression => Pure.pure value
    | some .callExpression => do node .callStatement #[value, ← expectOrMissing .semicolon]
    | _ => throw ⟨.notAStatement, start.merge value.span⟩ : Parse Node) := by
  split <;> infer_instance

theorem expressionStatement_mirrors (hS : S.Coherent) :
    Mirrors S ends expressionStatement s expressionStatement t W.Nodes := by
  have := standAlone_composed
  refine .fresh hS (expressionStatement_reads hS.sound) (fun _ _ h => h.lt) fun hclear => ?_
  refine .of_aligned fun haligned => ?_
  unfold expressionStatement
  rw [mirrors_peek_bind]
  refine (expression_mirrors hS).bind hS fun value s₁ value' t₁ hvalue => ?_
  rw [hS.world.kind hvalue]
  split
  · exact .pure hvalue
  · exact (expectOrMissing_mirrors hS).bind hS fun stop s₂ stop' t₂ hstop =>
      node_mirrors hS (.cons hvalue (.cons hstop .nil)) (by simp)
  · exact .throws (hS.world.merged _ (hS.world.token haligned hclear) hvalue)

theorem anyStatement_mirrors (hS : S.Coherent) :
    Mirrors S ends anyStatement s anyStatement t W.Nodes := by
  refine .fresh hS (anyStatement_reads hS.sound) (fun _ _ h => h.lt) fun hclear => ?_
  refine .of_aligned fun haligned => ?_
  have hlike := hS.world.kindLike haligned hclear
  have hforeseen := hS.world.foreseen haligned hclear
  unfold anyStatement opensAssignment
  rw [mirrors_peekKind_bind]
  generalize hkind : kindAt W.left s.position = kind at hlike
  generalize kindAt W.right t.position = kind' at hlike
  cases hlike with
  | refl =>
    split
    · have hnext := hforeseen.next (by rw [hkind]; decide)
      rw [mirrors_kindAhead_bind, hnext.isIdentifier_eq]
      exact .ite Iff.rfl (fun _ => functionDeclaration_mirrors hS (by simp [hkind]))
        fun _ => expressionStatement_mirrors hS
    · exact variableDeclaration_mirrors hS (by simp [hkind])
    · exact variableDeclaration_mirrors hS (by simp [hkind])
    · exact matchExpression_mirrors hS (by simp [hkind])
    · exact enumDeclaration_mirrors hS (by simp [hkind])
    · exact ifStatement_mirrors hS (by simp [hkind])
    · exact returnStatement_mirrors hS (by simp [hkind])
    · exact breakStatement_mirrors hS (by simp [hkind])
    · rw [mirrors_closesBefore_bind, hforeseen.closes (by rw [hkind]; rfl) _ (by simp)]
      exact .ite Iff.rfl (fun _ => destructuringAssignment_mirrors hS) fun _ => block_mirrors hS
    · rw [mirrors_closesBefore_bind, hforeseen.closes (by rw [hkind]; rfl) _ (by simp)]
      exact .ite Iff.rfl (fun _ => destructuringAssignment_mirrors hS)
        fun _ => expressionStatement_mirrors hS
    · exact expressionStatement_mirrors hS
  | identifier | number | string | regex => exact expressionStatement_mirrors hS

/-! ### Levels -/

theorem production_mirrors (hS : S.Coherent) (goal : Goal)
    (hready : goal.Ready (kindAt W.left s.position)) :
    Mirrors S ends (production goal) s (production goal) t W.Nodes := by
  cases goal with
  | statement => exact anyStatement_mirrors hS
  | ifStatement =>
    refine ifStatement_mirrors hS ?_
    rw [show kindAt W.left s.position = _ from hready]
    exact nofun
  | binary least => exact binary_mirrors hS
  | unary => exact unary_mirrors hS
  | type => exact unionType_mirrors hS
  | pattern => exact pattern_mirrors hS
  | objectPattern => exact objectPattern_mirrors hS
  | arrayPattern => exact arrayPattern_mirrors hS

end Productions

/-- The levels of two runs, the right one with `more` levels in reserve. -/
def World.stage (W : World) (maxDepth maxDepth' more levels : Nat) : Stage W :=
  ⟨level W.left maxDepth levels, level W.right maxDepth' (more + levels)⟩

/-- Levels mirror each other, if they end together or the end of the left ones does not count. -/
theorem level_coherent (hW : W.Coherent) {maxDepth maxDepth' more : Nat}
    (hdeep : (more = 0 ∧ maxDepth = maxDepth') ∨
      ∀ (s : State) span, ¬W.live (s.report ⟨.tooDeep maxDepth, span⟩)) (levels : Nat) :
    (W.stage maxDepth maxDepth' more levels).Coherent := by
  induction levels with
  | zero =>
    refine ⟨hW, level_sound hW.streamLeft maxDepth 0, level_deepens _ _ _, level_urges _ _ _,
      fun goal s t _ hclear haligned hlive => ?_⟩
    rcases hdeep with ⟨rfl, rfl⟩ | hdeep
    · exact ⟨_, t, rfl, haligned, (hW.token haligned hclear).blamed _⟩
    · exact absurd hlive (hdeep s _)
  | succ levels ih =>
    exact ⟨hW, level_sound hW.streamLeft maxDepth (levels + 1), level_deepens _ _ _,
      level_urges _ _ _, fun goal s t hready _ => production_mirrors ih goal hready⟩

/-- Two programs: if the left one ends as it has to, so does the right one, with nodes alike. -/
theorem runProgram_mirrors (hW : W.Coherent) {maxDepth maxDepth' more : Nat}
    (hdeep : (more = 0 ∧ maxDepth = maxDepth') ∨
      ∀ (s : State) span, ¬W.live (s.report ⟨.tooDeep maxDepth, span⟩))
    (hmore : maxDepth' = more + maxDepth) (haligned : W.aligned {} {})
    (hlive : W.live (runProgram W.left maxDepth).2) (hclear : W.Clear (runProgram W.left maxDepth).2) :
    W.aligned (runProgram W.left maxDepth).2 (runProgram W.right maxDepth').2 ∧
      W.Alike (runProgram W.left maxDepth).1 (runProgram W.right maxDepth').1 := by
  have hrun : Mirrors (W.stage maxDepth maxDepth' more maxDepth) (W.Resting false)
      (statements false #[]) {} (statements false #[]) {} W.Lists :=
    statements_mirrors (level_coherent hW hdeep maxDepth) .nil
  have hrun := hrun haligned
  have hleft : statements false #[] (W.stage maxDepth maxDepth' more maxDepth).left {} = _ :=
    runProgram_ok hW.streamLeft maxDepth
  rw [hleft] at hrun
  obtain ⟨nodes, t, hright, haligned', hnodes⟩ := hrun ⟨hlive, .inl hclear⟩
  subst hmore
  have hsame := hright.symm.trans (runProgram_ok hW.streamRight (more + maxDepth))
  injection hsame with hvalue hstate
  rw [← hvalue, ← hstate]
  exact ⟨haligned', hnodes⟩

end ScriptTree.Parsing
