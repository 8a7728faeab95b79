import Mathlib
import ScriptTree.Proofs.Mirror.Operands
import ScriptTree.Proofs.Parsing.Operations

/-! The productions of assignments, patterns and operators in two runs. -/
namespace ScriptTree.Parsing

variable {W : World} {S : Stage W} {s t : State} {ends : Node → State → Prop} [Vital W ends]

/-! ### Assignments -/

section Targets
variable {operand operand' : Node}

omit [Vital W ends] in
theorem assignmentTarget_mirrors (hS : S.Coherent) {allowed : List NodeKind}
    (h : W.like operand operand') :
    Mirrors S ends (assignmentTarget operand allowed) s (assignmentTarget operand' allowed) t
      W.Nodes := by
  have hfail : W.problem ⟨.invalidTarget, operand.span⟩ ⟨.invalidTarget, operand'.span⟩ :=
    hS.world.blamed _ h
  have hchildren := hS.world.children h
  unfold assignmentTarget
  generalize operand.children = children at hchildren
  generalize operand'.children = children' at hchildren
  cases hchildren with
  | nil => exact .throws hfail
  | cons hinner hrest =>
    cases hrest with
    | nil =>
      dsimp only
      rw [hS.world.kind h, hS.world.kind hinner]
      exact .ite Iff.rfl (fun _ => .pure hinner) fun _ => .throws hfail
    | cons _ _ => exact .throws hfail

theorem assignmentRest_mirrors (hS : S.Coherent) (h : W.like operand operand') :
    Mirrors S ends (assignmentRest operand) s (assignmentRest operand') t W.Nodes := by
  unfold assignmentRest
  refine (expectOperator_mirrors hS).bind hS fun sign s₁ sign' t₁ hsign => ?_
  refine (expression_mirrors hS).bind hS fun value s₂ value' t₂ hvalue => ?_
  refine (expectOrMissing_mirrors hS).bind hS fun stop s₃ stop' t₃ hstop => ?_
  exact node_mirrors hS (.cons (hS.world.withField _ h) (.cons hsign
    (.cons (hS.world.withField _ hvalue) (.cons hstop .nil)))) (by simp)

theorem augmentedRest_mirrors (hS : S.Coherent) (h : W.like operand operand')
    (hreal : kindAt W.left s.position ≠ .endOfFile) :
    Mirrors S ends (augmentedRest operand) s (augmentedRest operand') t W.Nodes := by
  unfold augmentedRest
  refine (bump_mirrors hS hreal).bind hS fun sign s₁ sign' t₁ hsign => ?_
  refine (expression_mirrors hS).bind hS fun value s₂ value' t₂ hvalue => ?_
  exact node_mirrors hS (.cons (hS.world.withField _ h) (.cons (hS.world.withField _ hsign)
    (.cons (hS.world.withField _ hvalue) .nil))) (by simp)

theorem assignmentOr_mirrors (hS : S.Coherent) (h : W.like operand operand') :
    Mirrors S ends (assignmentOr operand) s (assignmentOr operand') t W.Nodes := by
  refine .of_aligned fun haligned => ?_
  unfold assignmentOr
  rw [mirrors_peekKind_bind]
  by_cases hclear : W.Clear s
  · have hlike := hS.world.kindLike haligned hclear
    generalize hkind : kindAt W.left s.position = kind at hlike
    generalize kindAt W.right t.position = kind' at hlike
    cases hlike with
    | refl =>
      split
      · have hreal : kindAt W.left s.position ≠ .endOfFile := by simp [hkind]
        refine .ite Iff.rfl (fun _ => ?_) fun _ => .ite Iff.rfl (fun _ => ?_) fun _ => .pure h
        · exact (assignmentTarget_mirrors hS h).bind hS fun _ _ _ _ htarget =>
            assignmentRest_mirrors hS htarget
        · exact (assignmentTarget_mirrors hS h).bindStill hS fun _ _ htarget =>
            augmentedRest_mirrors hS htarget hreal
      · exact .pure h
    | identifier | number | string | regex => exact .pure h
  · obtain ⟨mark, hmark⟩ := Option.ne_none_iff_exists'.mp hclear
    obtain ⟨hright, -⟩ := hS.world.ahead haligned hmark
    rw [hright]
    generalize hkind : kindAt W.left s.position = kind
    split
    · have hreal : kindAt W.left s.position ≠ .endOfFile := by simp [hkind]
      split
      · exact .of_dies (dies_of_forward hS hreal hclear)
      · split
        · exact .of_dies (dies_of_forward hS hreal hclear)
        · exact .pure h
    · exact .pure h

end Targets

/-! ### Patterns -/

theorem target_mirrors (hS : S.Coherent) : Mirrors S ends target s target t W.Nodes := by
  refine .fresh hS (target_reads hS.sound) (fun _ _ h => h.lt) fun hclear => ?_
  refine .of_aligned fun haligned => ?_
  have hlike := hS.world.kindLike haligned hclear
  have hoperand : Mirrors S ends (operand >>= fun n => assignmentTarget n
      [.identifier, .memberExpression]) s (operand >>= fun n => assignmentTarget n
        [.identifier, .memberExpression]) t W.Nodes :=
    (operand_mirrors hS).bind hS fun _ _ _ _ hn => assignmentTarget_mirrors hS hn
  unfold target
  rw [mirrors_peekKind_bind]
  generalize kindAt W.left s.position = kind at hlike
  generalize kindAt W.right t.position = kind' at hlike
  cases hlike with
  | refl =>
    split
    · exact descend_mirrors hS trivial
    · exact descend_mirrors hS trivial
    · exact hoperand
  | identifier | number | string | regex => exact hoperand

theorem restPattern_mirrors (hS : S.Coherent) (hreal : kindAt W.left s.position ≠ .endOfFile) :
    Mirrors S ends restPattern s restPattern t W.Nodes := by
  unfold restPattern
  refine (bump_mirrors hS hreal).bind hS fun dots s₁ dots' t₁ hdots => ?_
  exact (target_mirrors hS).bind hS fun n s₂ n' t₂ hn =>
    node_mirrors hS (.cons hdots (.cons hn .nil)) (by simp)

theorem pattern_mirrors (hS : S.Coherent) : Mirrors S ends pattern s pattern t W.Nodes := by
  have hellipsis := telling_mark .ellipsis (by decide)
  have hcontent : Mirrors S W.Live patternContent s patternContent t W.Nodes := by
    unfold patternContent
    rw [mirrors_sees_bind]
    exact .branch hS hellipsis (fun _ hkind => restPattern_mirrors hS (hellipsis.real_of hkind))
      fun _ => target_mirrors hS
  unfold pattern
  exact hcontent.bind hS fun n s₁ n' t₁ hn => node_mirrors hS (.cons hn .nil) (by simp)

theorem patternWithDefault_mirrors (hS : S.Coherent) :
    Mirrors S ends patternWithDefault s patternWithDefault t W.Nodes := by
  have hsign := telling_operator .assign
  unfold patternWithDefault
  refine (descend_mirrors hS (by trivial)).bind hS fun pattern s₁ pattern' t₁ hpattern => ?_
  rw [mirrors_seesOperator_bind]
  refine .branch hS hsign (fun _ hkind => ?_) fun _ => .pure hpattern
  refine (bump_mirrors hS (hsign.real_of hkind)).bind hS fun sign s₂ sign' t₂ hsign => ?_
  refine (expression_mirrors hS).bind hS fun value s₃ value' t₃ hvalue => ?_
  exact node_mirrors hS (.cons (hS.world.withField _ hpattern) (.cons hsign
    (.cons (hS.world.withField _ hvalue) .nil))) (by simp)

theorem pairRest_mirrors (hS : S.Coherent) {key key' : Node} (h : W.like key key') :
    Mirrors S ends (pairRest key) s (pairRest key') t W.Nodes := by
  unfold pairRest
  refine (expect_mirrors hS).bind hS fun colon s₁ colon' t₁ hcolon => ?_
  refine (patternWithDefault_mirrors hS).bind hS fun value s₂ value' t₂ hvalue => ?_
  exact node_mirrors hS (.cons (hS.world.withField _ h) (.cons hcolon
    (.cons (hS.world.withField _ hvalue) .nil))) (by simp)

/-- A private name is an identifier behind its mark. -/
theorem privateName_identifier {scope : Scope} {b : Nat} (hs : IsStream scope.tokens) :
    Reads scope (some b) privateName s fun _ _ =>
      (kindAt scope.tokens (s.position + 1)).isIdentifier = true := by
  have hmark : Reads scope (some b) (expect .hash) s fun _ s' => s'.position = s.position + 1 := by
    unfold expect
    rw [reads_sees_bind]
    exact .ite (fun h => (bump_next hs (isPunctuation_iff.mp h) rfl).mono fun _ _ hn => hn.2)
      fun _ => unexpected_reads hs
  unfold privateName
  refine hmark.bind fun mark s₁ hposition => ?_
  rw [← hposition]
  have hname : Reads scope (some b) (expectIdentifier .identifier (.identifierAfter .hash)) s₁
      fun _ _ => (kindAt scope.tokens s₁.position).isIdentifier = true := by
    unfold expectIdentifier
    rw [reads_seesIdentifier_bind]
    refine .ite (fun h => ?_) fun _ => unexpected_reads hs
    obtain ⟨name, hkind⟩ := isIdentifier_iff.mp h
    exact (bumpAs_reads hs hkind rfl).mono fun _ _ _ => h
  exact hname.bind fun name s₂ h => make_reads.mono fun _ _ _ => h

theorem objectPatternMember_mirrors (hS : S.Coherent) :
    Mirrors S ends objectPatternMember s objectPatternMember t W.Nodes := by
  refine .fresh hS (objectPatternMember_reads hS.sound) (fun _ _ h => h.lt) fun hclear => ?_
  refine .of_aligned fun haligned => ?_
  have hlike := hS.world.kindLike haligned hclear
  have hforeseen := hS.world.foreseen haligned hclear
  unfold objectPatternMember
  rw [mirrors_peekKind_bind]
  have hnamed (hkind : (kindAt W.left s.position).isIdentifier = true) :
      Mirrors S ends (kindAhead 1 >>= fun next => if next.isPunctuation .colon = true
          then bumpAs .identifier >>= pairRest
          else bumpAs .shorthandPropertyIdentifierPattern) s
        (kindAhead 1 >>= fun next => if next.isPunctuation .colon = true
          then bumpAs .identifier >>= pairRest
          else bumpAs .shorthandPropertyIdentifierPattern) t W.Nodes := by
    have hreal := telling_identifier.real_of hkind
    rw [mirrors_kindAhead_bind, hforeseen.colon hkind]
    refine .ite Iff.rfl (fun _ => ?_) fun _ => bumpAs_mirrors hS hreal
    exact (bumpAs_mirrors hS hreal).bind hS fun _ _ _ _ hkey => pairRest_mirrors hS hkey
  generalize hkind : kindAt W.left s.position = kind at hlike
  generalize kindAt W.right t.position = kind' at hlike
  cases hlike with
  | refl =>
    split
    · exact restPattern_mirrors hS (by simp [hkind])
    · rw [mirrors_kindAhead_bind]
      refine ((privateName_mirrors hS).reading hS
        (privateName_identifier hS.world.streamLeft)).bind hS fun name s₁ name' t₁ hboth => ?_
      obtain ⟨hname, hnext⟩ := hboth
      rw [hforeseen.paired hkind hnext]
      exact .ite Iff.rfl (fun _ => pairRest_mirrors hS hname)
        fun _ => node_mirrors hS (.cons hname .nil) (by simp)
    · exact hnamed (by rw [hkind]; rfl)
    · exact unexpected_mirrors hS
  | identifier => exact hnamed (by rw [hkind]; rfl)
  | number | string | regex => exact unexpected_mirrors hS

theorem objectPattern_mirrors (hS : S.Coherent) :
    Mirrors S ends objectPattern s objectPattern t W.Nodes :=
  listOf_mirrors hS (fun _ => objectPatternMember_reads hS.sound)
    fun _ _ => objectPatternMember_mirrors hS

theorem arrayPattern_mirrors (hS : S.Coherent) :
    Mirrors S ends arrayPattern s arrayPattern t W.Nodes :=
  listOf_mirrors hS (fun _ => patternWithDefault_reads hS.sound)
    fun _ _ => patternWithDefault_mirrors hS

theorem destructuringPattern_mirrors (hS : S.Coherent) :
    Mirrors S ends destructuringPattern s destructuringPattern t W.Nodes := by
  unfold destructuringPattern
  rw [mirrors_sees_bind]
  exact .branch hS (telling_mark .leftBrace (by decide))
    (fun _ _ => objectPattern_mirrors hS) fun _ => arrayPattern_mirrors hS

theorem destructuringAssignment_mirrors (hS : S.Coherent) :
    Mirrors S ends destructuringAssignment s destructuringAssignment t W.Nodes := by
  unfold destructuringAssignment
  exact (destructuringPattern_mirrors hS).bind hS fun _ _ _ _ hn => assignmentRest_mirrors hS hn

/-! ### Unary level -/

theorem unaryOperation_mirrors (hS : S.Coherent) (hreal : kindAt W.left s.position ≠ .endOfFile) :
    Mirrors S ends unaryOperation s unaryOperation t W.Nodes := by
  unfold unaryOperation
  refine (bump_mirrors hS hreal).bind hS fun o s₁ o' t₁ ho => ?_
  exact (descend_mirrors hS (by trivial)).bind hS fun n s₂ n' t₂ hn =>
    node_mirrors hS (.cons (hS.world.withField _ ho) (.cons (hS.world.withField _ hn) .nil))
      (by simp)

theorem privateMembership_mirrors (hS : S.Coherent) :
    Mirrors S ends privateMembership s privateMembership t W.Nodes := by
  unfold privateMembership
  refine (privateName_mirrors hS).bind hS fun left s₁ left' t₁ hleft => ?_
  refine (expectWord_mirrors hS).bind hS fun o s₂ o' t₂ ho => ?_
  exact (descend_mirrors hS (by trivial)).bind hS fun right s₃ right' t₃ hright =>
    node_mirrors hS (.cons (hS.world.withField _ hleft) (.cons (hS.world.withField _ ho)
      (.cons (hS.world.withField _ hright) .nil))) (by simp)

theorem ifTernary_mirrors (hS : S.Coherent) (hreal : kindAt W.left s.position ≠ .endOfFile) :
    Mirrors S ends ifTernary s ifTernary t W.Nodes := by
  unfold ifTernary
  refine (bump_mirrors hS hreal).bind hS fun word s₁ word' t₁ hword => ?_
  refine (parenthesized_mirrors hS).bind hS fun condition s₂ condition' t₂ hcondition => ?_
  refine (expression_mirrors hS).bind hS fun consequence s₃ consequence' t₃ hconsequence => ?_
  refine (expectWord_mirrors hS).bind hS fun otherwise s₄ otherwise' t₄ hotherwise => ?_
  refine (expression_mirrors hS).bind hS fun alternative s₅ alternative' t₅ halternative => ?_
  exact node_mirrors hS (.cons hword (.cons (hS.world.withField _ hcondition)
    (.cons (hS.world.withField _ hconsequence) (.cons hotherwise
      (.cons (hS.world.withField _ halternative) .nil))))) (by simp)

theorem unary_mirrors (hS : S.Coherent) : Mirrors S ends unary s unary t W.Nodes := by
  refine .fresh hS (unary_reads hS.sound) (fun _ _ h => h.1.lt) fun hclear => ?_
  refine .of_aligned fun haligned => ?_
  have hlike := hS.world.kindLike haligned hclear
  have hoperand : Mirrors S ends (operand >>= assignmentOr) s (operand >>= assignmentOr) t
      W.Nodes :=
    (operand_mirrors hS).bind hS fun _ _ _ _ hn => assignmentOr_mirrors hS hn
  have hupdate : Mirrors S ends (peek >>= fun token => throw ⟨.updateExpression, token.span⟩) s
      (peek >>= fun token => throw ⟨.updateExpression, token.span⟩) t W.Nodes := by
    rw [mirrors_peek_bind]
    exact .throws ((hS.world.token haligned hclear).blamed _)
  unfold unary
  rw [mirrors_peekKind_bind]
  generalize hkind : kindAt W.left s.position = kind at hlike
  generalize kindAt W.right t.position = kind' at hlike
  cases hlike with
  | refl =>
    split
    · exact ifTernary_mirrors hS (by simp [hkind])
    · exact unaryOperation_mirrors hS (by simp [hkind])
    · exact unaryOperation_mirrors hS (by simp [hkind])
    · exact hupdate
    · exact hupdate
    · exact privateMembership_mirrors hS
    · exact .ite Iff.rfl (fun _ => unaryOperation_mirrors hS (by simp [hkind])) fun _ => hoperand
    · exact hoperand
  | identifier | number | string | regex => exact hoperand

/-! ### Binary level -/

theorem isAssignment_eq (hS : S.Coherent) {n n' : Node} (h : W.like n n') :
    isAssignment n = isAssignment n' := by
  rw [isAssignment, isAssignment, hS.world.kind h]

theorem binding_real {kind : TokenKind} {binding : Nat × Associativity}
    (h : (binaryOperator? kind).bind Operator.binding? = some binding) : kind ≠ .endOfFile := by
  rintro rfl
  cases h

/-- An operator is read where nothing is pending; in front of a pending mark, the expression ends on
both sides. -/
theorem operateOn_mirrors (hS : S.Coherent) {least : Nat} {left left' : Node}
    (h : W.like left left') :
    Mirrors S (W.Between ends) (operateOn least left) s (operateOn least left') t
      (Abreast s W.Nodes W.Nodes) := by
  refine .of_aligned fun haligned => ?_
  unfold operateOn
  rw [isAssignment_eq hS h]
  refine .ite Iff.rfl (fun _ => .pure (.done h)) fun _ => ?_
  rw [mirrors_peekKind_bind]
  by_cases hclear : W.Clear s
  · rw [← (hS.world.kindLike haligned hclear).binaryOperator_eq]
    split
    · exact .pure (.done h)
    · have hreal := binding_real ‹_›
      refine .ite Iff.rfl (fun _ => .pure (.done h)) fun _ => .advancing hS hreal ?_
      refine (bump_mirrors hS hreal).bind hS fun o s₁ o' t₁ ho => ?_
      refine (descend_mirrors hS (by trivial)).bind hS fun right s₂ right' t₂ hright => ?_
      exact (node_mirrors hS (.cons (hS.world.withField _ h) (.cons (hS.world.withField _ ho)
        (.cons (hS.world.withField _ hright) .nil))) (by simp)).bind hS fun _ _ _ _ hn => .pure hn
  · obtain ⟨mark, hmark⟩ := Option.ne_none_iff_exists'.mp hclear
    obtain ⟨hright, -⟩ := hS.world.ahead haligned hmark
    rw [hright]
    split
    · exact .pure (.done h)
    · have hreal := binding_real ‹_›
      split
      · exact .pure (.done h)
      · exact .of_dies (dies_of_forward hS hreal hclear)

theorem binary_mirrors (hS : S.Coherent) {least : Nat} :
    Mirrors S ends (binary least) s (binary least) t W.Nodes := by
  unfold binary
  exact (unary_mirrors hS).bind hS fun first s₁ first' t₁ hfirst =>
    repeatFrom_mirrors (R := W.Nodes) hS hfirst fun _ _ _ _ h => operateOn_mirrors hS h

end ScriptTree.Parsing
