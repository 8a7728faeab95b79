import Mathlib
import ScriptTree.Proofs.Parsing.Match

/-! What the productions of operands give. -/
namespace ScriptTree.Parsing

variable {scope : Scope} {b : Nat} {s s₀ : State}

/-! ### Primary expressions -/

theorem primaryContent_reads (hs : Sound scope) :
    Reads scope (some b) primaryContent s (Gives scope.tokens Role.primaries s) := by
  -- Every production here makes one kind of node, which is among the primary ones.
  have hplain : ∀ {kind m}, Reads scope (some b) m s (Gives scope.tokens (Role.plain [kind]) s) →
      Role.plain [kind] ⊆ Role.primaries →
        Reads scope (some b) m s (Gives scope.tokens Role.primaries s) :=
    fun h hsub => h.mono fun _ _ hn => hn.mono hsub
  have hstream := hs.stream
  unfold primaryContent
  rw [reads_peekKind_bind]
  split
  · exact hplain (bump_reads hstream ‹_› rfl) (by decide)
  · exact hplain (bump_reads hstream ‹_› rfl) (by decide)
  · exact hplain (stringLiteral_reads hstream ‹_›) (by decide)
  · exact hplain (regexLiteral_reads hstream ‹_›) (by decide)
  · rw [reads_kindAhead_bind]
    exact .ite (fun _ => hplain (anonymousFunction_reads hs ‹_›) (by decide))
      fun _ => unexpected_reads hstream
  · exact hplain (matchExpression_reads hs ‹_›) (by decide)
  · exact hplain (comptimeIdentifier_reads hstream ‹_›) (by decide)
  · exact hplain (templateString_reads hs ‹_›) (by decide)
  · refine (closesBefore_reads _).bind ?_
    rintro arrow _ rfl
    exact .ite (fun _ => hplain (arrowFunction_reads hs) (by decide))
      fun _ => hplain (parenthesized_reads hs) (by decide)
  · exact hplain (arrayLiteral_reads hs ‹_›) (by decide)
  · exact hplain (objectLiteral_reads hs ‹_›) (by decide)
  · split
    · exact (literalKind_reads hstream ‹_›).mono fun n s' hn => hn.mono (by decide)
    · exact unexpected_reads hstream

theorem primary_reads (hs : Sound scope) :
    Reads scope (some b) primary s (Gives scope.tokens (Role.plain [.primaryExpression]) s) := by
  unfold primary
  refine (primaryContent_reads hs).bind fun content s₁ hcontent => ?_
  exact node_reads hcontent.plain (.one hcontent.role .nil) (by simp) (.free rfl)

/-! ### Calls and members -/

theorem argument_reads (hs : Sound scope) :
    Reads scope (some b) argument s
      (Gives scope.tokens (Role.expressions ++ Role.plain [.spreadArgument]) s) := by
  unfold argument
  rw [reads_sees_bind]
  refine .ite (fun hdots => ?_) fun _ => ?_
  · refine (bump_reads hs.stream (isPunctuation_iff.mp hdots) rfl).bind fun dots s₁ hdots => ?_
    refine (expression_reads hs).bind fun value s₂ hvalue => ?_
    exact node_reads_as (hdots.plain.append hvalue.plain) (.one hdots.role (.one hvalue.role .nil))
      (by simp) (.free rfl) (by decide)
  · exact (expression_reads hs).mono fun n s' hn => hn.mono (List.subset_append_left _ _)

theorem arguments_reads (hs : Sound scope) :
    Reads scope (some b) arguments s (Gives scope.tokens (Role.plain [.argumentList]) s) :=
  listOf_reads hs.stream (fun _ => argument_reads hs) rfl rfl

/-- Only a primary expression has members. -/
theorem requirePrimary_reads (hs : IsStream scope.tokens) {operand : Node}
    (hoperand : Gives scope.tokens Role.operands s₀ operand s) :
    Reads scope (some b) (requirePrimary operand) s fun _ s' =>
      Gives scope.tokens (Role.plain [.primaryExpression]) s₀ operand s ∧ s' = s := by
  unfold requirePrimary
  refine .ite (fun hkind => .pure ⟨hoperand.of_kind hkind, rfl⟩) fun _ => ?_
  rw [reads_peek_bind]
  exact throwHere_reads hs (.inl rfl)

/-- The mark of a member access is a point, or a label of its own. -/
theorem accessMark_reads (hs : IsStream scope.tokens)
    (h : kindAt scope.tokens s.position = .punctuation .questionDot ∨
      kindAt scope.tokens s.position = .punctuation .dot) :
    Reads scope (some b) accessMark s
      (Gives scope.tokens
        (Role.labelled .optionalChain (Role.plain [.optionalChain]) ++ Role.mark .dot) s) := by
  unfold accessMark
  rw [reads_sees_bind]
  refine .ite (fun hchain => ?_) fun hchain => ?_
  · exact (bumpAs_reads hs (isPunctuation_iff.mp hchain) rfl).bind fun n s₁ hn =>
      .pure ((hn.label .optionalChain).mono (by decide))
  · have hdot := h.resolve_left fun hkind => hchain (isPunctuation_iff.mpr hkind)
    exact (bump_reads hs hdot rfl).mono fun n s' hn => hn.mono (by decide)

theorem propertyName_reads (hs : IsStream scope.tokens) :
    Reads scope (some b) propertyName s
      (Gives scope.tokens (Role.plain [.privatePropertyIdentifier, .propertyIdentifier]) s) := by
  unfold propertyName
  rw [reads_sees_bind]
  refine .ite (fun _ => ?_) fun _ => ?_
  · exact (privateName_reads hs).mono fun n s' hn => hn.mono (by decide)
  · exact (expectIdentifier_reads hs rfl).mono fun n s' hn => hn.mono (by decide)

/-- The object has been read since the state `s₀`. -/
theorem member_reads (hs : IsStream scope.tokens) {object : Node}
    (hobject : Gives scope.tokens (Role.plain [.primaryExpression]) s₀ object s)
    (h : kindAt scope.tokens s.position = .punctuation .questionDot ∨
      kindAt scope.tokens s.position = .punctuation .dot) :
    Reads scope (some b) (member object) s fun n s' =>
      Gives scope.tokens (Role.plain [.memberExpression]) s₀ n s' ∧ s.position < s'.position := by
  unfold member
  refine (accessMark_reads hs h).bind fun mark s₁ hmark => ?_
  refine (propertyName_reads hs).bind fun property s₂ hproperty => ?_
  have hobject := hobject.label .object
  have hproperty := hproperty.label .property
  refine .mono (Reads.advancing (node_reads
    ((hobject.plain.append hmark.plain).append hproperty.plain) (.one hobject.role ?_)
    (by simp) (.free rfl)))
    fun n s' hn => ⟨hn.1, (hmark.lt.trans hproperty.lt).trans_le hn.2.le⟩
  rcases List.mem_append.mp hmark.role with hchain | hdot
  · exact .present hchain (.absent (.one hproperty.role .nil))
  · exact .absent (.present hdot (.one hproperty.role .nil))

/-- What a round of an operand gives: the operand read since `s₀`, further on. -/
def Extends (tokens : Array Token) (s₀ s : State) (n : Node) (s' : State) : Prop :=
  Gives tokens Role.operands s₀ n s' ∧ s.position < s'.position

theorem access_reads (hs : IsStream scope.tokens) {operand : Node}
    (hoperand : Gives scope.tokens Role.operands s₀ operand s)
    (h : kindAt scope.tokens s.position = .punctuation .questionDot ∨
      kindAt scope.tokens s.position = .punctuation .dot) :
    Reads scope (some b) (access operand) s (Extends scope.tokens s₀ s) := by
  unfold access
  refine (requirePrimary_reads hs hoperand).bind ?_
  rintro _ s ⟨hoperand, rfl⟩
  refine (member_reads hs hoperand h).bind fun n s₁ ⟨hn, hlt⟩ => ?_
  have hn : Gives scope.tokens Role.primaries s₀ n s₁ := hn.mono (by decide)
  exact .mono (Reads.advancing (node_reads_as hn.plain (.one hn.role .nil)
    (by simp) (.free rfl) (by decide)))
    fun n s' hn => ⟨hn.1, hlt.trans_le hn.2.le⟩

theorem call_reads (hs : Sound scope) {operand : Node}
    (hoperand : Gives scope.tokens Role.operands s₀ operand s) :
    Reads scope (some b) (call operand) s (Extends scope.tokens s₀ s) := by
  unfold call
  refine (arguments_reads hs).bind fun arguments s₁ harguments => ?_
  have hoperand := hoperand.label .function
  have harguments := harguments.label .arguments
  exact .mono (Reads.advancing (node_reads_as (hoperand.plain.append harguments.plain)
    (.one hoperand.role (.absent (.one harguments.role .nil))) (by simp) (.free rfl) (by decide)))
    fun n s' hn => ⟨hn.1, harguments.lt.trans_le hn.2.le⟩

theorem optionalCall_reads (hs : Sound scope) {operand : Node}
    (hoperand : Gives scope.tokens Role.operands s₀ operand s)
    (h : kindAt scope.tokens s.position = .punctuation .questionDot) :
    Reads scope (some b) (optionalCall operand) s (Extends scope.tokens s₀ s) := by
  unfold optionalCall
  refine (requirePrimary_reads hs.stream hoperand).bind ?_
  rintro _ s ⟨_, rfl⟩
  refine (bumpAs_reads hs.stream h rfl).bind fun chain s₁ hchain => ?_
  refine (arguments_reads hs).bind fun arguments s₂ harguments => ?_
  have hoperand := hoperand.label .function
  have hchain := hchain.label .optionalChain
  have harguments := harguments.label .arguments
  exact .mono (Reads.advancing (node_reads_as
    ((hoperand.plain.append hchain.plain).append harguments.plain)
    (.one hoperand.role (.present hchain.role (.one harguments.role .nil)))
    (by simp) (.free rfl) (by decide)))
    fun n s' hn => ⟨hn.1, (hchain.lt.trans harguments.lt).trans_le hn.2.le⟩

theorem operand_reads (hs : Sound scope) :
    Reads scope (some b) operand s (Gives scope.tokens Role.operands s) := by
  unfold operand
  refine (primary_reads hs).bind fun first s₁ hfirst => ?_
  have hfirst : Gives scope.tokens Role.operands s first s₁ := hfirst.mono (by decide)
  refine Reads.loop _ hfirst fun n s₁ hn => ?_
  unfold extend
  rw [reads_peekKind_bind]
  split
  · exact (call_reads hs hn).bind fun n s₂ hn => .pure hn
  · rw [reads_kindAhead_bind]
    exact .ite (fun _ => (optionalCall_reads hs hn ‹_›).bind fun n s₂ hn => .pure hn)
      fun _ => (access_reads hs.stream hn (.inl ‹_›)).bind fun n s₂ hn => .pure hn
  · exact (access_reads hs.stream hn (.inr ‹_›)).bind fun n s₂ hn => .pure hn
  · exact .pure hn

end ScriptTree.Parsing
