import Mathlib
import ScriptTree.Proofs.Parsing.Assignments

/-! What the productions of expressions with operators give. -/
namespace ScriptTree.Parsing

variable {scope : Scope} {b : Nat} {s s₀ : State}

/-! ### Binary expressions -/

/-- A binary operator is read as a leaf and stands in trees under its own symbol. -/
theorem binaryOperator_mem {kind : TokenKind} {binding : Nat × Associativity}
    (hword : ∀ o, kind = .operator o → o.isWord = false)
    (h : (binaryOperator? kind).bind Operator.binding? = some binding) :
    isWhole kind = true ∧ (none, symbolOf kind) ∈ Role.operators Operator.isBinary := by
  obtain ⟨o, ho, hbinding⟩ := Option.bind_eq_some_iff.mp h
  have hbinary : o.isBinary = true := by
    rw [Operator.isBinary, hbinding]
    rfl
  rw [binaryOperator?.eq_def] at ho
  split at ho <;> cases ho
  · exact ⟨rfl, operator_mem (hword o rfl) hbinary⟩
  · exact ⟨rfl, by decide⟩
  · exact ⟨rfl, by decide⟩

/-- Making a binary expression over what was read since the state `s₀`. It can be an operand again:
what its right operand leaves, it leaves too. -/
theorem binaryNode_reads {left sign right : Node} {own : Nat × Associativity}
    (h : Made scope.tokens s₀ s
      [left.withField .left, sign.withField .operator, right.withField .right])
    (hleft : left.role ∈ Role.expressions ++ Role.plain [.privatePropertyIdentifier])
    (hsign : sign.role ∈ Role.operators Operator.isBinary) (hright : right.role ∈ Role.expressions)
    (hown : sign.symbol.operator?.bind Operator.binding? = some own)
    (hgrouped : ¬left.Assigns → ¬right.Assigns → Grouped own left right)
    (hstops : Stops scope.tokens (leastAfter own) right s.position) :
    Reads scope (some b) (node .binaryExpression
      #[left.withField .left, sign.withField .operator, right.withField .right]) s fun n s' =>
      Gives scope.tokens Role.expressions s₀ n s' ∧ Operand scope.tokens n s'.position ∧
        n.operator? = sign.symbol.operator? ∧
        n.namesPrivate = decide (left.kind? = some .privatePropertyIdentifier) := by
  have hlabel {field : Field} {n : Node} {roles : List Role} (hn : n.role ∈ roles) :
      (n.withField field).role ∈ Role.labelled field roles :=
    List.mem_map_of_mem (f := fun role : Role => (some field, role.2)) hn
  have hfits : FitsOperator .binaryExpression
      [left.withField .left, sign.withField .operator, right.withField .right] := by
    refine ⟨_, _, _, own, rfl, hown, fun hleft hright => ?_⟩
    rw [Node.assigns_withField] at hleft hright
    obtain ⟨hl, hr⟩ := hgrouped hleft hright
    exact ⟨hl, hr⟩
  refine .mono (node_next h (.one (hlabel hleft) (.one (hlabel hsign) (.one (hlabel hright) .nil)))
    (by simp) ⟨hfits, nofun, nofun, nofun, nofun, nofun⟩) ?_
  rintro n s' ⟨hn, rfl, hposition⟩
  have hbinding : (Node.ofChildren .binaryExpression
      [left.withField .left, sign.withField .operator, right.withField .right]).binding? =
        some own := hown
  obtain ⟨o, ho⟩ := Node.exists_operator_of_binding? hbinding
  have hends := (hstops.label .right).above (n := Node.ofChildren .binaryExpression
    [left.withField .left, sign.withField .operator, right.withField .right])
      (by simp [Node.ofChildren])
  refine ⟨hn.mono (by decide), ?_, rfl, rfl⟩
  rw [hposition]
  exact ⟨hends.mono (leastAfter_le ho), fun _ => ⟨own, hbinding, hends⟩,
    fun hassigns => absurd hassigns Bool.false_ne_true⟩

/-! ### Unary level -/

theorem unaryOperation_reads (hs : Sound scope) {kind : TokenKind}
    (hkind : kindAt scope.tokens s.position = kind) (hwhole : isWhole kind = true)
    (ho : (none, symbolOf kind) ∈ Role.operators Operator.isUnary) :
    Reads scope (some b) unaryOperation s (GivesUnary scope.tokens s) := by
  unfold unaryOperation
  refine (bump_reads hs.stream hkind hwhole).bind fun o s₁ hsign => ?_
  refine (hs.deeper .unary b s₁ trivial).bind fun argument s₂ ⟨hargument, hends⟩ => ?_
  have hsign : Gives scope.tokens (Role.operators Operator.isUnary) s o s₁ :=
    hsign.mono fun role hrole => List.mem_singleton.mp hrole ▸ ho
  have hargument : Gives scope.tokens Role.expressions s₁ argument s₂ := hargument
  have hsign := hsign.label .operator
  have hargument := hargument.label .argument
  refine .mono (node_next (hsign.plain.append hargument.plain)
    (.one hsign.role (.one hargument.role .nil)) (by simp)
    ⟨⟨_, _, rfl, hends.2⟩, nofun, nofun, nofun, nofun, nofun⟩) ?_
  rintro n s' ⟨hn, rfl, hposition⟩
  refine ⟨hn.mono (by decide), ?_, nofun⟩
  rw [hposition]
  exact .of_stops ((hends.1.stops.label .argument).above (by simp [Node.ofChildren])) rfl
    (by decide)

theorem privateMembership_reads (hs : Sound scope) :
    Reads scope (some b) privateMembership s (GivesUnary scope.tokens s) := by
  unfold privateMembership
  refine (privateName_reads hs.stream).bind fun left s₁ hleft => ?_
  refine (expectWord_reads hs.stream .inWord _).bind fun o s₂ ho => ?_
  refine (descend_binary_reads hs _).bind fun right s₃ ⟨hright, hstops, hheads⟩ => ?_
  obtain ⟨_, hmem, _, hkind⟩ := hleft.kind_mem
  obtain rfl := List.mem_singleton.mp hmem
  have hoperator : o.symbol.operator? = some .membership := by
    rw [show o.symbol = .keyword .inWord from congrArg Prod.snd (List.mem_singleton.mp ho.role)]
    rfl
  have hown : o.symbol.operator?.bind Operator.binding? =
      some (Operator.membership.precedence, Operator.membership.associativity) := by
    rw [hoperator]
    rfl
  have ho : Gives scope.tokens (Role.operators Operator.isBinary) s₁ o s₂ := ho.mono (by decide)
  have hmade := ((hleft.label .left).plain.append (ho.label .operator).plain).append
    (hright.label .right).plain
  refine .mono (binaryNode_reads hmade
    (List.mem_append_right _ hleft.role) ho.role hright.role hown
    (fun _ _ => ⟨.of_kind (by rw [hkind]; nofun), Heads.right_fits hheads⟩) hstops)
    fun n s' ⟨hn, hoperand, hsame, hprivate⟩ => ⟨hn, hoperand, fun _ => ?_⟩
  simp [Node.testsPrivate, hprivate, hkind, hsame, hoperator]

theorem ifTernary_reads (hs : Sound scope)
    (hkind : kindAt scope.tokens s.position = .keyword .ifWord) :
    Reads scope (some b) ifTernary s (GivesUnary scope.tokens s) := by
  unfold ifTernary
  refine (bump_reads hs.stream hkind rfl).bind fun word s₁ hword => ?_
  refine (parenthesized_reads hs).bind fun condition s₂ hcondition => ?_
  refine (expression_reads hs).bind fun consequence s₃ hconsequence => ?_
  refine (expectWord_reads hs.stream .elseWord _).bind fun otherwise s₄ hotherwise => ?_
  refine (expression_ends hs).bind fun alternative s₅ ⟨halternative, hends⟩ => ?_
  have hcondition := hcondition.label .condition
  have hconsequence := hconsequence.label .consequence
  have halternative := halternative.label .alternative
  refine .mono (node_next ((((hword.plain.append hcondition.plain).append hconsequence.plain).append
    hotherwise.plain).append halternative.plain)
    (.one hword.role (.one hcondition.role (.one hconsequence.role (.one hotherwise.role
      (.one halternative.role .nil))))) (by simp) (.free rfl)) ?_
  rintro n s' ⟨hn, rfl, hposition⟩
  rw [← hposition] at hends
  exact .of_ended hn ((hends.label .alternative).above (by simp [Node.ofChildren])) (by decide)
    nofun

theorem unary_reads (hs : Sound scope) :
    Reads scope (some b) unary s (GivesUnary scope.tokens s) := by
  have hoperand : Reads scope (some b) (operand >>= assignmentOr) s (GivesUnary scope.tokens s) :=
    .of_lt fun _ hb => (operand_reads hs).bind fun n s₁ hn => assignmentOr_reads hs (hb b rfl) hn
  have hupdate : Reads scope (some b)
      (peek >>= fun token => throw ⟨.updateExpression, token.span⟩ : Parse Node) s
      (GivesUnary scope.tokens s) := by
    rw [reads_peek_bind]
    exact throwHere_reads hs.stream (.inl rfl)
  unfold unary
  rw [reads_peekKind_bind]
  split
  · exact ifTernary_reads hs ‹_›
  · exact unaryOperation_reads hs ‹_› rfl (by decide)
  · exact unaryOperation_reads hs ‹_› rfl (by decide)
  · exact hupdate
  · exact hupdate
  · exact privateMembership_reads hs
  · rename_i o _ _ ho
    refine .ite (fun hunary => ?_) fun _ => hoperand
    exact unaryOperation_reads hs ho rfl (operator_mem (hs.stream.symbolic _ _ ho) hunary)
  · exact hoperand

/-! ### Binary level -/

/-- What a loop over the operators of at least some precedence has read since the state `s₀`. -/
structure Chains (tokens : Array Token) (least : Nat) (s₀ : State) (n : Node) (s : State) :
    Prop where
  gives : Gives tokens Role.expressions s₀ n s
  operand : Operand tokens n s.position
  heads : Heads least n

/-- The left operand has been read since the state `s₀`. -/
theorem operateOn_reads (hs : Sound scope) {least : Nat} {left : Node}
    (hleft : Chains scope.tokens least s₀ left s) :
    Reads scope (some b) (operateOn least left) s
      (Keeps (Chains scope.tokens least s₀)
        (fun n s' => Gives scope.tokens Role.expressions s₀ n s' ∧
          Ends scope.tokens (.binary least) n s'.position) s) := by
  unfold operateOn
  refine .ite (fun hassignment => .pure ⟨hleft.gives, ?_, hleft.heads⟩) fun _ => ?_
  · exact (hleft.operand.assignment hassignment).mono (Nat.zero_le _)
  rw [reads_peekKind_bind]
  split
  · rename_i hnone
    refine .pure ⟨hleft.gives, hleft.operand.stops_of_lt fun binding hbinding => ?_, hleft.heads⟩
    cases hnone.symm.trans hbinding
  · rename_i own hown
    refine .ite (fun hlt => .pure ⟨hleft.gives, hleft.operand.stops_of_lt ?_, hleft.heads⟩)
      fun hle => ?_
    · intro binding hbinding
      cases hown.symm.trans hbinding
      exact hlt
    obtain ⟨hwhole, hmem⟩ := binaryOperator_mem (hs.stream.symbolic _) hown
    refine (bump_reads hs.stream rfl hwhole).bind fun o s₁ ho => ?_
    refine (descend_binary_reads hs _).bind fun right s₂ hall => ?_
    obtain ⟨hright, hstops, hheads⟩ := hall
    have hsymbol : o.symbol = symbolOf (kindAt scope.tokens s.position) :=
      congrArg Prod.snd (List.mem_singleton.mp ho.role)
    have ho : Gives scope.tokens (Role.operators Operator.isBinary) s o s₁ :=
      ho.mono fun role hrole => List.mem_singleton.mp hrole ▸ hmem
    have hlt := ho.lt.trans hright.lt
    have hmade := ((hleft.gives.label .left).plain.append (ho.label .operator).plain).append
      (hright.label .right).plain
    refine (Reads.advancing (binaryNode_reads hmade (List.mem_append_left _ hleft.gives.role)
      ho.role hright.role ?_ (fun hfree _ => ⟨hleft.operand.left_fits hown hfree,
        hheads.right_fits⟩) hstops)).bind ?_
    · rw [hsymbol]
      exact binding?_symbolOf (hs.stream.symbolic _) hown
    rintro n s₃ ⟨⟨hn, hoperand, hsame, _⟩, hadvances⟩
    refine .pure ⟨⟨hn, hoperand, fun _ _ => ⟨own, ?_, not_lt.mp hle⟩⟩, hlt.trans_le hadvances.le⟩
    rw [Node.binding?, hsame, hsymbol]
    exact binding?_symbolOf (hs.stream.symbolic _) hown

theorem binary_reads (hs : Sound scope) {least : Nat} :
    Reads scope (some b) (binary least) s fun n s' =>
      Gives scope.tokens Role.expressions s n s' ∧
        Ends scope.tokens (.binary least) n s'.position := by
  unfold binary
  refine (unary_reads hs).bind fun n s₁ ⟨hn, hoperand, hprivate⟩ => Reads.loop _
    ⟨hn, hoperand, fun htests hkind => ?_⟩ fun n s₁ hn => operateOn_reads hs hn
  cases htests.symm.trans (hprivate hkind)

end ScriptTree.Parsing
