import Mathlib
import ScriptTree.Proofs.Parsing.Operands

/-! What the productions of assignments and patterns give.

The target of an assignment is taken out of the primary expression that it was read as, which is then
dropped: `Gives.content` says that the content of such a node reads the same tokens. -/
namespace ScriptTree.Parsing

variable {scope : Scope} {b : Nat} {s s₀ : State}

/-! ### Targets -/

/-- What stands in a node is made of what the node is made of. -/
theorem Forest.content {tokens : Array Token} {p q : Nat} {ps : List Problem} {n : Node}
    {kind : NodeKind} (h : Forest tokens p q ps [n]) (hkind : n.kind? = some kind)
    (hkinds : kind ≠ .string ∧ kind ≠ .regex ∧ kind ≠ .error) (hchildren : n.children ≠ []) :
    Forest tokens p q ps n.children ∧ Matches kind.row n.children := by
  generalize hl : [n] = nodes at h
  cases h with
  | nil => cases hl
  | token | signed | absent =>
    cases hl
    exact absurd rfl hchildren
  | literal _ made =>
    cases hl
    rw [literalNode?] at made
    split at made <;> cases made <;> cases hkind
    · exact absurd rfl hkinds.1
    · exact absurd rfl hkinds.2.1
  | inner _ below row _ _ rest =>
    cases hl
    cases hkind
    cases rest
    rw [List.append_nil]
    exact ⟨below, row⟩
  | damage =>
    cases hl
    cases hkind
    exact absurd rfl hkinds.2.2

/-- The only child of a primary expression reads the tokens that the expression reads. -/
theorem Gives.content {tokens : Array Token} {roles : List Role} {s s' : State}
    {operand inner : Node} (h : Gives tokens roles s operand s')
    (hkind : operand.kind? = some .primaryExpression)
    (hchildren : operand.children = [inner]) : Gives tokens Role.primaries s inner s' := by
  obtain ⟨ps, hps, hf⟩ := h.plain
  obtain ⟨below, row⟩ := hf.content hkind (by decide) (by simp [hchildren])
  rw [hchildren] at below row
  have hpresent := below.head_present row
  cases row with
  | one hrole _ =>
    have hfield : inner.field = none := by
      obtain ⟨kind, _, hkind⟩ := List.mem_map.mp hrole
      exact (congrArg Prod.fst hkind).symm
    exact ⟨fun field => ⟨ps, hps, below.relabel hfield field⟩, hrole, hpresent⟩

/-- The problem of a wrong target stands where the operand begins. -/
theorem assignmentTarget_reads (hs : IsStream scope.tokens) (roles : List Role) {operand : Node}
    {allowed : List NodeKind} (hb : b ≤ s₀.position)
    (hoperand : Gives scope.tokens Role.operands s₀ operand s)
    (hroles : ∀ role ∈ Role.primaries, role.2.kind?.any allowed.contains = true → role ∈ roles) :
    Reads scope (some b) (assignmentTarget operand allowed) s fun n s' =>
      Gives scope.tokens roles s₀ n s ∧ s' = s := by
  have hinvalid : Reads scope (some b) (throw ⟨.invalidTarget, operand.span⟩ : Parse Node) s
      fun n s' => Gives scope.tokens roles s₀ n s ∧ s' = s := by
    refine throw_reads (fun b' hb' _ hlt => ?_) rfl
    cases hb'
    exact hoperand.blamed hs (by decide) rfl hb hlt
  unfold assignmentTarget
  split
  · refine .ite (fun hcond => ?_) fun _ => hinvalid
    rw [Bool.and_eq_true, decide_eq_true_eq] at hcond
    have hinner := hoperand.content hcond.1 ‹_›
    exact .pure ⟨⟨hinner.made, hroles _ hinner.role hcond.2, hinner.present⟩, rfl⟩
  · exact hinvalid

/-! ### Assignments -/

/-- The target has been read since the state `s₀`. -/
theorem assignmentRest_reads (hs : Sound scope) {target : Node}
    (htarget : Gives scope.tokens Role.targets s₀ target s) :
    Reads scope (some b) (assignmentRest target) s fun n s' =>
      Gives scope.tokens (Role.plain [.assignmentExpression]) s₀ n s' ∧
        Stops scope.tokens 0 n s'.position := by
  unfold assignmentRest
  refine (expectOperator_reads hs.stream .assign).bind fun sign s₁ hsign => ?_
  refine (expression_ends hs).bind fun value s₂ ⟨hvalue, hends⟩ => ?_
  refine (expectOrMissing_reads hs.stream (.inl rfl)).bind fun stop s₃ ⟨hstop, hrole, hnext⟩ => ?_
  have hsettled := hends.settled_behind hnext
  have htarget := htarget.label .left
  have hvalue := hvalue.label .right
  refine .mono (node_next (((htarget.plain.append hsign.plain).append hvalue.plain).append hstop)
    (.one htarget.role (.one hsign.role (.one hvalue.role (.one hrole .nil)))) (by simp)
    (.ended (by decide) hsettled)) ?_
  rintro n s' ⟨hn, rfl, hposition⟩
  exact ⟨hn, stops_of_assignment rfl (hposition ▸ hsettled)⟩

/-- An operator of the source stands in trees under its own symbol. -/
theorem operator_mem {p : Operator → Bool} {o : Operator} (hword : o.isWord = false)
    (hp : p o = true) : (none, Symbol.operator o) ∈ Role.operators p := by
  refine List.mem_map.mpr ⟨o, List.mem_filter.mpr ⟨by cases o <;> decide, hp⟩, ?_⟩
  simp [Operator.symbol, hword]

theorem augmentedRest_reads (hs : Sound scope) {target : Node} {o : Operator}
    (htarget : Gives scope.tokens
      (Role.plain [.identifier, .memberExpression, .parenthesizedExpression]) s₀ target s)
    (hkind : kindAt scope.tokens s.position = .operator o) (ho : o.isAugmentedAssignment = true) :
    Reads scope (some b) (augmentedRest target) s fun n s' =>
      Gives scope.tokens (Role.plain [.augmentedAssignmentExpression]) s₀ n s' ∧
        Stops scope.tokens 0 n s'.position := by
  unfold augmentedRest
  refine (bump_reads hs.stream hkind rfl).bind fun sign s₁ hsign => ?_
  refine (expression_ends hs).bind fun value s₂ ⟨hvalue, hends⟩ => ?_
  have hsign : Gives scope.tokens (Role.operators Operator.isAugmentedAssignment) s sign s₁ := by
    refine hsign.mono fun role hrole => ?_
    rw [List.mem_singleton.mp hrole]
    exact operator_mem (hs.stream.symbolic _ _ hkind) ho
  have htarget := htarget.label .left
  have hsign := hsign.label .operator
  have hvalue := hvalue.label .right
  refine .mono (node_next ((htarget.plain.append hsign.plain).append hvalue.plain)
    (.one htarget.role (.one hsign.role (.one hvalue.role .nil))) (by simp) (.free rfl)) ?_
  rintro n s' ⟨hn, rfl, hposition⟩
  rw [hposition]
  exact ⟨hn, (hends.label .right).above (List.mem_of_getElem? (i := 2) rfl)⟩

/-- What a production of the unary level gives. -/
def GivesUnary (tokens : Array Token) (s : State) (n : Node) (s' : State) : Prop :=
  Gives tokens Role.expressions s n s' ∧ Ends tokens .unary n s'.position

namespace GivesUnary
variable {tokens : Array Token} {s' : State} {n : Node} {kind : NodeKind}

/-- An operand without an assignment sign behind it. -/
theorem of_operand (h : Gives tokens Role.operands s n s')
    (hassign : ∀ o, kindAt tokens s'.position = .operator o → o.isAssignment = false) :
    GivesUnary tokens s n s' := by
  obtain ⟨kind, hmem, _, hkind⟩ := h.kind_mem
  refine ⟨h.mono (by decide), .of_stops (stops_unary hassign) hkind ?_, fun hbinary => ?_⟩
  · rcases List.mem_pair.mp hmem with rfl | rfl <;> decide
  · cases hkind.symm.trans hbinary
    exact absurd hmem (by decide)

/-- An expression that ends for good. -/
theorem of_ended (h : Gives tokens (Role.plain [kind]) s n s')
    (hends : Stops tokens 0 n s'.position) (hsub : Role.plain [kind] ⊆ Role.expressions)
    (hother : kind ≠ .binaryExpression) : GivesUnary tokens s n s' := by
  obtain ⟨_, hmem, _, hkind⟩ := h.kind_mem
  obtain rfl := List.mem_singleton.mp hmem
  have hbinary : n.kind? ≠ some .binaryExpression := by
    rw [hkind]
    exact fun heq => hother (Option.some.inj heq)
  exact ⟨h.mono hsub, .of_ended hends hbinary, fun h => absurd h hbinary⟩

end GivesUnary

/-- The operand has been read since the state `s₀`. -/
theorem assignmentOr_reads (hs : Sound scope) {operand : Node} (hb : b ≤ s₀.position)
    (hoperand : Gives scope.tokens Role.operands s₀ operand s) :
    Reads scope (some b) (assignmentOr operand) s (GivesUnary scope.tokens s₀) := by
  have hplain (hassign : ∀ o, kindAt scope.tokens s.position = .operator o →
      o.isAssignment = false) : GivesUnary scope.tokens s₀ operand s :=
    .of_operand hoperand hassign
  unfold assignmentOr
  rw [reads_peekKind_bind]
  split
  · rename_i o ho
    refine .ite (fun hassign => ?_) fun hother => .ite (fun haugmented => ?_) fun hplainSign => ?_
    · refine (assignmentTarget_reads hs.stream Role.targets hb hoperand (by decide)).bind ?_
      rintro target s ⟨htarget, rfl⟩
      exact (assignmentRest_reads hs htarget).mono fun n s' h =>
        .of_ended h.1 h.2 (by decide) (by decide)
    · refine (assignmentTarget_reads hs.stream
        (Role.plain [.identifier, .memberExpression, .parenthesizedExpression]) hb hoperand
        (by decide)).bind ?_
      rintro target s ⟨htarget, rfl⟩
      exact (augmentedRest_reads hs htarget ho haugmented).mono fun n s' h =>
        .of_ended h.1 h.2 (by decide) (by decide)
    · refine .pure (hplain fun o' ho' => ?_)
      cases ho.symm.trans ho'
      simpa [Operator.isAugmentedAssignment, hother] using hplainSign
  · rename_i hnone
    exact .pure (hplain fun o ho => absurd ho (hnone o))

/-! ### Patterns -/

theorem target_reads (hs : Sound scope) :
    Reads scope (some b) target s (Gives scope.tokens Role.targets s) := by
  unfold target
  rw [reads_peekKind_bind]
  split
  · exact (hs.deeper .objectPattern b s trivial).mono fun n s' hn => hn.1.mono (by decide)
  · exact (hs.deeper .arrayPattern b s trivial).mono fun n s' hn => hn.1.mono (by decide)
  · refine .of_lt fun _ hb => (operand_reads hs).bind fun operand s₁ hoperand => ?_
    refine (assignmentTarget_reads hs.stream Role.targets (hb b rfl) hoperand (by decide)).mono ?_
    rintro n s' ⟨hn, rfl⟩
    exact hn

theorem restPattern_reads (hs : Sound scope)
    (hkind : kindAt scope.tokens s.position = .punctuation .ellipsis) :
    Reads scope (some b) restPattern s (Gives scope.tokens (Role.plain [.restPattern]) s) := by
  unfold restPattern
  refine (bump_reads hs.stream hkind rfl).bind fun dots s₁ hdots => ?_
  refine (target_reads hs).bind fun target s₂ htarget => ?_
  exact node_reads (hdots.plain.append htarget.plain) (.one hdots.role (.one htarget.role .nil))
    (by simp) (.free rfl)

theorem patternContent_reads (hs : Sound scope) :
    Reads scope (some b) patternContent s
      (Gives scope.tokens (Role.targets ++ Role.plain [.restPattern]) s) := by
  unfold patternContent
  rw [reads_sees_bind]
  refine .ite (fun hdots => ?_) fun _ => ?_
  · exact (restPattern_reads hs (isPunctuation_iff.mp hdots)).mono fun n s' hn => hn.mono (by decide)
  · exact (target_reads hs).mono fun n s' hn => hn.mono (by decide)

theorem pattern_reads (hs : Sound scope) :
    Reads scope (some b) pattern s (Gives scope.tokens (Role.plain [.pattern]) s) := by
  unfold pattern
  exact (patternContent_reads hs).bind fun n s₁ hn =>
    node_reads hn.plain (.one hn.role .nil) (by simp) (.free rfl)

theorem patternWithDefault_reads (hs : Sound scope) :
    Reads scope (some b) patternWithDefault s
      (Gives scope.tokens (Role.plain [.pattern, .assignmentPattern]) s) := by
  unfold patternWithDefault
  refine (hs.deeper .pattern b s trivial).bind fun left s₁ ⟨hleft, _⟩ => ?_
  have hleft : Gives scope.tokens (Role.plain [.pattern]) s left s₁ := hleft
  rw [reads_seesOperator_bind]
  refine .ite (fun hsign => ?_) fun _ => .pure (hleft.mono (by decide))
  refine (bump_reads hs.stream (isOperator_iff.mp hsign) rfl).bind fun sign s₂ hsign => ?_
  refine (expression_reads hs).bind fun value s₃ hvalue => ?_
  have hleft := hleft.label .left
  have hvalue := hvalue.label .right
  exact node_reads_as ((hleft.plain.append hsign.plain).append hvalue.plain)
    (.one hleft.role (.one hsign.role (.one hvalue.role .nil))) (by simp) (.free rfl) (by decide)

/-- The key has been read since the state `s₀`. -/
theorem pairRest_reads (hs : Sound scope) {key : Node}
    (hkey : Gives scope.tokens (Role.plain [.identifier, .privatePropertyIdentifier]) s₀ key s) :
    Reads scope (some b) (pairRest key) s (Gives scope.tokens (Role.plain [.pairPattern]) s₀) := by
  unfold pairRest
  refine (expect_reads hs.stream .colon).bind fun colon s₁ hcolon => ?_
  refine (patternWithDefault_reads hs).bind fun value s₂ hvalue => ?_
  have hkey := hkey.label .key
  have hvalue := hvalue.label .value
  exact node_reads ((hkey.plain.append hcolon.plain).append hvalue.plain)
    (.one hkey.role (.one hcolon.role (.one hvalue.role .nil))) (by simp) (.free rfl)

theorem objectPatternMember_reads (hs : Sound scope) :
    Reads scope (some b) objectPatternMember s (Gives scope.tokens
      (Role.plain [.pairPattern, .restPattern, .shorthandPropertyIdentifierPattern]) s) := by
  unfold objectPatternMember
  rw [reads_peekKind_bind]
  split
  · exact (restPattern_reads hs ‹_›).mono fun n s' hn => hn.mono (by decide)
  · rw [reads_kindAhead_bind]
    refine (privateName_reads hs.stream).bind fun name s₁ hname => .ite (fun _ => ?_) fun _ => ?_
    · exact (pairRest_reads hs (hname.mono (by decide))).mono fun n s' hn => hn.mono (by decide)
    · exact node_reads_as hname.plain (.present hname.role .nil) (by simp) (.free rfl) (by decide)
  · rename_i hname
    rw [reads_kindAhead_bind]
    refine .ite (fun _ => ?_) fun _ => ?_
    · refine (bumpAs_reads hs.stream hname rfl).bind fun key s₁ hkey => ?_
      exact (pairRest_reads hs (hkey.mono (by decide))).mono fun n s' hn => hn.mono (by decide)
    · exact .mono (bumpAs_reads hs.stream hname rfl) fun n s' hn =>
        hn.mono (by decide)
  · exact unexpected_reads hs.stream

theorem objectPattern_reads (hs : Sound scope) :
    Reads scope (some b) objectPattern s (Gives scope.tokens (Role.plain [.objectPattern]) s) :=
  listOf_reads hs.stream (fun _ => objectPatternMember_reads hs) rfl rfl

theorem arrayPattern_reads (hs : Sound scope) :
    Reads scope (some b) arrayPattern s (Gives scope.tokens (Role.plain [.arrayPattern]) s) :=
  listOf_reads hs.stream (fun _ => patternWithDefault_reads hs) rfl rfl

theorem destructuringAssignment_reads (hs : Sound scope) :
    Reads scope (some b) destructuringAssignment s
      (Gives scope.tokens (Role.plain [.assignmentExpression]) s) := by
  have hpattern : Reads scope (some b) destructuringPattern s (Gives scope.tokens Role.targets s) := by
    unfold destructuringPattern
    rw [reads_sees_bind]
    refine .ite (fun _ => ?_) fun _ => ?_
    · exact (objectPattern_reads hs).mono fun n s' hn => hn.mono (by decide)
    · exact (arrayPattern_reads hs).mono fun n s' hn => hn.mono (by decide)
  unfold destructuringAssignment
  exact hpattern.bind fun n s₁ hn => (assignmentRest_reads hs hn).mono fun n s' hn => hn.1

end ScriptTree.Parsing
