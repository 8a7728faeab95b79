import Mathlib
import ScriptTree.Proofs.Parsing.Braces
import ScriptTree.Proofs.Parsing.Operations

/-! What the productions of statements give, and with them every production at every level.

The levels are taken one by one: the next level gives what the goals say, so the productions at this
one do (`production_reads`), and the level that is used up fails at the next token (`level_sound`).
A whole program never fails and reads all tokens but the end (`runProgram_forest`). -/
namespace ScriptTree.Parsing

variable {scope : Scope} {b : Nat} {s : State}

/-! ### Declarations -/

theorem initializer_reads (hs : Sound scope)
    (hkind : kindAt scope.tokens s.position = .operator .assign) :
    Reads scope (some b) initializer s (Fills scope.tokens
      [.optional (Role.sign .assign), .optional (Role.labelled .value Role.expressions)] s) := by
  unfold initializer
  refine (bump_reads hs.stream hkind rfl).bind fun sign s₁ hsign => ?_
  refine (expression_reads hs).bind fun value s₂ hvalue => ?_
  have hvalue := hvalue.label .value
  exact .pure ⟨hsign.plain.append hvalue.plain,
    fun _ _ h => .present hsign.role (.present hvalue.role h)⟩

theorem variableDeclaration_reads (hs : Sound scope)
    (h : kindAt scope.tokens s.position = .keyword .constWord ∨
      kindAt scope.tokens s.position = .keyword .letWord) :
    Reads scope (some b) variableDeclaration s
      (Gives scope.tokens (Role.plain [.variableDeclaration]) s) := by
  unfold variableDeclaration
  rw [reads_seesWord_bind]
  have hmark : Reads scope (some b) (bumpAs
      (if (kindAt scope.tokens s.position).isKeyword .constWord = true then .constMark
        else .letMark)) s (Gives scope.tokens (Role.plain [.constMark, .letMark]) s) := by
    rcases h with h | h <;> rw [h]
    · exact (bumpAs_reads hs.stream h rfl).mono fun n s' hn => hn.mono (by decide)
    · exact (bumpAs_reads hs.stream h rfl).mono fun n s' hn => hn.mono (by decide)
  refine hmark.bind fun kind s₁ hkind => ?_
  refine (expectIdentifier_reads hs.stream rfl).bind fun name s₂ hname => ?_
  rw [reads_sees_bind]
  refine (optionally_reads [.optional (Role.plain [.typeAscription])] (fun _ => ?_)
    fun _ _ => .absent).bind fun type s₃ htype => ?_
  · exact (typeAscription_reads hs).bind fun t s₃ ht => .pure ⟨ht.plain, fun _ _ => .present ht.role⟩
  rw [reads_seesOperator_bind]
  refine (optionally_reads
    [.optional (Role.sign .assign), .optional (Role.labelled .value Role.expressions)]
    (fun hsign => initializer_reads hs (isOperator_iff.mp hsign))
    fun _ _ h => .absent (.absent h)).bind fun value s₄ hvalue => ?_
  refine (expectOrMissing_reads hs.stream (.inl rfl)).bind fun stop s₅ ⟨hstop, hrole, _⟩ => ?_
  have hkind := hkind.label .kind
  have hname := hname.label .declaredName
  have hall := (((hkind.plain.append hname.plain).append htype.made).append hvalue.made).append hstop
  refine node_reads (by simpa using hall) ?_ (by simp) (.free rfl)
  simp only [Array.toList_append, List.append_assoc, List.cons_append, List.nil_append]
  exact .one hkind.role (.one hname.role (htype.row _ _ (hvalue.row _ _ (.one hrole .nil))))

theorem enumDeclaration_reads (hs : Sound scope)
    (hkind : kindAt scope.tokens s.position = .keyword .enumWord) :
    Reads scope (some b) enumDeclaration s
      (Gives scope.tokens (Role.plain [.enumDeclaration]) s) := by
  unfold enumDeclaration enumMember
  refine (bump_reads hs.stream hkind rfl).bind fun word s₁ hword => ?_
  refine (expectIdentifier_reads hs.stream rfl).bind fun name s₂ hname => ?_
  refine (expect_reads hs.stream .leftBrace).bind fun opening s₃ hopening => ?_
  refine (expectIdentifier_reads hs.stream rfl).bind fun first s₄ hfirst => ?_
  have hhead := ((hword.plain.append hname.plain).append hopening.plain).append hfirst.plain
  refine (Reads.gather (Role.plain [.identifier] ++ Role.mark .comma) hhead
    fun children s₅ hchildren => ?_).bind fun children s₅ hchildren => ?_
  · rw [reads_sees_bind]
    refine .ite (fun hcomma => ?_) fun _ => .pure hchildren
    refine (bump_reads hs.stream (isPunctuation_iff.mp hcomma) rfl).bind fun comma s₆ hcomma => ?_
    have hpush := hchildren.push hcomma (by decide)
    simp only
    rw [reads_sees_bind]
    refine .ite (fun _ => .pure hpush) fun _ => ?_
    refine (expectIdentifier_reads hs.stream rfl).bind
      fun member s₇ hmember => ?_
    exact .pure ⟨hpush.push hmember (by decide), hcomma.lt.trans hmember.lt⟩
  · refine closing_reads hs.stream hchildren (fun items last hitems hlast => ?_) rfl
    show Matches _ (word :: name :: opening :: first :: (items ++ [last]))
    exact .one hword.role (.one hname.role (.one hopening.role (.one hfirst.role
      (.many hitems (.one hlast .nil)))))

/-! ### Statements -/

theorem alternative_reads (hs : Sound scope) :
    Reads scope (some b) alternative s
      (Gives scope.tokens (Role.plain [.blockStatement, .ifStatement]) s) := by
  unfold alternative
  rw [reads_seesWord_bind]
  refine .ite (fun hword => ?_) fun _ => ?_
  · exact (hs.deeper .ifStatement b s (isKeyword_iff.mp hword)).mono fun n s' hn =>
      hn.1.mono (by decide)
  · exact (block_reads hs).mono fun n s' hn => hn.mono (by decide)

theorem elseBranch_reads (hs : Sound scope)
    (hkind : kindAt scope.tokens s.position = .keyword .elseWord) :
    Reads scope (some b) elseBranch s (Fills scope.tokens
      [.optional (Role.word .elseWord),
        .optional (Role.labelled .alternative (Role.plain [.blockStatement, .ifStatement]))] s) := by
  unfold elseBranch
  refine (bump_reads hs.stream hkind rfl).bind fun word s₁ hword => ?_
  refine (alternative_reads hs).bind fun alternative s₂ halternative => ?_
  have halternative := halternative.label .alternative
  exact .pure ⟨hword.plain.append halternative.plain,
    fun _ _ h => .present hword.role (.present halternative.role h)⟩

theorem ifStatement_reads (hs : Sound scope)
    (hkind : kindAt scope.tokens s.position = .keyword .ifWord) :
    Reads scope (some b) ifStatement s (Gives scope.tokens (Role.plain [.ifStatement]) s) := by
  unfold ifStatement
  refine (bump_reads hs.stream hkind rfl).bind fun word s₁ hword => ?_
  refine (parenthesized_reads hs).bind fun condition s₂ hcondition => ?_
  refine (block_reads hs).bind fun consequence s₃ hconsequence => ?_
  rw [reads_seesWord_bind]
  refine (optionally_reads
    [.optional (Role.word .elseWord),
      .optional (Role.labelled .alternative (Role.plain [.blockStatement, .ifStatement]))]
    (fun hword => elseBranch_reads hs (isKeyword_iff.mp hword))
    fun _ _ h => .absent (.absent h)).bind fun rest s₄ hrest => ?_
  have hcondition := hcondition.label .condition
  have hconsequence := hconsequence.label .consequence
  have hall := ((hword.plain.append hcondition.plain).append hconsequence.plain).append hrest.made
  refine node_reads (by simpa using hall) ?_ (by simp) (.free rfl)
  have hrow := hrest.row [] [] .nil
  rw [List.append_nil rest.toList] at hrow
  simp only [Array.toList_append, List.cons_append, List.nil_append]
  exact .one hword.role (.one hcondition.role (.one hconsequence.role hrow))

theorem returnStatement_reads (hs : Sound scope)
    (hkind : kindAt scope.tokens s.position = .keyword .returnWord) :
    Reads scope (some b) returnStatement s
      (Gives scope.tokens (Role.plain [.returnStatement]) s) := by
  unfold returnStatement
  refine (bump_reads hs.stream hkind rfl).bind fun word s₁ hword => ?_
  refine (expression_ends hs).bind fun value s₂ ⟨hvalue, hends⟩ => ?_
  refine (expectOrMissing_reads hs.stream (.inl rfl)).bind fun stop s₃ ⟨hstop, hrole, hnext⟩ => ?_
  exact node_reads ((hword.plain.append hvalue.plain).append hstop)
    (.one hword.role (.one hvalue.role (.one hrole .nil))) (by simp)
    (.ended (by decide) (hends.settled_behind hnext))

theorem breakStatement_reads (hs : Sound scope)
    (hkind : kindAt scope.tokens s.position = .keyword .breakWord) :
    Reads scope (some b) breakStatement s
      (Gives scope.tokens (Role.plain [.breakStatement]) s) := by
  unfold breakStatement
  refine (bump_reads hs.stream hkind rfl).bind fun word s₁ hword => ?_
  refine (expectOrMissing_reads hs.stream (.inl rfl)).bind fun stop s₂ ⟨hstop, hrole, _⟩ => ?_
  exact node_reads (hword.plain.append hstop) (.one hword.role (.one hrole .nil))
    (by simp) (.free rfl)

theorem expressionStatement_reads (hs : Sound scope) :
    Reads scope (some b) expressionStatement s (Gives scope.tokens Role.statements s) := by
  unfold expressionStatement
  rw [reads_peek_bind]
  refine .of_lt fun _ hb => (expression_ends hs).bind fun value s₁ hboth => ?_
  obtain ⟨hvalue, hends⟩ := hboth
  split
  · exact .pure ((hvalue.of_kind ‹_›).mono (by decide))
  · have hvalue := hvalue.of_kind ‹_›
    refine (expectOrMissing_reads hs.stream (.inl rfl)).bind fun stop s₂ hall => ?_
    obtain ⟨hstop, hrole, hnext⟩ := hall
    exact node_reads_as (hvalue.plain.append hstop) (.one hvalue.role (.one hrole .nil))
      (by simp) (.ended (by decide) (hends.settled_behind hnext)) (by decide)
  · refine throw_reads (fun b' hb' _ hlt => ?_) rfl
    cases hb'
    have hmerge : (spanAt scope.tokens s.position).merge value.span = value.span := by
      have hread := hvalue.lt
      have hle : (spanAt scope.tokens s.position).stop ≤ (spanAt scope.tokens (s₁.position - 1)).stop :=
        hs.stream.stop_le (by omega) (by omega)
      rw [hvalue.span_eq hs.stream, stopBefore, if_neg (by omega), Span.merge, Nat.min_self,
        Nat.max_eq_right hle]
    have hspan : (tokenAt scope.tokens s.position).span.merge value.span = value.span := hmerge
    rw [hspan]
    exact hvalue.blamed hs.stream (by decide) rfl (hb b rfl) hlt

theorem anyStatement_reads (hs : Sound scope) :
    Reads scope (some b) anyStatement s (Gives scope.tokens Role.statements s) := by
  have hplain : ∀ {kind m}, Reads scope (some b) m s (Gives scope.tokens (Role.plain [kind]) s) →
      Role.plain [kind] ⊆ Role.statements →
        Reads scope (some b) m s (Gives scope.tokens Role.statements s) :=
    fun h hsub => h.mono fun _ _ hn => hn.mono hsub
  unfold anyStatement opensAssignment
  rw [reads_peekKind_bind]
  split
  · rw [reads_kindAhead_bind]
    exact .ite (fun _ => hplain (functionDeclaration_reads hs ‹_›) (by decide))
      fun _ => expressionStatement_reads hs
  · exact hplain (variableDeclaration_reads hs (.inl ‹_›)) (by decide)
  · exact hplain (variableDeclaration_reads hs (.inr ‹_›)) (by decide)
  · exact hplain (matchExpression_reads hs ‹_›) (by decide)
  · exact hplain (enumDeclaration_reads hs ‹_›) (by decide)
  · exact hplain (ifStatement_reads hs ‹_›) (by decide)
  · exact hplain (returnStatement_reads hs ‹_›) (by decide)
  · exact hplain (breakStatement_reads hs ‹_›) (by decide)
  · refine (closesBefore_reads _).bind ?_
    rintro assigns _ rfl
    exact .ite (fun _ => hplain (destructuringAssignment_reads hs) (by decide))
      fun _ => hplain (block_reads hs) (by decide)
  · refine (closesBefore_reads _).bind ?_
    rintro assigns _ rfl
    exact .ite (fun _ => hplain (destructuringAssignment_reads hs) (by decide))
      fun _ => expressionStatement_reads hs
  · exact expressionStatement_reads hs

/-! ### Levels -/

/-- Every production gives what its goal says, if those one level deeper do. -/
theorem production_reads (hs : Sound scope) (goal : Goal)
    (hready : goal.Ready (kindAt scope.tokens s.position)) :
    Reads scope (some b) (production goal) s fun n s' =>
      Gives scope.tokens goal.roles s n s' ∧ Ends scope.tokens goal n s'.position := by
  have hfree {goal : Goal} {m : Parse Node} (hends : ∀ n q, Ends scope.tokens goal n q)
      (h : Reads scope (some b) m s (Gives scope.tokens goal.roles s)) :
      Reads scope (some b) m s fun n s' =>
        Gives scope.tokens goal.roles s n s' ∧ Ends scope.tokens goal n s'.position :=
    h.mono fun n s' hn => ⟨hn, hends n _⟩
  cases goal with
  | statement => exact hfree (fun _ _ => trivial) (anyStatement_reads hs)
  | ifStatement => exact hfree (fun _ _ => trivial) (ifStatement_reads hs hready)
  | binary least => exact binary_reads hs
  | unary => exact unary_reads hs
  | type => exact hfree (fun _ _ => trivial) (unionType_reads hs)
  | pattern => exact hfree (fun _ _ => trivial) (pattern_reads hs)
  | objectPattern => exact hfree (fun _ _ => trivial) (objectPattern_reads hs)
  | arrayPattern => exact hfree (fun _ _ => trivial) (arrayPattern_reads hs)

theorem level_sound {tokens : Array Token} (hs : IsStream tokens) (maxDepth levels : Nat) :
    Sound ⟨tokens, level tokens maxDepth levels⟩ := by
  induction levels with
  | zero =>
    refine ⟨hs, fun goal b s _ hb hlt => ?_, (level_saving tokens maxDepth 0).failing⟩
    exact ⟨.refl hlt, b, rfl, .ahead hs (.inr rfl) (hb b rfl) (Nat.le_refl _) hlt (.inl (Nat.le_refl _))⟩
  | succ levels ih =>
    exact ⟨hs, fun goal b s hready => production_reads ih goal hready,
      (level_saving tokens maxDepth (levels + 1)).failing⟩

/-! ### Programs -/

/-- A program reads every token but the end. -/
theorem runProgram_forest {tokens : Array Token} (hs : IsStream tokens) (maxDepth : Nat) :
    Forest tokens 0 (tokens.size - 1) (runProgram tokens maxDepth).2.problems.toList
        (runProgram tokens maxDepth).1.toList ∧
      ∀ n ∈ (runProgram tokens maxDepth).1.toList, n.role ∈ Role.recovered := by
  have hstart : Made tokens {} {} [] := .refl
  have hrun : Reads ⟨tokens, level tokens maxDepth maxDepth⟩ none (statements false #[]) {} _ :=
    statements_reads (level_sound hs maxDepth maxDepth) hstart
  have hrun := hrun (fun _ hb => nomatch hb) hs.nonempty
  rw [runProgram, EStateM.run, program]
  split at hrun
  · rename_i nodes s hok
    obtain ⟨hadvances, ⟨⟨ps, hps, hf⟩, items, hitems, hroles⟩, _, hend⟩ := hrun
    have hlast := (hs.endOfFile _ hadvances.lt).mp (hend.resolve_right (by simp))
    rw [hok]
    have hposition : s.position = tokens.size - 1 := Nat.eq_sub_of_add_eq hlast
    refine ⟨?_, fun n hn => hroles n ?_⟩
    · rw [hposition] at hf
      exact (hps.trans (List.nil_append ps)).symm ▸ hf
    · have hn : n ∈ nodes.toList := hn
      rwa [hitems] at hn
  · obtain ⟨_, b, hb, _⟩ := hrun
    cases hb

/-- A program gives nodes, and does not fail. -/
theorem runProgram_ok {tokens : Array Token} (hs : IsStream tokens) (maxDepth : Nat) :
    statements false #[] ⟨tokens, level tokens maxDepth maxDepth⟩ {} =
      .ok (runProgram tokens maxDepth).1 (runProgram tokens maxDepth).2 := by
  have hstart : Made tokens {} {} [] := .refl
  have hreads : Reads ⟨tokens, level tokens maxDepth maxDepth⟩ none (statements false #[]) {} _ :=
    statements_reads (level_sound hs maxDepth maxDepth) hstart
  have hreads := hreads nofun hs.nonempty
  rw [runProgram, EStateM.run, program]
  cases hrun : statements false #[] ⟨tokens, level tokens maxDepth maxDepth⟩ {} with
  | ok nodes s => rfl
  | error e s =>
    rw [hrun] at hreads
    obtain ⟨_, _, h, _⟩ := hreads
    cases h

end ScriptTree.Parsing
