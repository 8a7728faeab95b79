import Mathlib
import ScriptTree.Proofs.Parsing.Recovery
import ScriptTree.Proofs.Parsing.Types

/-! What the productions of functions and match expressions give.

A signed number is the only leaf made of two tokens. It is made where a condition stands and gets
the field of one, so `Forest.signed` asks for that field and `GivesInteger` gives the number only
with it. No number that is not an integer gets there, and so the numbers of a case or a range are
`Integral`. -/
namespace ScriptTree.Parsing

variable {scope : Scope} {b : Nat} {s s₀ : State}

/-! ### Functions -/

theorem parameter_reads (hs : Sound scope) :
    Reads scope (some b) parameter s
      (Gives scope.tokens (Role.plain [.argumentDeclaration]) s) := by
  unfold parameter
  rw [reads_sees_bind]
  refine (optionally_reads [.optional (Role.labelled .spread (Role.mark .ellipsis))]
    (fun hdots => ?_) fun _ _ => .absent).bind fun spread s₁ hspread => ?_
  · refine (bump_reads hs.stream (isPunctuation_iff.mp hdots) rfl).bind fun dots s₁ hdots => ?_
    have hdots := hdots.label .spread
    exact .pure ⟨hdots.plain, fun _ _ => .present hdots.role⟩
  refine (expectIdentifier_reads hs.stream rfl).bind fun name s₂ hname => ?_
  rw [reads_sees_bind]
  refine (demand_reads hs.stream).bind ?_
  rintro _ s' ⟨_, rfl⟩
  refine (typeAscription_reads hs).bind fun t s₃ ht => ?_
  have hname := hname.label .declaredName
  have ht := ht.label .type
  refine node_reads (by simpa using (hspread.made.append hname.plain).append ht.plain) ?_
    (by simp) (.free rfl)
  rw [Array.toList_append]
  exact hspread.row _ _ (.one hname.role (.one ht.role .nil))

theorem parameters_reads (hs : Sound scope) :
    Reads scope (some b) parameters s
      (Gives scope.tokens (Role.plain [.argumentListDeclaration]) s) :=
  listOf_reads hs.stream (fun _ => parameter_reads hs) rfl rfl

theorem returnType_reads (hs : Sound scope) :
    Reads scope (some b) returnType s
      (Gives scope.tokens (Role.labelled .returnType (Role.plain [.typeAscription])) s) := by
  unfold returnType
  rw [reads_sees_bind]
  refine (demand_reads hs.stream).bind ?_
  rintro _ s' ⟨_, rfl⟩
  exact (typeAscription_reads hs).bind fun t s₁ ht => .pure (ht.label .returnType)

theorem blockOrExpression_reads (hs : Sound scope) :
    Reads scope (some b) blockOrExpression s (Gives scope.tokens Role.blockOrExpression s) := by
  unfold blockOrExpression opensObject
  rw [reads_sees_bind]
  refine .ite (fun _ => ?_) fun _ => ?_
  · exact (block_reads hs).mono fun n s' hn => hn.mono (List.subset_append_left _ _)
  · exact (expression_reads hs).mono fun n s' hn => hn.mono (List.subset_append_right _ _)

theorem functionDeclaration_reads (hs : Sound scope)
    (hkind : kindAt scope.tokens s.position = .keyword .functionWord) :
    Reads scope (some b) functionDeclaration s
      (Gives scope.tokens (Role.plain [.functionDeclaration]) s) := by
  unfold functionDeclaration
  refine (bump_reads hs.stream hkind rfl).bind fun word s₁ hword => ?_
  refine (expectIdentifier_reads hs.stream rfl).bind fun name s₂ hname => ?_
  refine (parameters_reads hs).bind fun parameters s₃ hparameters => ?_
  refine (returnType_reads hs).bind fun t s₄ ht => ?_
  refine (block_reads hs).bind fun body s₅ hbody => ?_
  have hbody := hbody.label .body
  exact node_reads ((((hword.plain.append hname.plain).append hparameters.plain).append
    ht.plain).append hbody.plain)
    (.one hword.role (.one hname.role (.one hparameters.role (.one ht.role
      (.one hbody.role .nil))))) (by simp) (.free rfl)

theorem anonymousFunction_reads (hs : Sound scope)
    (hkind : kindAt scope.tokens s.position = .keyword .functionWord) :
    Reads scope (some b) anonymousFunction s
      (Gives scope.tokens (Role.plain [.anonymousFunctionExpression]) s) := by
  unfold anonymousFunction
  refine (bump_reads hs.stream hkind rfl).bind fun word s₁ hword => ?_
  refine (parameters_reads hs).bind fun parameters s₂ hparameters => ?_
  refine (returnType_reads hs).bind fun t s₃ ht => ?_
  refine (block_reads hs).bind fun body s₄ hbody => ?_
  have hbody := hbody.label .body
  exact node_reads (((hword.plain.append hparameters.plain).append ht.plain).append hbody.plain)
    (.one hword.role (.one hparameters.role (.one ht.role (.one hbody.role .nil))))
    (by simp) (.free rfl)

theorem arrowFunction_reads (hs : Sound scope) :
    Reads scope (some b) arrowFunction s
      (Gives scope.tokens (Role.plain [.arrowFunctionExpression]) s) := by
  unfold arrowFunction
  refine (parameters_reads hs).bind fun parameters s₁ hparameters => ?_
  refine (returnType_reads hs).bind fun t s₂ ht => ?_
  refine (expect_reads hs.stream .fatArrow).bind fun arrow s₃ harrow => ?_
  refine (blockOrExpression_reads hs).bind fun body s₄ hbody => ?_
  have hbody := hbody.label .body
  exact node_reads (((hparameters.plain.append ht.plain).append harrow.plain).append hbody.plain)
    (.one hparameters.role (.one ht.role (.one harrow.role (.one hbody.role .nil))))
    (by simp) (.free rfl)

/-! ### Match expressions -/

theorem parenthesized_reads (hs : Sound scope) :
    Reads scope (some b) parenthesized s
      (Gives scope.tokens (Role.plain [.parenthesizedExpression]) s) := by
  unfold parenthesized
  refine (expect_reads hs.stream .leftParen).bind fun opening s₁ hopening => ?_
  refine (expression_reads hs).bind fun inner s₂ hinner => ?_
  refine (expect_reads hs.stream .rightParen).bind fun closing s₃ hclosing => ?_
  exact node_reads ((hopening.plain.append hinner.plain).append hclosing.plain)
    (.one hopening.role (.one hinner.role (.one hclosing.role .nil))) (by simp) (.free rfl)

/-! ### Integers -/

/-- A decimal integer made from the state `s` on, for one of the fields of conditions. -/
structure GivesInteger (tokens : Array Token) (s : State) (n : Node) (s' : State) : Prop where
  made : ∀ field ∈ conditionFields, Made tokens s s' [n.withField field]
  symbol : n.symbol = .named .number
  integer : IsInteger tokens n
  lt : s.position < s'.position

theorem GivesInteger.integral {tokens : Array Token} {s s' : State} {n : Node}
    (h : GivesInteger tokens s n s') (field : Field) : Integral tokens [n.withField field] :=
  .single fun _ => h.integer.withField field

theorem GivesInteger.role {tokens : Array Token} {s s' : State} {n : Node}
    (h : GivesInteger tokens s n s') (field : Field) :
    (n.withField field).role ∈ Role.labelled field (Role.plain [.number]) := by
  show (some field, n.symbol) ∈ _
  rw [h.symbol]
  exact List.mem_singleton.mpr rfl

/-- Only the number behind a sign is looked at without reading the token in front. -/
theorem requireInteger_reads (hs : IsStream scope.tokens) {i : Nat}
    (hi : i = s.position ∨ i = s.position + 1 ∧ isSign (kindAt scope.tokens s.position) = true) :
    Reads scope (some b) (requireInteger (tokenAt scope.tokens i)) s fun _ s' =>
      (∃ text, kindAt scope.tokens i = .number text ∧ text.all Char.isDigit = true) ∧ s' = s := by
  unfold requireInteger
  split
  · rename_i text htext
    refine .ite (fun hdigits => .pure ⟨⟨text, htext, hdigits⟩, rfl⟩) fun _ => ?_
    rcases hi with rfl | ⟨rfl, hsign⟩
    · exact throwHere_reads hs (.inl rfl)
    · refine throw_reads (fun b' hb' hle hlt => ?_) rfl
      cases hb'
      have hnext := hs.succ_lt hlt (isSign_ne_endOfFile hsign)
      exact .ahead hs (.inl rfl) hle (Nat.le_succ _) hnext (.inr ⟨hsign, Nat.le_refl _⟩)
  · exact unexpected_reads hs

theorem signedInteger_reads (hs : IsStream scope.tokens) :
    Reads scope (some b) signedInteger s (GivesInteger scope.tokens s) := by
  unfold signedInteger
  rw [reads_peek_bind]
  refine .ite (fun hsign => ?_) fun _ => ?_
  · have hreal := isSign_ne_endOfFile hsign
    rw [reads_tokenAhead_bind]
    refine (demand_reads hs).bind ?_
    rintro _ s' ⟨htouching, rfl⟩
    refine (requireInteger_reads hs (.inr ⟨rfl, hsign⟩)).bind ?_
    rintro _ s ⟨⟨text, htext, hdigits⟩, rfl⟩
    refine (advance_reads hs hreal).bind fun sign s₁ ⟨hsignToken, hs₁, hproblems₁⟩ => ?_
    refine (advance_reads hs (by rw [hs₁, htext]; exact nofun)).bind
      fun number s₂ ⟨hnumber, hs₂, hproblems₂⟩ => ?_
    refine leaf_reads.mono fun n s' ⟨hn, hsame⟩ => ?_
    subst hsignToken hnumber hn
    have hposition : s'.position = s.position + 2 := by rw [hsame.1, hs₂, hs₁]
    refine ⟨fun field hfield => ⟨[], ?_, ?_⟩, rfl, ?_, by omega⟩
    · rw [hsame.2, hproblems₂, hproblems₁, List.append_nil]
    · rw [hposition, hs₁]
      exact .signed hsign htext hdigits (beq_iff_eq.mp htouching) hfield .nil
    · rw [hs₁]
      exact .signed hsign htext hdigits (beq_iff_eq.mp htouching) rfl
  · refine (requireInteger_reads hs (.inl rfl)).bind ?_
    rintro _ s' ⟨⟨text, htext, hdigits⟩, rfl⟩
    refine (bump_next hs htext rfl).mono fun n s₁ ⟨hn, hposition⟩ => ?_
    have hspan : n.span = spanAt scope.tokens s'.position := by
      rw [hn.span_eq hs, hposition, stopBefore_succ]
    exact ⟨fun field _ => hn.made (some field), congrArg Prod.snd (List.mem_singleton.mp hn.role),
      .plain htext hdigits hspan, hn.lt⟩

/-- An integer or a range of integers in the place of a condition. -/
theorem integerCondition_reads (hs : IsStream scope.tokens) :
    Reads scope (some b) integerCondition s fun n s' =>
      Made scope.tokens s s' [n.withField .condition] ∧
        (n.withField .condition).role ∈ Role.labelled .condition Role.conditions ∧
          Integral scope.tokens [n.withField .condition] ∧ s.position < s'.position := by
  unfold integerCondition
  refine (signedInteger_reads hs).bind fun first s₁ hfirst => ?_
  rw [reads_sees_bind]
  refine .ite (fun hdots => ?_) fun _ => ?_
  · refine (bump_reads hs (isPunctuation_iff.mp hdots) rfl).bind fun dots s₂ hdots => ?_
    refine (signedInteger_reads hs).bind fun last s₃ hlast => ?_
    have hmade := ((hfirst.made .rangeStart (by decide)).append hdots.plain).append
      (hlast.made .rangeEnd (by decide))
    have hintegral := ((hfirst.integral .rangeStart).append
      (hdots.integral (by decide))).append (hlast.integral .rangeEnd)
    refine .mono (node_reads hmade (.one (hfirst.role _) (.one hdots.role
      (.one (hlast.role _) .nil))) (by simp) (.integers (by decide) hintegral)) fun n s' hn => ?_
    have hn := hn.label .condition
    exact ⟨hn.plain, List.map_subset _ (by decide) hn.role, hn.integral (by decide), hn.lt⟩
  · exact .pure ⟨hfirst.made .condition (by decide), List.map_subset _ (by decide) (hfirst.role _),
      hfirst.integral .condition, hfirst.lt⟩

/-! ### Conditions -/

/-- What stands in a case between the word and the colon. -/
def conditionRoles : List Role :=
  Role.labelled .condition (Role.conditions ++ Role.mark .comma ++ Role.mark .dot)

/-- Children with a condition behind those of before, and more of what conditions are made of. No
number among them is anything but an integer. -/
def AddsCondition (tokens : Array Token) (s₀ s : State) (before after : Array Node) (s' : State) :
    Prop :=
  ∃ first : Node, first.role ∈ Role.labelled .condition Role.conditions ∧
    Gathers tokens s₀ (before.toList ++ [first]) conditionRoles after s' ∧
      Integral tokens after.toList ∧ s.position < s'.position

/-- What stands in front of a condition: children that are kept, and integers if they are numbers. -/
structure Precedes (tokens : Array Token) (s₀ s : State) (before : Array Node) : Prop where
  made : Made tokens s₀ s before.toList
  integral : Integral tokens before.toList

/-- A condition that is one node. -/
theorem AddsCondition.single {tokens : Array Token} {s' : State} {before : Array Node} {n : Node}
    (h : Precedes tokens s₀ s before) (hn : Made tokens s s' [n])
    (hrole : n.role ∈ Role.labelled .condition Role.conditions) (hinteger : Integral tokens [n])
    (hlt : s.position < s'.position) : AddsCondition tokens s₀ s before (before.push n) s' := by
  refine ⟨n, hrole, ?_, ?_, hlt⟩
  · rw [← Array.toList_push]
    refine .start _ ?_
    rw [Array.toList_push]
    exact h.made.append hn
  · rw [Array.toList_push]
    exact h.integral.append hinteger

theorem AddsCondition.of_gives {tokens : Array Token} {s' : State} {before : Array Node} {n : Node}
    {roles : List Role} (h : Precedes tokens s₀ s before) (hn : Gives tokens roles s n s')
    (hroles : Role.labelled .condition roles ⊆ Role.labelled .condition Role.conditions)
    (hother : Symbol.named .number ∉ roles.map Prod.snd) :
    AddsCondition tokens s₀ s before (before.push (n.withField .condition)) s' :=
  have hinteger := (hn.integral hother).label .condition
  have hn := hn.label .condition
  .single h hn.plain (hroles hn.role) hinteger hn.lt

/-- A name with more names behind it, each behind a point. -/
theorem pathCondition_reads (hs : IsStream scope.tokens) {children : Array Node} {name : String}
    (h : Precedes scope.tokens s₀ s children)
    (hkind : kindAt scope.tokens s.position = .identifier name) :
    Reads scope (some b) (pathCondition children) s (AddsCondition scope.tokens s₀ s children) := by
  unfold pathCondition
  refine (bump_reads hs hkind rfl).bind fun n s₁ hn => ?_
  have hn : Gives scope.tokens (Role.plain [.identifier]) s n s₁ := hn
  refine Reads.loop _ (AddsCondition.of_gives h hn (by decide) (by decide)) fun path s₂ hpath => ?_
  obtain ⟨first, hfirst, hgathers, hintegral, hlt⟩ := hpath
  rw [reads_sees_bind, reads_kindAhead_bind]
  refine .ite (fun hmore => ?_) fun _ => .pure ⟨first, hfirst, hgathers, hintegral, hlt⟩
  rw [Bool.and_eq_true] at hmore
  obtain ⟨next, hnext⟩ := isIdentifier_iff.mp hmore.2
  refine (bump_next hs (isPunctuation_iff.mp hmore.1) rfl).bind fun point s₃ ⟨hpoint, hposition⟩ => ?_
  refine (bump_reads hs (hposition ▸ hnext) rfl).bind fun name s₄ hname => ?_
  have hname : Gives scope.tokens (Role.plain [.identifier]) s₃ name s₄ := hname
  have hlonger := hpoint.lt.trans hname.lt
  refine .pure ⟨⟨first, hfirst, ?_, ?_, hlt.trans hlonger⟩, hlonger⟩
  · exact (hgathers.push (hpoint.label .condition) (by decide)).push (hname.label .condition)
      (by decide)
  · have hadded := ((hpoint.integral (by decide)).label .condition).append
      ((hname.integral (by decide)).label .condition)
    simpa using hintegral.append hadded

theorem condition_reads (hs : IsStream scope.tokens) {children : Array Node}
    (h : Precedes scope.tokens s₀ s children) :
    Reads scope (some b) (condition children) s (AddsCondition scope.tokens s₀ s children) := by
  have hinteger : Reads scope (some b)
      (integerCondition >>= fun n => pure (children.push (n.withField .condition))) s
      (AddsCondition scope.tokens s₀ s children) :=
    (integerCondition_reads hs).bind fun n s₁ ⟨hn, hrole, hintegral, hlt⟩ =>
      .pure (.single h hn hrole hintegral hlt)
  unfold condition
  rw [reads_peekKind_bind]
  split
  · exact hinteger
  · exact hinteger
  · exact hinteger
  · exact (stringLiteral_reads hs ‹_›).bind fun n s₁ hn =>
      .pure (.of_gives h hn (by decide) (by decide))
  · exact pathCondition_reads hs h ‹_›
  · split
    · exact (literalKind_reads hs ‹_›).bind fun n s₁ hn =>
        .pure (.of_gives h hn (by decide) (by decide))
    · exact unexpected_reads hs

/-- Conditions behind the children of before, the first of them being one. -/
theorem conditions_reads (hs : IsStream scope.tokens) {children : Array Node}
    (h : Precedes scope.tokens s₀ s children) :
    Reads scope (some b) (conditions children) s (AddsCondition scope.tokens s₀ s children) := by
  unfold conditions
  refine (condition_reads hs h).bind fun more s₁ hmore => Reads.loop _ hmore fun more s₁ hmore => ?_
  obtain ⟨first, hfirst, hgathers, hintegral, hlt⟩ := hmore
  rw [reads_sees_bind]
  refine .ite (fun hcomma => ?_) fun _ => .pure ⟨first, hfirst, hgathers, hintegral, hlt⟩
  refine (bump_reads hs (isPunctuation_iff.mp hcomma) rfl).bind fun comma s₂ hcomma => ?_
  have hpush := hgathers.push (hcomma.label .condition) (by decide)
  have hcommaIntegral := (hcomma.integral (by decide)).label .condition
  have hbefore : Precedes scope.tokens s₀ s₂ (more.push (comma.withField .condition)) :=
    ⟨hpush.made, by rw [Array.toList_push]; exact hintegral.append hcommaIntegral⟩
  refine (condition_reads hs hbefore).bind
    fun more s₃ ⟨next, hnext, hnextGathers, hnextIntegral, hnextLt⟩ => ?_
  have hlonger := hcomma.lt.trans hnextLt
  refine .pure ⟨⟨first, hfirst, ?_, hnextIntegral, hlt.trans hlonger⟩, hlonger⟩
  have hroles : Role.labelled .condition Role.conditions ⊆ conditionRoles := by decide
  exact hpush.through (hroles hnext) hnextGathers

/-! ### Cases -/

theorem matchCase_reads (hs : Sound scope)
    (hkind : kindAt scope.tokens s.position = .keyword .caseWord) :
    Reads scope (some b) matchCase s (Gives scope.tokens (Role.plain [.matchCase]) s) := by
  unfold matchCase
  refine (bump_reads hs.stream hkind rfl).bind fun word s₁ hword => ?_
  refine (conditions_reads hs.stream ⟨hword.plain, hword.integral (by decide)⟩).bind
    fun children s₂ ⟨first, hfirst, hchildren, hintegral, _⟩ => ?_
  refine (expect_reads hs.stream .colon).bind fun colon s₃ hcolon => ?_
  refine (blockOrExpression_reads hs).bind fun consequence s₄ hconsequence => ?_
  refine (expectOrMissing_reads hs.stream (.inl rfl)).bind fun stop s₅ ⟨hstop, hrole, _⟩ => ?_
  have hconsequence := hconsequence.label .consequence
  obtain ⟨hmade, items, hlist, hroles⟩ := hchildren
  have hall := ((hmade.append hcolon.plain).append hconsequence.plain).append hstop
  have hintegers := ((hintegral.append (hcolon.integral (by decide))).append
    (hconsequence.integral (by decide))).append (.of_role hrole (by decide))
  refine node_reads (by simpa using hall) ?_ (by simp)
    (.integers (by decide) (by simpa using hintegers))
  rw [Array.toList_append, hlist]
  simp only [List.cons_append, List.nil_append]
  exact .one hword.role (.one hfirst (.many hroles (.one hcolon.role (.one hconsequence.role
    (.one hrole .nil)))))

theorem matchElse_reads (hs : Sound scope)
    (hkind : kindAt scope.tokens s.position = .keyword .elseWord) :
    Reads scope (some b) matchElse s (Gives scope.tokens (Role.plain [.matchElse]) s) := by
  unfold matchElse
  refine (bump_reads hs.stream hkind rfl).bind fun word s₁ hword => ?_
  refine (expect_reads hs.stream .colon).bind fun colon s₂ hcolon => ?_
  refine (blockOrExpression_reads hs).bind fun consequence s₃ hconsequence => ?_
  refine (expectOrMissing_reads hs.stream (.inl rfl)).bind fun stop s₄ ⟨hstop, hrole, _⟩ => ?_
  have hconsequence := hconsequence.label .consequence
  exact node_reads (((hword.plain.append hcolon.plain).append hconsequence.plain).append hstop)
    (.one hword.role (.one hcolon.role (.one hconsequence.role (.one hrole .nil))))
    (by simp) (.free rfl)

theorem matchExpression_reads (hs : Sound scope)
    (hkind : kindAt scope.tokens s.position = .keyword .matchWord) :
    Reads scope (some b) matchExpression s
      (Gives scope.tokens (Role.plain [.matchExpression]) s) := by
  unfold matchExpression
  refine (bump_reads hs.stream hkind rfl).bind fun word s₁ hword => ?_
  refine (parenthesized_reads hs).bind fun value s₂ hvalue => ?_
  refine (expect_reads hs.stream .leftBrace).bind fun opening s₃ hopening => ?_
  refine .bind (Reads.gather (Role.labelled .body (Role.plain [.matchCase])) .refl
    fun cases s₄ hcases => ?_) fun cases s₄ ⟨hcases, items, hlist, hroles⟩ => ?_
  · rw [reads_seesWord_bind]
    refine .ite (fun hword => ?_) fun _ => .pure hcases
    exact (matchCase_reads hs (isKeyword_iff.mp hword)).bind fun n s₅ hn =>
      .pure (hcases.more (hn.label .body) (List.Subset.refl _))
  rw [reads_seesWord_bind]
  refine (optionally_reads [.optional (Role.labelled .body (Role.plain [.matchElse]))]
    (fun hword => ?_) fun _ _ => .absent).bind fun fallback s₅ hfallback => ?_
  · refine (matchElse_reads hs (isKeyword_iff.mp hword)).bind fun n s₅ hn => ?_
    have hn := hn.label .body
    exact .pure ⟨hn.plain, fun _ _ => .present hn.role⟩
  refine (expect_reads hs.stream .rightBrace).bind fun closing s₆ hclosing => ?_
  have hvalue := hvalue.label .value
  have hopening := hopening.label .body
  have hclosing := hclosing.label .body
  have hall := ((((hword.plain.append hvalue.plain).append hopening.plain).append hcases).append
    hfallback.made).append hclosing.plain
  refine node_reads (by simpa using hall) ?_ (by simp) (.plain rfl fun _ c hc => ?_)
  · simp only [Array.toList_append, hlist, List.append_assoc, List.cons_append, List.nil_append]
    exact .one hword.role (.one hvalue.role (.one hopening.role (.many hroles
      (hfallback.row _ _ (.one hclosing.role .nil)))))
  · rw [Array.toList_append, List.getLast?_append] at hc
    obtain rfl : closing.withField .body = c := by simpa using hc
    exact hclosing.present

end ScriptTree.Parsing
