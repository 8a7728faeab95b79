import Mathlib
import ScriptTree.Proofs.Parsing.Braces
import ScriptTree.Proofs.Parsing.Costs
import ScriptTree.Proofs.Parsing.Delimiters

/-! Every production pays for its nodes.

One instance for each production says what it costs; most leave over nearly all that their first token pays
for. A statement that fails pays too: its nodes are dropped, and what is skipped is kept as leaves, one for
each token (`pays_damage`). So whatever is parsed at any level pays for its nodes (`level_frugal`), where
the tokens are those of a source (`lex_metered`). -/
namespace ScriptTree

namespace Parsing

variable {facing : Facing} {k : Nat}

/-! ### Types -/

section Types

theorem real_of_literalKind {kind : TokenKind} {literal : NodeKind}
    (h : literalKind? kind = some literal) : Real kind := by
  refine ⟨?_⟩
  rintro rfl
  cases h

instance : Costs .token k tupleType (k + 30) := by
  unfold tupleType
  dsimp only
  exact .leaves inferInstance (by decide)

instance : Costs facing k typeAtom (k + 30) := by
  unfold typeAtom
  refine .peekKind fun kind => ?_
  split
  · split <;> exact .leaves inferInstance (by decide)
  · exact .leaves inferInstance (by decide)
  · exact .leaves inferInstance (by decide)
  · split
    · have := real_of_literalKind ‹_›
      exact .leaves inferInstance (by decide)
    · exact .leaves inferInstance (by decide)

set_option synthInstance.maxSize 256 in
instance : Costs facing k postfixType (k + 30) := by
  unfold postfixType
  exact .leaves inferInstance (by decide)

instance : Costs facing k firstOperand (k + 30) := by
  unfold firstOperand
  exact .leaves inferInstance (by decide)

instance : Costs facing k unionType (k + 30) := by
  unfold unionType
  exact .leaves inferInstance (by decide)

instance : Costs facing k typeAscription (k + 30) := by
  unfold typeAscription
  exact .leaves inferInstance (by decide)

end Types

/-! ### Literals and names -/

section Literals

instance (symbol : Symbol) (closed : Bool) (offset : Nat) :
    Costs facing (k + 1) (closingLeaf symbol closed offset) k := by
  unfold closingLeaf
  split <;> infer_instance

instance (part : StringPart) : Costs facing (k + 1) (partLeaf part) k := by
  cases part <;> exact Costs.leaf _ _

/-- A string has a byte for each of its parts, and two for its marks. -/
instance (quote : Punctuation) (parts : List StringPart) :
    Costs (.kind (.string quote parts)) k (stringLiteral quote parts) (k + 30) := by
  unfold stringLiteral
  dsimp only
  exact .leaves inferInstance (by decide)

instance (pattern : Span) (flags : Option Span) :
    Costs .token k (regexLiteral pattern flags) (k + 30) := by
  unfold regexLiteral
  cases flags <;> exact .leaves inferInstance (by decide)

instance : Costs .token k templateSubstitution (k + 30) := by
  unfold templateSubstitution
  exact .leaves inferInstance (by decide)

instance : Costs .token k templateString (k + 30) := by
  have (children : Array Node) : Costs .anything 0 (do
      match ← peekKind with
      | .templateChars | .templateEscape => return .more (children.push (← bump))
      | .punctuation .dollarBrace => return .more (children.push (← templateSubstitution))
      | _ => return .done children : Parse (Round (Array Node))) 0 := by
    refine .peekKind fun kind => ?_
    split <;> exact .weaken inferInstance (Nat.zero_le _)
  unfold templateString
  exact .leaves inferInstance (by decide)

instance : Costs .token k arrayLiteral (k + 30) := by
  unfold arrayLiteral
  dsimp only
  exact .leaves inferInstance (by decide)

instance (children : Array Node) : Costs facing k (objectMember children) (k + 30) := by
  unfold objectMember
  exact .leaves inferInstance (by decide)

instance : Costs .token k objectLiteral (k + 30) := by
  unfold objectLiteral
  dsimp only
  exact .leaves inferInstance (by decide)

instance : Costs .token k comptimeIdentifier (k + 30) := by
  unfold comptimeIdentifier
  exact .leaves inferInstance (by decide)

instance : Costs facing k privateName (k + 30) := by
  unfold privateName
  exact .leaves inferInstance (by decide)

end Literals

/-! ### Statements that may fail -/

section Recovery

theorem size_builtLeaves {tokens : Array Token} {start stop : Nat} (h : stop ≤ tokens.size) :
    (builtLeaves tokens start stop).size = stop - start := by
  rw [builtLeaves, List.size_toArray, List.length_map, Array.length_toList, Array.size_extract,
    Nat.min_eq_left h]

/-- What is skipped pays for its leaves and for the damage over them; nothing else is kept of a
statement that fails. -/
theorem pays_damage {scope : Scope} (hs : IsStream scope.tokens) {s s' : State}
    (hreal : kindAt scope.tokens s.position ≠ .endOfFile) (hgrows : Grows scope.tokens s s')
    (problem : Problem) : Pays scope.tokens 0 0 s (errorNode? s.position
      (s.resumed scope.tokens s' problem).position scope (s.resumed scope.tokens s' problem)) := by
  have hproceeds := hgrows.proceeds (lt_size_of_real hreal)
  have hskip := lt_resumed hproceeds.1 hreal problem
  have hinside : (s.resumed scope.tokens s' problem).position < scope.tokens.size :=
    resumeFrom_lt hs hproceeds.2
  have hmade : (s.resumed scope.tokens s' problem).made.size = s.made.size := by
    rw [State.resumed, Array.size_shrink, Nat.min_eq_left hgrows.size_le]
  have hcovered := hs.start_add_le hskip.le hinside
  rw [errorNode?_eq hskip]
  refine ⟨hinside, ?_⟩
  dsimp only
  rw [size_keep, Array.size_append, size_builtLeaves hinside.le, hmade]
  show 39 * _ + _ + 0 ≤ 0 + 39 * _ + _
  dsimp only
  omega

instance : Costs .token k statementOrError k := by
  suffices Costs .token 0 statementOrError 0 from this.frame k
  refine ⟨.statementOrError, fun scope hscope s hs hreal => ?_⟩
  have hpays := hscope.pays .statement s hs
  have hgrows := hscope.grows .statement s
  rw [statementOrError_eq]
  cases hrun : scope.deeper .statement s with
  | ok n s' =>
    rw [hrun] at hpays
    exact hpays
  | error problem s' =>
    rw [hrun] at hgrows
    exact pays_damage hscope.metered.stream hreal hgrows.1 problem

instance (inBlock : Bool) (children : Array Node) :
    Costs facing k (statements inBlock children) k := by
  have (children : Array Node) (o : Option Node) : Costs .anything 0 (match o with
      | some n => Pure.pure (.more (children.push n))
      | none => Pure.pure (.more children) : Parse (Round (Array Node))) 0 := by
    cases o <;> infer_instance
  unfold statements
  infer_instance

instance : Costs facing k block (k + 30) := by
  unfold block
  exact .leaves inferInstance (by decide)

end Recovery

/-! ### Functions -/

section Callables

instance : Costs facing k parameter (k + 30) := by
  unfold parameter
  exact .leaves inferInstance (by decide)

instance : Costs facing k parameters (k + 75) := by
  unfold parameters
  infer_instance

instance : Costs facing k returnType (k + 30) := by
  unfold returnType
  exact .leaves inferInstance (by decide)

instance : Costs facing k blockOrExpression (k + 29) := by
  unfold blockOrExpression
  exact .leaves inferInstance (by decide)

instance : Costs .token k functionDeclaration (k + 30) := by
  unfold functionDeclaration
  exact .leaves inferInstance (by decide)

instance : Costs .token k anonymousFunction (k + 30) := by
  unfold anonymousFunction
  exact .leaves inferInstance (by decide)

instance : Costs facing k arrowFunction (k + 30) := by
  unfold arrowFunction
  exact .leaves inferInstance (by decide)

end Callables

/-! ### Match expressions -/

section Match

instance : Costs facing k parenthesized (k + 30) := by
  unfold parenthesized
  exact .leaves inferInstance (by decide)

instance : Costs .token k signedInteger (k + 30) := by
  unfold signedInteger
  exact .leaves inferInstance (by decide)

/-- The number behind the points of a range may be missing. -/
instance : Costs .anything (k + 1) signedInteger k := by
  unfold signedInteger
  exact .weaken inferInstance (by omega)

instance : Costs .token k integerCondition (k + 30) := by
  unfold integerCondition
  exact .leaves inferInstance (by decide)

instance (children : Array Node) : Costs .token k (pathCondition children) (k + 30) := by
  unfold pathCondition
  exact .leaves inferInstance (by decide)

instance (children : Array Node) : Costs facing k (condition children) (k + 30) := by
  unfold condition
  refine .peekKind fun kind => ?_
  split
  · exact .leaves inferInstance (by decide)
  · exact .leaves inferInstance (by decide)
  · exact .leaves inferInstance (by decide)
  · exact .leaves inferInstance (by decide)
  · exact .leaves inferInstance (by decide)
  · split
    · have := real_of_literalKind ‹_›
      exact .leaves inferInstance (by decide)
    · exact .leaves inferInstance (by decide)

instance (children : Array Node) : Costs facing k (conditions children) (k + 30) := by
  unfold conditions
  exact .leaves inferInstance (by decide)

instance : Costs .token k matchCase (k + 30) := by
  unfold matchCase
  exact .leaves inferInstance (by decide)

instance : Costs .token k matchElse (k + 30) := by
  unfold matchElse
  exact .leaves inferInstance (by decide)

set_option synthInstance.maxSize 256 in
instance : Costs .token k matchExpression (k + 30) := by
  unfold matchExpression
  exact .leaves inferInstance (by decide)

end Match

/-! ### Operands -/

section Operands

instance : Costs facing k primaryContent (k + 30) := by
  unfold primaryContent
  refine .peekKind fun kind => ?_
  split
  all_goals try exact .leaves inferInstance (by decide)
  split
  · have := real_of_literalKind ‹_›
    exact .leaves inferInstance (by decide)
  · exact .leaves inferInstance (by decide)

instance : Costs facing k primary (k + 29) := by
  unfold primary
  exact .leaves inferInstance (by decide)

instance : Costs facing k argument (k + 29) := by
  unfold argument
  exact .leaves inferInstance (by decide)

instance : Costs facing k arguments (k + 75) := by
  unfold arguments
  infer_instance

instance : Costs .token k accessMark (k + 30) := by
  unfold accessMark
  exact .leaves inferInstance (by decide)

instance : Costs facing k propertyName (k + 30) := by
  unfold propertyName
  exact .leaves inferInstance (by decide)

instance (object : Node) : Costs .token k (member object) (k + 30) := by
  unfold member
  exact .leaves inferInstance (by decide)

instance (operand : Node) : Costs facing k (call operand) (k + 30) := by
  unfold call
  exact .leaves inferInstance (by decide)

instance (operand : Node) : Costs .token k (optionalCall operand) (k + 30) := by
  unfold optionalCall
  exact .leaves inferInstance (by decide)

instance (operand : Node) : Costs .token k (access operand) (k + 29) := by
  unfold access
  exact .leaves inferInstance (by decide)

instance (operand : Node) : Costs facing k (extend operand) k := by
  unfold extend
  refine .peekKind fun kind => ?_
  split <;> exact .keeps inferInstance

instance : Costs facing k operand (k + 29) := by
  unfold operand
  exact .leaves inferInstance (by decide)

end Operands

/-! ### Assignments and patterns -/

section Assignments

instance (target : Node) : Costs facing k (assignmentRest target) (k + 30) := by
  unfold assignmentRest
  exact .leaves inferInstance (by decide)

instance (target : Node) : Costs .token k (augmentedRest target) (k + 30) := by
  unfold augmentedRest
  exact .leaves inferInstance (by decide)

instance (operand : Node) : Costs facing k (assignmentOr operand) k := by
  unfold assignmentOr
  refine .peekKind fun kind => ?_
  split <;> exact .keeps inferInstance

instance : Costs facing k target (k + 29) := by
  unfold target
  refine .peekKind fun kind => ?_
  split <;> exact .leaves inferInstance (by decide)

instance : Costs .token k restPattern (k + 30) := by
  unfold restPattern
  exact .leaves inferInstance (by decide)

instance : Costs facing k patternContent (k + 29) := by
  unfold patternContent
  exact .leaves inferInstance (by decide)

instance : Costs facing k pattern (k + 28) := by
  unfold pattern
  exact .leaves inferInstance (by decide)

instance : Costs facing k patternWithDefault (k + 28) := by
  unfold patternWithDefault
  exact .leaves inferInstance (by decide)

instance (key : Node) : Costs facing k (pairRest key) (k + 30) := by
  unfold pairRest
  exact .leaves inferInstance (by decide)

instance : Costs facing k objectPatternMember (k + 29) := by
  unfold objectPatternMember
  refine .peekKind fun kind => ?_
  split <;> exact .leaves inferInstance (by decide)

instance : Costs facing k objectPattern (k + 75) := by
  unfold objectPattern
  infer_instance

instance : Costs facing k arrayPattern (k + 75) := by
  unfold arrayPattern
  infer_instance

instance : Costs facing k destructuringPattern (k + 75) := by
  unfold destructuringPattern
  exact .leaves inferInstance (by decide)

instance : Costs facing k destructuringAssignment (k + 30) := by
  unfold destructuringAssignment
  exact .leaves inferInstance (by decide)

end Assignments

/-! ### Operators -/

section Operations

instance : Costs .token k unaryOperation (k + 30) := by
  unfold unaryOperation
  exact .leaves inferInstance (by decide)

instance : Costs facing k privateMembership (k + 30) := by
  unfold privateMembership
  exact .leaves inferInstance (by decide)

instance : Costs .token k ifTernary (k + 30) := by
  unfold ifTernary
  exact .leaves inferInstance (by decide)

instance : Costs facing k unary (k + 29) := by
  unfold unary
  refine .peekKind fun kind => ?_
  split <;> exact .leaves inferInstance (by decide)

theorem real_of_binaryOperator {kind : TokenKind} {binding : Nat × Associativity}
    (h : (binaryOperator? kind).bind Operator.binding? = some binding) : Real kind := by
  refine ⟨?_⟩
  rintro rfl
  cases h

instance (least : Nat) (left : Node) : Costs facing k (operateOn least left) k := by
  unfold operateOn
  split
  · infer_instance
  refine .peekKind fun kind => ?_
  split
  · infer_instance
  · have := real_of_binaryOperator ‹_›
    exact .keeps inferInstance

instance (least : Nat) : Costs facing k (binary least) (k + 29) := by
  unfold binary
  exact .leaves inferInstance (by decide)

end Operations

/-! ### Statements -/

section Statements

instance : Costs .token k initializer (k + 30) := by
  unfold initializer
  exact .leaves inferInstance (by decide)

set_option synthInstance.maxSize 256 in
instance : Costs .token k variableDeclaration (k + 30) := by
  unfold variableDeclaration
  exact .leaves inferInstance (by decide)

instance : Costs facing k enumMember (k + 38) := by
  unfold enumMember
  infer_instance

instance : Costs .token k enumDeclaration (k + 30) := by
  unfold enumDeclaration
  dsimp only
  exact .leaves inferInstance (by decide)

/-- The word of the statement behind `else` is not paid for by looking at it. -/
instance : Costs facing (k + 1) alternative (k + 29) := by
  unfold alternative
  exact .leaves_of_one inferInstance (by decide)

instance : Costs .token k elseBranch (k + 30) := by
  unfold elseBranch
  exact .leaves inferInstance (by decide)

set_option synthInstance.maxSize 256 in
instance : Costs .token k ifStatement (k + 29) := by
  unfold ifStatement
  exact .leaves inferInstance (by decide)

set_option synthInstance.maxSize 256 in
instance : Costs .anything (k + 1) ifStatement (k + 29) := by
  unfold ifStatement
  exact .leaves_of_one inferInstance (by decide)

instance : Costs .token k returnStatement (k + 30) := by
  unfold returnStatement
  exact .leaves inferInstance (by decide)

instance : Costs .token k breakStatement (k + 30) := by
  unfold breakStatement
  exact .leaves inferInstance (by decide)

instance : Costs facing k expressionStatement k := by
  have (start : Span) (value : Node) : Costs .anything 29 (match value.kind? with
      | some .assignmentExpression => Pure.pure value
      | some .callExpression => do node .callStatement #[value, ← expectOrMissing .semicolon]
      | _ => throw ⟨.notAStatement, start.merge value.span⟩ : Parse Node) 0 := by
    split <;> exact .weaken inferInstance (Nat.zero_le _)
  unfold expressionStatement
  exact .keeps inferInstance

instance : Costs facing k anyStatement k := by
  unfold anyStatement
  refine .peekKind fun kind => ?_
  split <;> exact .keeps inferInstance

end Statements

/-! ### Levels -/

/-- What is parsed for a goal pays as the goal promises. -/
instance (goal : Goal) : Costs .anything goal.need (production goal) goal.gain := by
  have htype : Costs .anything 0 unionType (0 + 30) := inferInstance
  have hobject : Costs .anything 0 objectPattern (0 + 75) := inferInstance
  have harray : Costs .anything 0 arrayPattern (0 + 75) := inferInstance
  cases goal with
  | statement => exact inferInstanceAs (Costs .anything 0 anyStatement 0)
  | ifStatement => exact inferInstanceAs (Costs .anything (0 + 1) ifStatement (0 + 29))
  | binary least => exact inferInstanceAs (Costs .anything 0 (binary least) (0 + 29))
  | unary => exact inferInstanceAs (Costs .anything 0 unary (0 + 29))
  | type => exact htype.weaken (by decide)
  | pattern => exact inferInstanceAs (Costs .anything 0 pattern (0 + 28))
  | objectPattern => exact hobject.weaken (by decide)
  | arrayPattern => exact harray.weaken (by decide)

theorem EndsOnce.grows {scope : Scope} (hends : EndsOnce scope.tokens)
    (hdeep : ∀ goal s, Leads (Grows scope.tokens) (fun _ => True) s (scope.deeper goal s)) :
    Respected scope (Grows scope.tokens) fun _ => True where
  refl _ := .refl
  trans _ _ _ := .trans
  advance _ hreal := ⟨fun h => ⟨Nat.le_succ _, hends.succ_lt h hreal⟩, Nat.le_refl _⟩
  make s n := ⟨fun h => ⟨Nat.le_refl _, h⟩, by rw [size_keep]; exact Nat.le_succ _⟩
  missing _ _ _ := ⟨fun h => ⟨Nat.le_refl _, h⟩, Nat.le_refl _⟩
  throw _ _ _ := trivial
  deeper := hdeep
  recover s problem s' hrun := by
    have hleads := hdeep .statement s
    rw [hrun] at hleads
    refine ⟨fun h => ?_, ?_⟩
    · obtain ⟨hle, hlt⟩ := hleads.1.proceeds h
      exact ⟨hle.trans le_resumeFrom, hends.resumeFrom_lt hlt⟩
    · rw [State.resumed, Array.size_shrink, Nat.min_eq_left hleads.1.size_le]

theorem level_grows {tokens : Array Token} (hends : EndsOnce tokens) (maxDepth levels : Nat) :
    Respected ⟨tokens, level tokens maxDepth levels⟩ (Grows tokens) fun _ => True :=
  level_respected (fun _ => .refl) (fun _ => trivial) (fun _ hdeep => hends.grows hdeep) levels

/-- **Whatever is parsed at any level pays for its nodes.** -/
theorem level_frugal {tokens : Array Token} (hmetered : Metered tokens) (maxDepth levels : Nat) :
    Frugal ⟨tokens, level tokens maxDepth levels⟩ := by
  refine ⟨hmetered, (level_grows hmetered.stream.endsOnce maxDepth levels).deeper, ?_⟩
  induction levels with
  | zero => exact fun goal s hs => (Spends.refl hs).weaken (Nat.zero_le _)
  | succ levels ih =>
    have hscope : Frugal ⟨tokens, level tokens maxDepth levels⟩ :=
      ⟨hmetered, (level_grows hmetered.stream.endsOnce maxDepth levels).deeper, ih⟩
    intro goal s hs
    have hgoal : Costs .anything goal.need (production goal) goal.gain := inferInstance
    exact hgoal.pays _ hscope s hs trivial

end Parsing

/-! ### The tokens of a source -/

theorem Fills.length_le {a b : Nat} {parts : List StringPart} (h : Fills a parts b) :
    a + parts.length ≤ b := by
  induction h with
  | nil => exact Nat.le_refl _
  | cons proper _ ih =>
    rw [List.length_cons]
    omega

/-- The parts of a string are at least a byte wide each, and in front of them stands its mark. -/
theorem lex_metered (source : String) : Parsing.Metered (lex source).tokens := by
  refine ⟨lex_isStream source, fun i quote parts hkind => ?_⟩
  have hreal : Parsing.kindAt (lex source).tokens i ≠ .endOfFile := by
    rw [hkind]
    exact Parsing.Real.ne
  have hquoted := lex_strings (Parsing.tokenAt_mem (Parsing.lt_size_of_real hreal)) hkind
  change (Parsing.tokenAt _ i).span.start + parts.length + 1 ≤ (Parsing.tokenAt _ i).span.stop
  by_cases hreported : ⟨.unterminatedString, (Parsing.tokenAt (lex source).tokens i).span⟩ ∈
      (lex source).problems.toList
  · have hparts := (hquoted.ended hreported).1.length_le
    omega
  · have hparts := (hquoted.closed hreported).1.length_le
    omega

end ScriptTree
