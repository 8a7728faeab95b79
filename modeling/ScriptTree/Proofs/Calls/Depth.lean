import Mathlib
import ScriptTree.Proofs.Calls.Agreement
import ScriptTree.Proofs.Calls.Woven

/-! How deep the functions of the parser call each other.

Between two calls that go one level deeper, each function only calls functions of a lower rank
(`Routine.rank`), and there are sixteen ranks. So a stack with room for sixteen calls on each level
never overflows, and the functions do on it what the productions do (`exec_eq`). -/
namespace ScriptTree.Calls

open Parsing

namespace Routine

/-- The production that a function is. -/
@[reducible]
def production : {α : Type} → Routine α → Parse α
  | _, .typeAscription => Parsing.typeAscription
  | _, .tupleType => Parsing.tupleType
  | _, .typeAtom => Parsing.typeAtom
  | _, .postfixType => Parsing.postfixType
  | _, .firstOperand => Parsing.firstOperand
  | _, .unionType => Parsing.unionType
  | _, .templateSubstitution => Parsing.templateSubstitution
  | _, .templateString => Parsing.templateString
  | _, .arrayLiteral => Parsing.arrayLiteral
  | _, .objectMember children => Parsing.objectMember children
  | _, .objectLiteral => Parsing.objectLiteral
  | _, .statementOrError => Parsing.statementOrError
  | _, .statements inBlock children => Parsing.statements inBlock children
  | _, .block => Parsing.block
  | _, .parameter => Parsing.parameter
  | _, .parameters => Parsing.parameters
  | _, .returnType => Parsing.returnType
  | _, .blockOrExpression => Parsing.blockOrExpression
  | _, .functionDeclaration => Parsing.functionDeclaration
  | _, .anonymousFunction => Parsing.anonymousFunction
  | _, .arrowFunction => Parsing.arrowFunction
  | _, .parenthesized => Parsing.parenthesized
  | _, .matchCase => Parsing.matchCase
  | _, .matchElse => Parsing.matchElse
  | _, .matchExpression => Parsing.matchExpression
  | _, .primaryContent => Parsing.primaryContent
  | _, .primary => Parsing.primary
  | _, .argument => Parsing.argument
  | _, .arguments => Parsing.arguments
  | _, .call n => Parsing.call n
  | _, .optionalCall n => Parsing.optionalCall n
  | _, .extend n => Parsing.extend n
  | _, .operand => Parsing.operand
  | _, .assignmentRest n => Parsing.assignmentRest n
  | _, .augmentedRest n => Parsing.augmentedRest n
  | _, .assignmentOr n => Parsing.assignmentOr n
  | _, .target => Parsing.target
  | _, .restPattern => Parsing.restPattern
  | _, .patternContent => Parsing.patternContent
  | _, .pattern => Parsing.pattern
  | _, .patternWithDefault => Parsing.patternWithDefault
  | _, .pairRest n => Parsing.pairRest n
  | _, .objectPatternMember => Parsing.objectPatternMember
  | _, .objectPattern => Parsing.objectPattern
  | _, .arrayPattern => Parsing.arrayPattern
  | _, .destructuringPattern => Parsing.destructuringPattern
  | _, .destructuringAssignment => Parsing.destructuringAssignment
  | _, .unaryOperation => Parsing.unaryOperation
  | _, .privateMembership => Parsing.privateMembership
  | _, .ifTernary => Parsing.ifTernary
  | _, .unary => Parsing.unary
  | _, .operateOn least left => Parsing.operateOn least left
  | _, .binary least => Parsing.binary least
  | _, .initializer => Parsing.initializer
  | _, .variableDeclaration => Parsing.variableDeclaration
  | _, .alternative => Parsing.alternative
  | _, .elseBranch => Parsing.elseBranch
  | _, .ifStatement => Parsing.ifStatement
  | _, .returnStatement => Parsing.returnStatement
  | _, .expressionStatement => Parsing.expressionStatement
  | _, .anyStatement => Parsing.anyStatement

/-- How many calls a function makes inside each other at most, the ones that go deeper apart. -/
def rank : {α : Type} → Routine α → Nat
  | _, .typeAscription | _, .tupleType | _, .templateSubstitution | _, .arrayLiteral
  | _, .objectMember _ | _, .statementOrError | _, .parenthesized | _, .argument
  | _, .assignmentRest _ | _, .augmentedRest _ | _, .patternWithDefault | _, .unaryOperation
  | _, .privateMembership | _, .operateOn _ _ | _, .initializer | _, .returnStatement
  | _, .expressionStatement => 0
  | _, .typeAtom | _, .templateString | _, .objectLiteral | _, .statements _ _ | _, .parameter
  | _, .returnType | _, .arguments | _, .assignmentOr _ | _, .pairRest _ | _, .arrayPattern
  | _, .ifTernary | _, .variableDeclaration => 1
  | _, .postfixType | _, .block | _, .parameters | _, .call _ | _, .optionalCall _ => 2
  | _, .firstOperand | _, .blockOrExpression | _, .functionDeclaration | _, .anonymousFunction
  | _, .extend _ | _, .alternative => 3
  | _, .unionType | _, .arrowFunction | _, .matchCase | _, .matchElse | _, .elseBranch => 4
  | _, .matchExpression | _, .ifStatement => 5
  | _, .primaryContent => 6
  | _, .primary => 7
  | _, .operand => 8
  | _, .target | _, .unary => 9
  | _, .restPattern | _, .binary _ => 10
  | _, .patternContent | _, .objectPatternMember => 11
  | _, .pattern | _, .objectPattern => 12
  | _, .destructuringPattern => 13
  | _, .destructuringAssignment => 14
  | _, .anyStatement => 15

end Routine


section Bodies
variable {frame : Frame} {depth : Nat}

/-- Whether functions of a rank below `bound` do what productions do when they are called. -/
structure Serves (frame : Frame) (depth bound : Nat) : Prop where
  call : ∀ {α : Type} (r : Routine α), decide (r.rank < bound) = true →
    Agrees frame depth (Step.call r) r.production

/-! ### Types -/

theorem typeAscription_agrees [Nests frame depth] :
    Agrees frame depth Step.typeAscription Parsing.typeAscription := by
  unfold Step.typeAscription Parsing.typeAscription
  infer_instance

theorem tupleType_agrees [Nests frame depth] :
    Agrees frame depth Step.tupleType Parsing.tupleType := by
  unfold Step.tupleType Parsing.tupleType
  infer_instance

theorem typeAtom_agrees (h : Serves frame depth 1) :
    Agrees frame depth Step.typeAtom Parsing.typeAtom := by
  have := h.call .tupleType rfl
  unfold Step.typeAtom Parsing.typeAtom
  refine .next fun kind => ?_
  split <;> (try simp only [*])
  · cases primitiveType? _ <;> infer_instance
  · infer_instance
  · cases literalKind? kind <;> infer_instance

theorem postfixType_agrees (h : Serves frame depth 2) :
    Agrees frame depth Step.postfixType Parsing.postfixType := by
  have := h.call .typeAtom rfl
  unfold Step.postfixType Parsing.postfixType
  refine .next fun first => ?_
  infer_instance

theorem firstOperand_agrees (h : Serves frame depth 3) :
    Agrees frame depth Step.firstOperand Parsing.firstOperand := by
  have := h.call .postfixType rfl
  unfold Step.firstOperand Parsing.firstOperand
  infer_instance

theorem unionType_agrees (h : Serves frame depth 4) :
    Agrees frame depth Step.unionType Parsing.unionType := by
  have := h.call .firstOperand rfl
  have := h.call .postfixType rfl
  unfold Step.unionType Parsing.unionType
  infer_instance

/-! ### Literals -/

theorem templateSubstitution_agrees [Nests frame depth] :
    Agrees frame depth Step.templateSubstitution Parsing.templateSubstitution := by
  unfold Step.templateSubstitution Parsing.templateSubstitution
  infer_instance

theorem templateString_agrees (h : Serves frame depth 1) :
    Agrees frame depth Step.templateString Parsing.templateString := by
  have := h.call .templateSubstitution rfl
  unfold Step.templateString Parsing.templateString
  refine .next fun opening => ?_
  refine @Agrees.bind _ _ _ _ _ _ _ _ (@Agrees.repeatFrom _ _ _ _ _ _ fun children => ?_) inferInstance
  refine .next fun kind => ?_
  split
  case h_4 => exact .of_eq (pure (.done children)) (by simp only [*])
  all_goals infer_instance

theorem arrayLiteral_agrees [Nests frame depth] :
    Agrees frame depth Step.arrayLiteral Parsing.arrayLiteral := by
  unfold Step.arrayLiteral Parsing.arrayLiteral
  infer_instance

theorem objectMember_agrees [Nests frame depth] (children : Array Node) :
    Agrees frame depth (Step.objectMember children) (Parsing.objectMember children) := by
  unfold Step.objectMember Parsing.objectMember
  infer_instance

theorem objectLiteral_agrees (h : Serves frame depth 1) :
    Agrees frame depth Step.objectLiteral Parsing.objectLiteral := by
  have (a : Array Node) := h.call (.objectMember a) rfl
  unfold Step.objectLiteral Parsing.objectLiteral
  infer_instance

/-! ### Statements that may fail -/

theorem statementOrError_agrees [Nests frame depth] :
    Agrees frame depth Step.statementOrError Parsing.statementOrError := by
  unfold Step.statementOrError Parsing.statementOrError
  infer_instance

theorem statements_agrees (h : Serves frame depth 1) (inBlock : Bool) (children : Array Node) :
    Agrees frame depth (Step.statements inBlock children) (Parsing.statements inBlock children) := by
  have := h.call .statementOrError rfl
  unfold Step.statements Parsing.statements
  refine @Agrees.repeatFrom _ _ _ _ _ _ fun children => .next fun ended => ?_
  split
  · infer_instance
  refine .next fun closing => ?_
  split
  · infer_instance
  refine .next fun n => ?_
  cases n <;> infer_instance

theorem block_agrees (h : Serves frame depth 2) :
    Agrees frame depth Step.block Parsing.block := by
  have (a : Bool) (b : Array Node) := h.call (.statements a b) rfl
  unfold Step.block Parsing.block
  infer_instance

/-! ### Functions -/

theorem parameter_agrees (h : Serves frame depth 1) :
    Agrees frame depth Step.parameter Parsing.parameter := by
  have := h.call .typeAscription rfl
  unfold Step.parameter Parsing.parameter
  infer_instance

theorem parameters_agrees (h : Serves frame depth 2) :
    Agrees frame depth Step.parameters Parsing.parameters := by
  have := h.call .parameter rfl
  unfold Step.parameters Parsing.parameters
  infer_instance

theorem returnType_agrees (h : Serves frame depth 1) :
    Agrees frame depth Step.returnType Parsing.returnType := by
  have := h.call .typeAscription rfl
  unfold Step.returnType Parsing.returnType
  infer_instance

theorem blockOrExpression_agrees [Nests frame depth] (h : Serves frame depth 3) :
    Agrees frame depth Step.blockOrExpression Parsing.blockOrExpression := by
  have := h.call .block rfl
  unfold Step.blockOrExpression Parsing.blockOrExpression
  infer_instance

theorem functionDeclaration_agrees (h : Serves frame depth 3) :
    Agrees frame depth Step.functionDeclaration Parsing.functionDeclaration := by
  have := h.call .parameters rfl
  have := h.call .returnType rfl
  have := h.call .block rfl
  unfold Step.functionDeclaration Parsing.functionDeclaration
  infer_instance

theorem anonymousFunction_agrees (h : Serves frame depth 3) :
    Agrees frame depth Step.anonymousFunction Parsing.anonymousFunction := by
  have := h.call .parameters rfl
  have := h.call .returnType rfl
  have := h.call .block rfl
  unfold Step.anonymousFunction Parsing.anonymousFunction
  infer_instance

theorem arrowFunction_agrees (h : Serves frame depth 4) :
    Agrees frame depth Step.arrowFunction Parsing.arrowFunction := by
  have := h.call .parameters rfl
  have := h.call .returnType rfl
  have := h.call .blockOrExpression rfl
  unfold Step.arrowFunction Parsing.arrowFunction
  infer_instance

/-! ### Match expressions -/

theorem parenthesized_agrees [Nests frame depth] :
    Agrees frame depth Step.parenthesized Parsing.parenthesized := by
  unfold Step.parenthesized Parsing.parenthesized
  infer_instance

theorem matchCase_agrees (h : Serves frame depth 4) :
    Agrees frame depth Step.matchCase Parsing.matchCase := by
  have := h.call .blockOrExpression rfl
  unfold Step.matchCase Parsing.matchCase
  infer_instance

theorem matchElse_agrees (h : Serves frame depth 4) :
    Agrees frame depth Step.matchElse Parsing.matchElse := by
  have := h.call .blockOrExpression rfl
  unfold Step.matchElse Parsing.matchElse
  infer_instance

theorem matchExpression_agrees (h : Serves frame depth 5) :
    Agrees frame depth Step.matchExpression Parsing.matchExpression := by
  have := h.call .parenthesized rfl
  have := h.call .matchCase rfl
  have := h.call .matchElse rfl
  unfold Step.matchExpression Parsing.matchExpression
  infer_instance

/-! ### Operands -/

theorem primaryContent_agrees (h : Serves frame depth 6) :
    Agrees frame depth Step.primaryContent Parsing.primaryContent := by
  have := h.call .anonymousFunction rfl
  have := h.call .matchExpression rfl
  have := h.call .templateString rfl
  have := h.call .arrowFunction rfl
  have := h.call .parenthesized rfl
  have := h.call .arrayLiteral rfl
  have := h.call .objectLiteral rfl
  unfold Step.primaryContent Parsing.primaryContent
  refine .next fun kind => ?_
  split <;> (try simp only [*]) <;> first | infer_instance | (cases literalKind? kind <;> infer_instance)

theorem primary_agrees (h : Serves frame depth 7) :
    Agrees frame depth Step.primary Parsing.primary := by
  have := h.call .primaryContent rfl
  unfold Step.primary Parsing.primary
  infer_instance

theorem argument_agrees [Nests frame depth] :
    Agrees frame depth Step.argument Parsing.argument := by
  unfold Step.argument Parsing.argument
  infer_instance

theorem arguments_agrees (h : Serves frame depth 1) :
    Agrees frame depth Step.arguments Parsing.arguments := by
  have := h.call .argument rfl
  unfold Step.arguments Parsing.arguments
  infer_instance

theorem call_agrees (h : Serves frame depth 2) (operand : Node) :
    Agrees frame depth (Step.callOf operand) (Parsing.call operand) := by
  have := h.call .arguments rfl
  unfold Step.callOf Parsing.call
  infer_instance

theorem optionalCall_agrees (h : Serves frame depth 2) (operand : Node) :
    Agrees frame depth (Step.optionalCall operand) (Parsing.optionalCall operand) := by
  have := h.call .arguments rfl
  unfold Step.optionalCall Parsing.optionalCall
  infer_instance

theorem extend_agrees (h : Serves frame depth 3) (operand : Node) :
    Agrees frame depth (Step.extend operand) (Parsing.extend operand) := by
  have (a : Node) := h.call (.call a) rfl
  have (a : Node) := h.call (.optionalCall a) rfl
  unfold Step.extend Parsing.extend
  refine .next fun kind => ?_
  split
  case h_4 => exact .of_eq (pure (.done operand)) (by simp only [*])
  all_goals infer_instance

theorem operand_agrees (h : Serves frame depth 8) :
    Agrees frame depth Step.operand Parsing.operand := by
  have := h.call .primary rfl
  have (a : Node) := h.call (.extend a) rfl
  unfold Step.operand Parsing.operand
  infer_instance

/-! ### Assignments and patterns -/

theorem assignmentRest_agrees [Nests frame depth] (target : Node) :
    Agrees frame depth (Step.assignmentRest target) (Parsing.assignmentRest target) := by
  unfold Step.assignmentRest Parsing.assignmentRest
  infer_instance

theorem augmentedRest_agrees [Nests frame depth] (target : Node) :
    Agrees frame depth (Step.augmentedRest target) (Parsing.augmentedRest target) := by
  unfold Step.augmentedRest Parsing.augmentedRest
  infer_instance

theorem assignmentOr_agrees (h : Serves frame depth 1) (operand : Node) :
    Agrees frame depth (Step.assignmentOr operand) (Parsing.assignmentOr operand) := by
  have (a : Node) := h.call (.assignmentRest a) rfl
  have (a : Node) := h.call (.augmentedRest a) rfl
  unfold Step.assignmentOr Parsing.assignmentOr
  refine .next fun kind => ?_
  split
  case h_1 => infer_instance
  case h_2 => exact .of_eq (pure operand) (by simp only [*])

theorem target_agrees [Nests frame depth] (h : Serves frame depth 9) :
    Agrees frame depth Step.target Parsing.target := by
  have := h.call .operand rfl
  unfold Step.target Parsing.target
  refine .next fun kind => ?_
  split
  case h_3 =>
    exact .of_eq (do Parsing.assignmentTarget (← Parsing.operand) [.identifier, .memberExpression])
      (by simp only [*])
  all_goals infer_instance

theorem restPattern_agrees (h : Serves frame depth 10) :
    Agrees frame depth Step.restPattern Parsing.restPattern := by
  have := h.call .target rfl
  unfold Step.restPattern Parsing.restPattern
  infer_instance

theorem patternContent_agrees (h : Serves frame depth 11) :
    Agrees frame depth Step.patternContent Parsing.patternContent := by
  have := h.call .restPattern rfl
  have := h.call .target rfl
  unfold Step.patternContent Parsing.patternContent
  infer_instance

theorem pattern_agrees (h : Serves frame depth 12) :
    Agrees frame depth Step.pattern Parsing.pattern := by
  have := h.call .patternContent rfl
  unfold Step.pattern Parsing.pattern
  infer_instance

theorem patternWithDefault_agrees [Nests frame depth] :
    Agrees frame depth Step.patternWithDefault Parsing.patternWithDefault := by
  unfold Step.patternWithDefault Parsing.patternWithDefault
  infer_instance

theorem pairRest_agrees (h : Serves frame depth 1) (key : Node) :
    Agrees frame depth (Step.pairRest key) (Parsing.pairRest key) := by
  have := h.call .patternWithDefault rfl
  unfold Step.pairRest Parsing.pairRest
  infer_instance

theorem objectPatternMember_agrees (h : Serves frame depth 11) :
    Agrees frame depth Step.objectPatternMember Parsing.objectPatternMember := by
  have := h.call .restPattern rfl
  have (a : Node) := h.call (.pairRest a) rfl
  unfold Step.objectPatternMember Parsing.objectPatternMember
  refine .next fun kind => ?_
  split <;> (try simp only [*]) <;> infer_instance

theorem objectPattern_agrees (h : Serves frame depth 12) :
    Agrees frame depth Step.objectPattern Parsing.objectPattern := by
  have := h.call .objectPatternMember rfl
  unfold Step.objectPattern Parsing.objectPattern
  infer_instance

theorem arrayPattern_agrees (h : Serves frame depth 1) :
    Agrees frame depth Step.arrayPattern Parsing.arrayPattern := by
  have := h.call .patternWithDefault rfl
  unfold Step.arrayPattern Parsing.arrayPattern
  infer_instance

theorem destructuringPattern_agrees (h : Serves frame depth 13) :
    Agrees frame depth Step.destructuringPattern Parsing.destructuringPattern := by
  have := h.call .objectPattern rfl
  have := h.call .arrayPattern rfl
  unfold Step.destructuringPattern Parsing.destructuringPattern
  infer_instance

theorem destructuringAssignment_agrees (h : Serves frame depth 14) :
    Agrees frame depth Step.destructuringAssignment Parsing.destructuringAssignment := by
  have (a : Node) := h.call (.assignmentRest a) rfl
  have := h.call .destructuringPattern rfl
  unfold Step.destructuringAssignment Parsing.destructuringAssignment
  infer_instance

/-! ### Operators -/

theorem unaryOperation_agrees [Nests frame depth] :
    Agrees frame depth Step.unaryOperation Parsing.unaryOperation := by
  unfold Step.unaryOperation Parsing.unaryOperation
  infer_instance

theorem privateMembership_agrees [Nests frame depth] :
    Agrees frame depth Step.privateMembership Parsing.privateMembership := by
  unfold Step.privateMembership Parsing.privateMembership
  infer_instance

theorem ifTernary_agrees [Nests frame depth] (h : Serves frame depth 1) :
    Agrees frame depth Step.ifTernary Parsing.ifTernary := by
  have := h.call .parenthesized rfl
  unfold Step.ifTernary Parsing.ifTernary
  infer_instance

theorem unary_agrees (h : Serves frame depth 9) :
    Agrees frame depth Step.unary Parsing.unary := by
  have := h.call .ifTernary rfl
  have := h.call .unaryOperation rfl
  have := h.call .privateMembership rfl
  have (a : Node) := h.call (.assignmentOr a) rfl
  have := h.call .operand rfl
  unfold Step.unary Parsing.unary
  refine .next fun kind => ?_
  split <;> (try simp only [*]) <;> infer_instance

theorem operateOn_agrees [Nests frame depth] (least : Nat) (left : Node) :
    Agrees frame depth (Step.operateOn least left) (Parsing.operateOn least left) := by
  unfold Step.operateOn Parsing.operateOn
  split
  · infer_instance
  refine .next fun kind => ?_
  cases (binaryOperator? kind).bind Operator.binding? <;> infer_instance

theorem binary_agrees (h : Serves frame depth 10) (least : Nat) :
    Agrees frame depth (Step.binary least) (Parsing.binary least) := by
  have := h.call .unary rfl
  have (a : Nat) (b : Node) := h.call (.operateOn a b) rfl
  unfold Step.binary Parsing.binary
  infer_instance

/-! ### Statements -/

theorem initializer_agrees [Nests frame depth] :
    Agrees frame depth Step.initializer Parsing.initializer := by
  unfold Step.initializer Parsing.initializer
  infer_instance

theorem variableDeclaration_agrees (h : Serves frame depth 1) :
    Agrees frame depth Step.variableDeclaration Parsing.variableDeclaration := by
  have := h.call .typeAscription rfl
  have := h.call .initializer rfl
  unfold Step.variableDeclaration Parsing.variableDeclaration
  refine .next fun isConst => .next fun kind => .next fun name => ?_
  infer_instance

theorem alternative_agrees [Nests frame depth] (h : Serves frame depth 3) :
    Agrees frame depth Step.alternative Parsing.alternative := by
  have := h.call .block rfl
  unfold Step.alternative Parsing.alternative
  infer_instance

theorem elseBranch_agrees (h : Serves frame depth 4) :
    Agrees frame depth Step.elseBranch Parsing.elseBranch := by
  have := h.call .alternative rfl
  unfold Step.elseBranch Parsing.elseBranch
  infer_instance

theorem ifStatement_agrees (h : Serves frame depth 5) :
    Agrees frame depth Step.ifStatement Parsing.ifStatement := by
  have := h.call .parenthesized rfl
  have := h.call .block rfl
  have := h.call .elseBranch rfl
  unfold Step.ifStatement Parsing.ifStatement
  infer_instance

theorem returnStatement_agrees [Nests frame depth] :
    Agrees frame depth Step.returnStatement Parsing.returnStatement := by
  unfold Step.returnStatement Parsing.returnStatement
  infer_instance

theorem expressionStatement_agrees [Nests frame depth] :
    Agrees frame depth Step.expressionStatement Parsing.expressionStatement := by
  unfold Step.expressionStatement Parsing.expressionStatement
  refine .next fun start => .next fun value => ?_
  generalize value.kind? = kind
  split
  case h_3 => exact .of_eq (throw ⟨.notAStatement, start.span.merge value.span⟩) (by simp only [*])
  all_goals infer_instance

theorem anyStatement_agrees (h : Serves frame depth 15) :
    Agrees frame depth Step.anyStatement Parsing.anyStatement := by
  have := h.call .functionDeclaration rfl
  have := h.call .expressionStatement rfl
  have := h.call .variableDeclaration rfl
  have := h.call .matchExpression rfl
  have := h.call .ifStatement rfl
  have := h.call .returnStatement rfl
  have := h.call .destructuringAssignment rfl
  have := h.call .block rfl
  unfold Step.anyStatement Parsing.anyStatement
  refine .next fun kind => ?_
  split <;> (try simp only [*]) <;> infer_instance

/-- A function does what its production does if the functions that it calls do. -/
theorem body_agrees [Nests frame depth] {α : Type} (r : Routine α)
    (h : Serves frame depth r.rank) : Agrees frame depth r.body r.production := by
  cases r with
  | typeAscription => exact typeAscription_agrees
  | tupleType => exact tupleType_agrees
  | typeAtom => exact typeAtom_agrees h
  | postfixType => exact postfixType_agrees h
  | firstOperand => exact firstOperand_agrees h
  | unionType => exact unionType_agrees h
  | templateSubstitution => exact templateSubstitution_agrees
  | templateString => exact templateString_agrees h
  | arrayLiteral => exact arrayLiteral_agrees
  | objectMember children => exact objectMember_agrees children
  | objectLiteral => exact objectLiteral_agrees h
  | statementOrError => exact statementOrError_agrees
  | statements inBlock children => exact statements_agrees h inBlock children
  | block => exact block_agrees h
  | parameter => exact parameter_agrees h
  | parameters => exact parameters_agrees h
  | returnType => exact returnType_agrees h
  | blockOrExpression => exact blockOrExpression_agrees h
  | functionDeclaration => exact functionDeclaration_agrees h
  | anonymousFunction => exact anonymousFunction_agrees h
  | arrowFunction => exact arrowFunction_agrees h
  | parenthesized => exact parenthesized_agrees
  | matchCase => exact matchCase_agrees h
  | matchElse => exact matchElse_agrees h
  | matchExpression => exact matchExpression_agrees h
  | primaryContent => exact primaryContent_agrees h
  | primary => exact primary_agrees h
  | argument => exact argument_agrees
  | arguments => exact arguments_agrees h
  | call operand => exact call_agrees h operand
  | optionalCall operand => exact optionalCall_agrees h operand
  | extend operand => exact extend_agrees h operand
  | operand => exact operand_agrees h
  | assignmentRest target => exact assignmentRest_agrees target
  | augmentedRest target => exact augmentedRest_agrees target
  | assignmentOr operand => exact assignmentOr_agrees h operand
  | target => exact target_agrees h
  | restPattern => exact restPattern_agrees h
  | patternContent => exact patternContent_agrees h
  | pattern => exact pattern_agrees h
  | patternWithDefault => exact patternWithDefault_agrees
  | pairRest key => exact pairRest_agrees h key
  | objectPatternMember => exact objectPatternMember_agrees h
  | objectPattern => exact objectPattern_agrees h
  | arrayPattern => exact arrayPattern_agrees h
  | destructuringPattern => exact destructuringPattern_agrees h
  | destructuringAssignment => exact destructuringAssignment_agrees h
  | unaryOperation => exact unaryOperation_agrees
  | privateMembership => exact privateMembership_agrees
  | ifTernary => exact ifTernary_agrees h
  | unary => exact unary_agrees h
  | operateOn least left => exact operateOn_agrees least left
  | binary least => exact binary_agrees h least
  | initializer => exact initializer_agrees
  | variableDeclaration => exact variableDeclaration_agrees h
  | alternative => exact alternative_agrees h
  | elseBranch => exact elseBranch_agrees h
  | ifStatement => exact ifStatement_agrees h
  | returnStatement => exact returnStatement_agrees
  | expressionStatement => exact expressionStatement_agrees
  | anyStatement => exact anyStatement_agrees h

end Bodies

/-! ### Room for all calls -/

/-- The number of ranks. -/
def callsPerLevel : Nat := 16

theorem rank_lt {α : Type} (r : Routine α) : r.rank < callsPerLevel :=
  of_decide_eq_true (by cases r <;> rfl)

theorem production_ofGoal (goal : Goal) : (Routine.ofGoal goal).production = production goal := by
  cases goal <;> rfl

/-- With room for the calls of its own rank and those on all deeper levels, a function does what its
production does, and leaves the depth counter as it was. -/
theorem exec_eq (tokens : Array Token) (maxDepth : Nat) {α : Type} (r : Routine α) {depth : Nat}
    (hdepth : depth ≤ maxDepth) {stack : Nat}
    (hstack : r.rank + callsPerLevel * (maxDepth - depth) < stack) (s : State) :
    exec tokens maxDepth stack r depth s =
      .ofResult depth (r.production ⟨tokens, level tokens maxDepth (maxDepth - depth)⟩ s) := by
  induction stack generalizing α depth s with
  | zero => omega
  | succ stack ih =>
    -- What the function calls has a lower rank or is one level deeper.
    have hserves : Serves ⟨tokens, maxDepth, exec tokens maxDepth stack⟩ depth r.rank :=
      ⟨fun r' hrank => ⟨fun s => ih r' hdepth (by have := of_decide_eq_true hrank; omega) s⟩⟩
    have : Nests ⟨tokens, maxDepth, exec tokens maxDepth stack⟩ depth := by
      refine ⟨fun goal => ⟨fun s => ?_⟩⟩
      rw [Step.nested, Frame.scope]
      dsimp only
      split
      · rw [Nat.sub_eq_zero_of_le ‹_›]
        rfl
      · have hlt : depth < maxDepth := Nat.lt_of_not_le ‹_›
        have hrank := rank_lt (Routine.ofGoal goal)
        unfold callsPerLevel at hrank hstack ih
        obtain ⟨left, hleft⟩ : ∃ left, maxDepth - depth = left + 1 := ⟨maxDepth - depth - 1, by omega⟩
        have hnext : maxDepth - (depth + 1) = left := by omega
        have hcall := ih (Routine.ofGoal goal) hlt (by omega) s
        rw [hnext, production_ofGoal] at hcall
        rw [hcall, hleft]
        show _ = Outcome.ofResult depth (production goal ⟨tokens, level tokens maxDepth left⟩ s)
        cases production goal ⟨tokens, level tokens maxDepth left⟩ s <;> rfl
    exact (body_agrees r hserves).same s

/-- Whether room for so many calls on each level is enough for any call. -/
structure Suffices (perLevel : Nat) (tokens : Array Token) (maxDepth : Nat) : Prop where
  /-- A program never overflows, and comes to what the parser gives. -/
  program : ∀ stack, perLevel * (maxDepth + 1) ≤ stack →
    exec tokens maxDepth stack (.statements false #[]) 0 {} =
      .ofResult 0 (program tokens maxDepth {})
  /-- Nor does any function on any level, if there is room for the calls of its own rank and those on
  deeper levels; it comes to what its production gives with the levels that are left. -/
  call : ∀ {α : Type} (r : Routine α), r.rank < perLevel ∧ ∀ depth ≤ maxDepth, ∀ stack,
    r.rank + perLevel * (maxDepth - depth) < stack → ∀ s, exec tokens maxDepth stack r depth s =
      .ofResult depth (r.production ⟨tokens, level tokens maxDepth (maxDepth - depth)⟩ s)
  /-- Behind every call, with whatever room, the depth counter is what it was. -/
  counter : ∀ {α : Type} (r : Routine α) stack depth s,
    (exec tokens maxDepth stack r depth s).At depth

/-- **The limit on nesting bounds the recursion**: so many calls on each level, whatever the tokens. -/
theorem recursion_bounded :
    ∃ perLevel, ∀ tokens maxDepth, Suffices perLevel tokens maxDepth := by
  refine ⟨callsPerLevel, fun tokens maxDepth => ⟨fun stack hstack => ?_, fun r => ⟨rank_lt r, ?_⟩,
    fun r stack => exec_restores tokens maxDepth stack r⟩⟩
  · unfold callsPerLevel at hstack
    exact exec_eq tokens maxDepth (.statements false #[]) (Nat.zero_le _)
      (by show 1 + 16 * (maxDepth - 0) < stack; omega) {}
  · exact fun depth hdepth stack hstack => exec_eq tokens maxDepth r hdepth hstack

end ScriptTree.Calls
