import Mathlib
import ScriptTree.Parsing.Program

/-! What productions are composed of.

A production can do few things itself: look, read the next token, make a node, make up a mark, fail,
go one level deeper, and take up again behind a statement that failed. `Composed m` says that the step
`m` is put together from these, as all productions are (`production_composed`). What each of them
respects is respected by everything composed of them, and by every beginning of it: an induction over
`Composed` has one case for each, whatever the grammar. -/
namespace ScriptTree.Parsing

/-! ### Steps one after the other -/

section Running
variable {α β : Type} {scope : Scope} {m : Parse α} {f : α → Parse β} {s s' : State}

theorem run_bind_ok {a : α} (h : m scope s = .ok a s') : (m >>= f) scope s = f a scope s' := by
  simp only [Bind.bind, ReaderT.bind, EStateM.bind, h]

theorem run_bind_error {e : Problem} (h : m scope s = .error e s') :
    (m >>= f) scope s = .error e s' := by
  simp only [Bind.bind, ReaderT.bind, EStateM.bind, h]

theorem run_bind_eq_ok {b : β} (h : (m >>= f) scope s = .ok b s') :
    ∃ a s₁, m scope s = .ok a s₁ ∧ f a scope s₁ = .ok b s' := by
  cases hrun : m scope s with
  | ok a s₁ => exact ⟨a, s₁, rfl, by rwa [run_bind_ok hrun] at h⟩
  | error e s₁ =>
    rw [run_bind_error hrun] at h
    cases h

end Running

/-! ### Parts of productions -/

/-- Whether a problem may be what a step fails for. -/
class Blamable (cause : Cause) : Prop where
  kind : cause.kind ≠ .missing

/-- Whether a step is put together from the parts of productions. -/
class inductive Composed : {α : Type} → Parse α → Prop
  | pure {α : Type} (a : α) : Composed (Pure.pure a)
  | bind {α β : Type} {m : Parse α} {f : α → Parse β} (first : Composed m)
      (rest : ∀ a, Composed (f a)) : Composed (m >>= f)
  | throw {α : Type} {cause : Cause} (span : Span) (blamable : cause.kind ≠ .missing) :
      Composed (throw ⟨cause, span⟩ : Parse α)
  | read : Composed (read : Parse Scope)
  | get : Composed (get : Parse State)
  | advance : Composed advance
  | make (n : Node) : Composed (make n)
  | expectOrMissing (mark : Punctuation) : Composed (expectOrMissing mark)
  | descend (goal : Goal) : Composed (descend goal)
  | statementOrError : Composed statementOrError

section Composed
variable {α β : Type}

attribute [instance] Composed.pure Composed.read Composed.get Composed.advance Composed.make
  Composed.expectOrMissing Composed.descend Composed.statementOrError

instance (m : Parse α) (f : α → Parse β) [hm : Composed m] [hf : ∀ a, Composed (f a)] :
    Composed (m >>= f) := .bind hm hf

instance (cause : Cause) (span : Span) [h : Blamable cause] :
    Composed (throw ⟨cause, span⟩ : Parse α) := .throw span h.kind

instance (c : Prop) [Decidable c] (m m' : Parse α) [Composed m] [Composed m'] :
    Composed (if c then m else m') := by
  split <;> infer_instance

instance (f : α → β) (m : Parse α) [Composed m] : Composed (f <$> m) := by
  rw [map_eq_pure_bind]
  infer_instance

/-- A step that goes on as the one before it decides. -/
theorem Composed.next {m : Parse α} {f : α → Parse β} [Composed m] (h : ∀ a, Composed (f a)) :
    Composed (m >>= f) :=
  .bind inferInstance h

end Composed

instance {what : Expected} {found : String} : Blamable (.expected what found) := ⟨nofun⟩
instance : Blamable .invalidTarget := ⟨nofun⟩
instance : Blamable .notAStatement := ⟨nofun⟩
instance : Blamable .updateExpression := ⟨nofun⟩
instance : Blamable .memberOfCall := ⟨nofun⟩
instance : Blamable .notAnInteger := ⟨nofun⟩

/-! ### Looking ahead -/

section Looking

instance (n : Nat) : Composed (tokenAhead n) := by
  unfold tokenAhead
  infer_instance

instance : Composed peek := inferInstanceAs (Composed (tokenAhead 0))

instance (n : Nat) : Composed (kindAhead n) := by
  unfold kindAhead
  infer_instance

instance : Composed peekKind := inferInstanceAs (Composed (kindAhead 0))

instance : Composed atEnd := by
  unfold atEnd
  infer_instance

instance (mark : Punctuation) : Composed (sees mark) := by
  unfold sees
  infer_instance

instance (o : Operator) : Composed (seesOperator o) := by
  unfold seesOperator
  infer_instance

instance (word : Keyword) : Composed (seesWord word) := by
  unfold seesWord
  infer_instance

instance : Composed seesIdentifier := by
  unfold seesIdentifier
  infer_instance

instance : Composed lastStop := by
  unfold lastStop
  infer_instance

instance : Composed madeCount := by
  unfold madeCount
  infer_instance

instance (p : TokenKind → Bool) : Composed (closesBefore p) := by
  have (tokens : Array Token) (close : Option Nat) : Composed (match close with
      | some i => Pure.pure (p (tokenAt tokens (i + 1)).kind)
      | none => Pure.pure false : Parse Bool) := by
    cases close <;> infer_instance
  unfold closesBefore
  infer_instance

end Looking

/-! ### Reading and making -/

section Reading

instance (symbol : Symbol) (span : Span) : Composed (leaf symbol span) :=
  inferInstanceAs (Composed (make _))

instance (kind : NodeKind) (children : Array Node) : Composed (node kind children) :=
  inferInstanceAs (Composed (make _))

instance (symbol : Symbol) : Composed (bumpSymbol symbol) := by
  unfold bumpSymbol
  infer_instance

instance (kind : NodeKind) : Composed (bumpAs kind) := inferInstanceAs (Composed (bumpSymbol _))

instance : Composed bump := by
  unfold bump
  infer_instance

instance {α : Type} (what : Expected) : Composed (unexpected what : Parse α) := by
  unfold unexpected
  infer_instance

instance (holds : Bool) (what : Expected) : Composed (demand holds what) := by
  unfold demand
  infer_instance

instance (mark : Punctuation) : Composed (expect mark) := by
  unfold expect
  infer_instance

instance (o : Operator) : Composed (expectOperator o) := by
  unfold expectOperator
  infer_instance

instance (word : Keyword) (what : Expected) : Composed (expectWord word what) := by
  unfold expectWord
  infer_instance

instance (kind : NodeKind) (what : Expected) : Composed (expectIdentifier kind what) := by
  unfold expectIdentifier
  infer_instance

end Reading

/-! ### Options and repetition -/

section Repetition
variable {α : Type}

instance (there : Bool) (part : Parse (Array Node)) [Composed part] :
    Composed (optionally there part) := by
  unfold optionally
  infer_instance

instance (round : α → Parse (Round α)) [∀ a, Composed (round a)] (n : Nat) (a : α) :
    Composed (rounds round n a) := by
  induction n generalizing a with
  | zero => exact .pure a
  | succ n ih =>
    have (r : Round α) : Composed (match r with
        | .more a => rounds round n a
        | .done a => Pure.pure a) := by
      cases r <;> infer_instance
    rw [rounds]
    infer_instance

instance (start : α) (round : α → Parse (Round α)) [∀ a, Composed (round a)] :
    Composed (repeatFrom start round) := by
  unfold repeatFrom
  infer_instance

set_option synthInstance.maxSize 256 in
instance (kind : NodeKind) (opening closing : Punctuation) (item : Parse Node) [Composed item] :
    Composed (listOf kind opening closing item) := by
  unfold listOf
  dsimp only
  infer_instance

instance (f : α → Parse Node) [∀ a, Composed (f a)] (l : List α) : Composed (l.mapM f) := by
  induction l with
  | nil => exact .pure []
  | cons a l ih =>
    rw [List.mapM_cons]
    infer_instance

end Repetition

/-! ### Types -/

section Types

instance : Composed type := inferInstanceAs (Composed (descend _))

instance : Composed expression := inferInstanceAs (Composed (descend _))

instance : Composed statement := inferInstanceAs (Composed (descend _))

instance : Composed tupleType := by
  unfold tupleType
  dsimp only
  infer_instance

instance : Composed typeAtom := by
  unfold typeAtom
  refine .next fun kind => ?_
  split
  · split <;> infer_instance
  · infer_instance
  · infer_instance
  · split <;> infer_instance

instance : Composed postfixType := by
  unfold postfixType
  infer_instance

instance : Composed firstOperand := by
  unfold firstOperand
  infer_instance

instance : Composed unionType := by
  unfold unionType
  infer_instance

instance : Composed typeAscription := by
  unfold typeAscription
  infer_instance

end Types

/-! ### Literals and names -/

section Literals

instance (symbol : Symbol) (closed : Bool) (offset : Nat) :
    Composed (closingLeaf symbol closed offset) := by
  unfold closingLeaf
  infer_instance

instance (part : StringPart) : Composed (partLeaf part) := by
  cases part <;> exact inferInstanceAs (Composed (leaf _ _))

instance (quote : Punctuation) (parts : List StringPart) :
    Composed (stringLiteral quote parts) := by
  unfold stringLiteral
  infer_instance

instance (pattern : Span) (flags : Option Span) : Composed (regexLiteral pattern flags) := by
  unfold regexLiteral
  cases flags <;> infer_instance

instance : Composed templateSubstitution := by
  unfold templateSubstitution
  infer_instance

instance : Composed templateString := by
  have (children : Array Node) (kind : TokenKind) : Composed (match kind with
      | .templateChars | .templateEscape => do return .more (children.push (← bump))
      | .punctuation .dollarBrace => do return .more (children.push (← templateSubstitution))
      | _ => Pure.pure (.done children) : Parse (Round (Array Node))) := by
    split <;> infer_instance
  unfold templateString
  infer_instance

instance : Composed arrayLiteral := by
  unfold arrayLiteral
  dsimp only
  infer_instance

instance (children : Array Node) : Composed (objectMember children) := by
  unfold objectMember
  infer_instance

instance : Composed objectLiteral := by
  unfold objectLiteral
  dsimp only
  infer_instance

instance : Composed comptimeIdentifier := by
  unfold comptimeIdentifier
  infer_instance

instance : Composed privateName := by
  unfold privateName
  infer_instance

end Literals

/-! ### Statements that may fail -/

section Recovery

instance (start stop : Nat) : Composed (errorNode? start stop) := by
  unfold errorNode?
  infer_instance

instance (inBlock : Bool) (children : Array Node) : Composed (statements inBlock children) := by
  have (children : Array Node) (o : Option Node) : Composed (match o with
      | some n => Pure.pure (.more (children.push n))
      | none => Pure.pure (.more children) : Parse (Round (Array Node))) := by
    cases o <;> infer_instance
  unfold statements
  infer_instance

instance : Composed block := by
  unfold block
  infer_instance

end Recovery

/-! ### Functions -/

section Callables

instance : Composed parameter := by
  unfold parameter
  infer_instance

instance : Composed parameters := by
  unfold parameters
  infer_instance

instance : Composed returnType := by
  unfold returnType
  infer_instance

instance : Composed opensObject := by
  unfold opensObject
  infer_instance

instance : Composed blockOrExpression := by
  unfold blockOrExpression
  infer_instance

instance : Composed functionDeclaration := by
  unfold functionDeclaration
  infer_instance

instance : Composed anonymousFunction := by
  unfold anonymousFunction
  infer_instance

instance : Composed arrowFunction := by
  unfold arrowFunction
  infer_instance

end Callables

/-! ### Match expressions -/

section Match

instance : Composed parenthesized := by
  unfold parenthesized
  infer_instance

instance (token : Token) : Composed (requireInteger token) := by
  unfold requireInteger
  split <;> infer_instance

instance : Composed signedInteger := by
  unfold signedInteger
  infer_instance

instance : Composed integerCondition := by
  unfold integerCondition
  infer_instance

instance (children : Array Node) : Composed (pathCondition children) := by
  unfold pathCondition
  infer_instance

instance (children : Array Node) : Composed (condition children) := by
  unfold condition
  refine .next fun kind => ?_
  split
  all_goals first | infer_instance | (split <;> infer_instance)

instance (children : Array Node) : Composed (conditions children) := by
  unfold conditions
  infer_instance

instance : Composed matchCase := by
  unfold matchCase
  infer_instance

instance : Composed matchElse := by
  unfold matchElse
  infer_instance

instance : Composed matchExpression := by
  unfold matchExpression
  infer_instance

end Match

/-! ### Operands -/

section Operands

instance : Composed primaryContent := by
  unfold primaryContent
  refine .next fun kind => ?_
  split
  all_goals first | infer_instance | (split <;> infer_instance)

instance : Composed primary := by
  unfold primary
  infer_instance

instance : Composed argument := by
  unfold argument
  infer_instance

instance : Composed arguments := by
  unfold arguments
  infer_instance

instance (operand : Node) : Composed (requirePrimary operand) := by
  unfold requirePrimary
  infer_instance

instance : Composed accessMark := by
  unfold accessMark
  infer_instance

instance : Composed propertyName := by
  unfold propertyName
  infer_instance

instance (object : Node) : Composed (member object) := by
  unfold member
  infer_instance

instance (operand : Node) : Composed (call operand) := by
  unfold call
  infer_instance

instance (operand : Node) : Composed (optionalCall operand) := by
  unfold optionalCall
  infer_instance

instance (operand : Node) : Composed (access operand) := by
  unfold access
  infer_instance

instance (operand : Node) : Composed (extend operand) := by
  unfold extend
  refine .next fun kind => ?_
  split <;> infer_instance

instance : Composed operand := by
  unfold operand
  infer_instance

end Operands

/-! ### Assignments and patterns -/

section Assignments

instance (operand : Node) (allowed : List NodeKind) :
    Composed (assignmentTarget operand allowed) := by
  unfold assignmentTarget
  split <;> infer_instance

instance (target : Node) : Composed (assignmentRest target) := by
  unfold assignmentRest
  infer_instance

instance (target : Node) : Composed (augmentedRest target) := by
  unfold augmentedRest
  infer_instance

instance (operand : Node) : Composed (assignmentOr operand) := by
  unfold assignmentOr
  refine .next fun kind => ?_
  split <;> infer_instance

instance : Composed target := by
  unfold target
  refine .next fun kind => ?_
  split <;> infer_instance

instance : Composed restPattern := by
  unfold restPattern
  infer_instance

instance : Composed patternContent := by
  unfold patternContent
  infer_instance

instance : Composed pattern := by
  unfold pattern
  infer_instance

instance : Composed patternWithDefault := by
  unfold patternWithDefault
  infer_instance

instance (key : Node) : Composed (pairRest key) := by
  unfold pairRest
  infer_instance

instance : Composed objectPatternMember := by
  unfold objectPatternMember
  refine .next fun kind => ?_
  split <;> infer_instance

instance : Composed objectPattern := by
  unfold objectPattern
  infer_instance

instance : Composed arrayPattern := by
  unfold arrayPattern
  infer_instance

instance : Composed destructuringPattern := by
  unfold destructuringPattern
  infer_instance

instance : Composed destructuringAssignment := by
  unfold destructuringAssignment
  infer_instance

end Assignments

/-! ### Operators -/

section Operations

instance : Composed unaryOperation := by
  unfold unaryOperation
  infer_instance

instance : Composed privateMembership := by
  unfold privateMembership
  infer_instance

instance : Composed ifTernary := by
  unfold ifTernary
  infer_instance

instance : Composed unary := by
  unfold unary
  refine .next fun kind => ?_
  split <;> infer_instance

instance (least : Nat) (left : Node) : Composed (operateOn least left) := by
  have (kind : TokenKind) : Composed (match (binaryOperator? kind).bind Operator.binding? with
      | none => Pure.pure (.done left)
      | some binding => if binding.1 < least then Pure.pure (.done left) else do
        let o ← bump
        let right ← descend (.binary (leastAfter binding))
        return .more (← node .binaryExpression
          #[left.withField .left, o.withField .operator, right.withField .right]) :
        Parse (Round Node)) := by
    split <;> infer_instance
  unfold operateOn
  infer_instance

instance (least : Nat) : Composed (binary least) := by
  unfold binary
  infer_instance

end Operations

/-! ### Statements -/

section Statements

instance : Composed initializer := by
  unfold initializer
  infer_instance

instance : Composed variableDeclaration := by
  unfold variableDeclaration
  infer_instance

instance : Composed enumMember := by
  unfold enumMember
  infer_instance

instance : Composed enumDeclaration := by
  unfold enumDeclaration
  dsimp only
  infer_instance

instance : Composed alternative := by
  unfold alternative
  infer_instance

instance : Composed elseBranch := by
  unfold elseBranch
  infer_instance

instance : Composed ifStatement := by
  unfold ifStatement
  infer_instance

instance : Composed returnStatement := by
  unfold returnStatement
  infer_instance

instance : Composed breakStatement := by
  unfold breakStatement
  infer_instance

instance : Composed expressionStatement := by
  have (start : Span) (value : Node) : Composed (match value.kind? with
      | some .assignmentExpression => Pure.pure value
      | some .callExpression => do node .callStatement #[value, ← expectOrMissing .semicolon]
      | _ => throw ⟨.notAStatement, start.merge value.span⟩ : Parse Node) := by
    split <;> infer_instance
  unfold expressionStatement
  infer_instance

instance : Composed opensAssignment := by
  unfold opensAssignment
  infer_instance

instance : Composed anyStatement := by
  unfold anyStatement
  refine .next fun kind => ?_
  split <;> infer_instance

end Statements

/-! ### Goals -/

/-- All productions are composed of their parts. -/
instance production_composed (goal : Goal) : Composed (production goal) := by
  cases goal <;> (unfold production; infer_instance)

end ScriptTree.Parsing
