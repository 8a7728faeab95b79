import Mathlib
import ScriptTree.Proofs.Parsing.Respected

/-! Every production reads a token first.

`Forward m` says that in front of a real token the step `m` gives a value only behind that token, and
that no mark is made up in front of the token, whether the step gives a value or fails. What looks
at tokens without reading any is `Still`, and may stand before such a step. The instances follow the
heads of the productions; what comes behind the head need only be onward. -/
namespace ScriptTree.Parsing

/-- Whether the marks made up between two states all stand at index `i` or further on. -/
def Behind (tokens : Array Token) (i : Nat) (s s' : State) : Prop :=
  ∃ ps, s'.problems.toList = s.problems.toList ++ ps ∧
    ∀ p ∈ ps, p.cause.kind = .missing →
      ∃ j, i ≤ j ∧ j ≤ s'.position ∧ p.span = .empty (stopBefore tokens j)

/-- Whether a step ends behind the next token; the marks made up on the way do even if it fails. -/
def Passes {α : Type} (tokens : Array Token) (s : State) : EStateM.Result Problem State α → Prop
  | .ok _ s' => Past tokens s s'
  | .error _ s' => Behind tokens (s.position + 1) s s'

/-- Whether what is parsed one level deeper reads a token first. -/
def Urges (scope : Scope) : Prop :=
  ∀ goal s, kindAt scope.tokens s.position ≠ .endOfFile →
    Passes scope.tokens s (scope.deeper goal s)

/-- Steps that read the next token first. -/
class Forward {α : Type} (m : Parse α) : Prop where
  passes : ∀ scope, Deepens scope → Urges scope → ∀ s,
    kindAt scope.tokens s.position ≠ .endOfFile → Passes scope.tokens s (m scope s)

/-- Steps that change nothing. -/
class Still {α : Type} (m : Parse α) : Prop where
  same : ∀ scope s, match m scope s with
    | .ok _ s' => s' = s
    | .error _ s' => s' = s

section Steps
variable {α β : Type} {tokens : Array Token} {s s' : State}

theorem Behind.refl {i : Nat} : Behind tokens i s s :=
  ⟨[], (List.append_nil _).symm, List.forall_mem_nil _⟩

theorem Behind.trans {i : Nat} {s'' : State} (h : Reaches tokens i s s')
    (h' : Later tokens s' s'') : Behind tokens i s s'' :=
  (h.trans h').problems

theorem run_advance {scope : Scope} {s : State}
    (hreal : kindAt scope.tokens s.position ≠ .endOfFile) : advance scope s =
      .ok (tokenAt scope.tokens s.position) { s with position := s.position + 1 } := by
  have hbne : ((tokenAt scope.tokens s.position).kind != .endOfFile) = true := bne_iff_ne.mpr hreal
  show (if ((tokenAt scope.tokens s.position).kind != .endOfFile) = true then _ else _ :
    Parse Token) scope s = _
  rw [if_pos hbne]
  rfl

/-! ### Sequences -/

namespace Still

instance pure (a : α) : Still (Pure.pure a) := ⟨fun _ _ => rfl⟩

instance throw (problem : Problem) : Still (throw problem : Parse α) := ⟨fun _ _ => rfl⟩

instance bind (m : Parse α) (f : α → Parse β) [hm : Still m] [hf : ∀ a, Still (f a)] :
    Still (m >>= f) where
  same scope s := by
    have hfirst := hm.same scope s
    simp only [Bind.bind, ReaderT.bind, EStateM.bind]
    cases hrun : m scope s with
    | error e s' =>
      rw [hrun] at hfirst
      exact hfirst
    | ok a s' =>
      rw [hrun] at hfirst
      have hrest := (hf a).same scope s'
      subst hfirst
      exact hrest

instance ite (c : Prop) [Decidable c] (m m' : Parse α) [Still m] [Still m'] :
    Still (if c then m else m') := by
  split <;> infer_instance

instance tokenAhead (n : Nat) : Still (tokenAhead n) := ⟨fun _ _ => rfl⟩

instance peek : Still peek := ⟨fun _ _ => rfl⟩

instance kindAhead (n : Nat) : Still (kindAhead n) := ⟨fun _ _ => rfl⟩

instance peekKind : Still peekKind := ⟨fun _ _ => rfl⟩

instance atEnd : Still atEnd := ⟨fun _ _ => rfl⟩

instance sees (mark : Punctuation) : Still (sees mark) := ⟨fun _ _ => rfl⟩

instance seesOperator (o : Operator) : Still (seesOperator o) := ⟨fun _ _ => rfl⟩

instance seesWord (word : Keyword) : Still (seesWord word) := ⟨fun _ _ => rfl⟩

instance seesIdentifier : Still seesIdentifier := ⟨fun _ _ => rfl⟩

instance unexpected (what : Expected) : Still (unexpected what : Parse α) := ⟨fun _ _ => rfl⟩

instance demand (holds : Bool) (what : Expected) : Still (demand holds what) := by
  unfold Parsing.demand
  infer_instance

instance read : Still (read : Parse Scope) := ⟨fun _ _ => rfl⟩

instance get : Still (get : Parse State) := ⟨fun _ _ => rfl⟩

instance closesBefore (p : TokenKind → Bool) : Still (closesBefore p) := by
  have (tokens : Array Token) (close : Option Nat) : Still (match close with
      | some i => Pure.pure (p (tokenAt tokens (i + 1)).kind)
      | none => Pure.pure false : Parse Bool) := by
    cases close <;> infer_instance
  unfold Parsing.closesBefore
  infer_instance

instance opensObject : Still opensObject := ⟨fun _ _ => rfl⟩

instance requireInteger (token : Token) : Still (requireInteger token) := by
  unfold Parsing.requireInteger
  split <;> infer_instance

end Still

namespace Forward

/-- What comes behind the head of a production. -/
instance bind (m : Parse α) (f : α → Parse β) [hm : Forward m] [hf : ∀ a, Composed (f a)] :
    Forward (m >>= f) where
  passes scope hdeep hurge s hreal := by
    have hfirst := hm.passes scope hdeep hurge s hreal
    simp only [Bind.bind, ReaderT.bind, EStateM.bind]
    cases hrun : m scope s with
    | error e s' =>
      rw [hrun] at hfirst
      exact hfirst
    | ok a s' =>
      rw [hrun] at hfirst
      have hrest := Composed.onward (m := f a) hdeep s'
      dsimp only
      cases hrun' : f a scope s' with
      | ok b s'' =>
        rw [hrun'] at hrest
        exact hfirst.trans hrest
      | error e s'' =>
        rw [hrun'] at hrest
        exact .trans hfirst hrest.1

/-- What is looked at before a token is read. -/
instance (priority := low) look (m : Parse α) (f : α → Parse β) [hm : Still m]
    [hf : ∀ a, Forward (f a)] : Forward (m >>= f) where
  passes scope hdeep hurge s hreal := by
    have hfirst := hm.same scope s
    simp only [Bind.bind, ReaderT.bind, EStateM.bind]
    cases hrun : m scope s with
    | error e s' =>
      rw [hrun] at hfirst
      subst hfirst
      exact .refl
    | ok a s' =>
      rw [hrun] at hfirst
      subst hfirst
      exact (hf a).passes scope hdeep hurge s' hreal

instance ite (c : Prop) [Decidable c] (m m' : Parse α) [Forward m] [Forward m'] :
    Forward (if c then m else m') := by
  split <;> infer_instance

instance map (f : α → β) (m : Parse α) [Forward m] : Forward (f <$> m) := by
  rw [map_eq_pure_bind]
  infer_instance

instance throw (problem : Problem) : Forward (throw problem : Parse α) :=
  ⟨fun _ _ _ _ _ => .refl⟩

instance unexpected (what : Expected) : Forward (unexpected what : Parse α) :=
  ⟨fun _ _ _ _ _ => .refl⟩

instance descend (goal : Goal) : Forward (descend goal) :=
  ⟨fun _ _ hurge s hreal => hurge goal s hreal⟩

instance statement : Forward statement := Forward.descend _

instance expression : Forward expression := Forward.descend _

instance type : Forward type := Forward.descend _

/-! ### Reading -/

instance advance : Forward advance where
  passes scope _ _ s hreal := by
    have hbne : ((tokenAt scope.tokens s.position).kind != .endOfFile) = true := bne_iff_ne.mpr hreal
    have hrun : Parsing.advance scope s =
        .ok (tokenAt scope.tokens s.position) { s with position := s.position + 1 } := by
      show (if ((tokenAt scope.tokens s.position).kind != .endOfFile) = true then _ else _ :
        Parse Token) scope s = _
      rw [if_pos hbne]
      rfl
    rw [hrun]
    exact .of_problems (Nat.le_refl _) rfl

instance bumpSymbol (symbol : Symbol) : Forward (bumpSymbol symbol) := by
  unfold Parsing.bumpSymbol
  infer_instance

instance bumpAs (kind : NodeKind) : Forward (bumpAs kind) := Forward.bumpSymbol _

instance bump : Forward bump := by
  unfold Parsing.bump
  infer_instance

instance expect (mark : Punctuation) : Forward (expect mark) := by
  unfold Parsing.expect
  infer_instance

instance expectOperator (o : Operator) : Forward (expectOperator o) := by
  unfold Parsing.expectOperator
  infer_instance

instance expectWord (word : Keyword) (what : Expected) : Forward (expectWord word what) := by
  unfold Parsing.expectWord
  infer_instance

instance expectIdentifier (kind : NodeKind) (what : Expected) :
    Forward (expectIdentifier kind what) := by
  unfold Parsing.expectIdentifier
  infer_instance

set_option synthInstance.maxSize 256 in
instance listOf (kind : NodeKind) (opening closing : Punctuation) (item : Parse Node)
    [Composed item] : Forward (listOf kind opening closing item) := by
  unfold Parsing.listOf
  dsimp only
  infer_instance

end Forward

end Steps

/-! ### Types and literals -/

section Literals

instance : Forward tupleType := by
  unfold tupleType
  dsimp only
  infer_instance

instance : Forward typeAtom := by
  unfold typeAtom
  refine @Forward.look _ _ _ _ _ fun kind => ?_
  split
  · split <;> infer_instance
  · infer_instance
  · infer_instance
  · split <;> infer_instance

instance : Forward postfixType := by
  unfold postfixType
  infer_instance

instance : Forward firstOperand := by
  unfold firstOperand
  infer_instance

instance : Forward unionType := by
  unfold unionType
  infer_instance

instance : Forward typeAscription := by
  unfold typeAscription
  infer_instance

instance (quote : Punctuation) (parts : List StringPart) : Forward (stringLiteral quote parts) := by
  unfold stringLiteral
  infer_instance

instance (pattern : Span) (flags : Option Span) : Forward (regexLiteral pattern flags) := by
  unfold regexLiteral
  cases flags <;> infer_instance

instance : Forward templateSubstitution := by
  unfold templateSubstitution
  infer_instance

instance : Forward templateString := by
  have (children : Array Node) (kind : TokenKind) : Composed (match kind with
      | .templateChars | .templateEscape => do return .more (children.push (← bump))
      | .punctuation .dollarBrace => do return .more (children.push (← templateSubstitution))
      | _ => Pure.pure (.done children) : Parse (Round (Array Node))) := by
    split <;> infer_instance
  unfold templateString
  infer_instance

instance : Forward arrayLiteral := by
  unfold arrayLiteral
  dsimp only
  infer_instance

instance (children : Array Node) : Forward (objectMember children) := by
  unfold objectMember
  infer_instance

instance : Forward objectLiteral := by
  unfold objectLiteral
  dsimp only
  infer_instance

instance : Forward comptimeIdentifier := by
  unfold comptimeIdentifier
  infer_instance

instance : Forward privateName := by
  unfold privateName
  infer_instance

end Literals

/-! ### Functions and match expressions -/

section Callables

instance : Forward block := by
  unfold block
  infer_instance

instance : Forward parameters := by
  unfold parameters
  infer_instance

instance (part : Parse (Array Node)) [Forward part] : Forward (optionally true part) :=
  inferInstanceAs (Forward part)

instance (part : Parse (Array Node)) : Still (optionally false part) :=
  inferInstanceAs (Still (pure #[]))

instance : Forward parameter := by
  unfold parameter
  refine @Forward.look _ _ _ _ _ fun there => ?_
  cases there <;> infer_instance

instance : Forward functionDeclaration := by
  unfold functionDeclaration
  infer_instance

instance : Forward anonymousFunction := by
  unfold anonymousFunction
  infer_instance

instance : Forward arrowFunction := by
  unfold arrowFunction
  infer_instance

instance : Forward parenthesized := by
  unfold parenthesized
  infer_instance

instance : Forward signedInteger := by
  unfold signedInteger
  infer_instance

instance : Forward integerCondition := by
  unfold integerCondition
  infer_instance

instance (children : Array Node) : Forward (pathCondition children) := by
  unfold pathCondition
  infer_instance

instance (children : Array Node) : Forward (condition children) := by
  unfold condition
  refine @Forward.look _ _ _ _ _ fun kind => ?_
  split
  all_goals first | infer_instance | (split <;> infer_instance)

instance : Forward matchCase := by
  unfold matchCase
  infer_instance

instance : Forward matchElse := by
  unfold matchElse
  infer_instance

instance : Forward matchExpression := by
  unfold matchExpression
  infer_instance

end Callables

/-! ### Operands and patterns -/

section Operands

instance : Forward primaryContent := by
  unfold primaryContent
  refine @Forward.look _ _ _ _ _ fun kind => ?_
  split
  all_goals first | infer_instance | (split <;> infer_instance)

instance : Forward primary := by
  unfold primary
  infer_instance

instance : Forward operand := by
  unfold operand
  infer_instance

instance (operand : Node) : Still (requirePrimary operand) := by
  unfold requirePrimary
  infer_instance

instance : Forward arguments := by
  unfold arguments
  infer_instance

instance : Forward accessMark := by
  unfold accessMark
  infer_instance

instance (object : Node) : Forward (member object) := by
  unfold member
  infer_instance

instance (operand : Node) : Forward (call operand) := by
  unfold call
  infer_instance

instance (operand : Node) : Forward (optionalCall operand) := by
  unfold optionalCall
  infer_instance

instance (operand : Node) : Forward (access operand) := by
  unfold access
  infer_instance

instance (operand : Node) (allowed : List NodeKind) : Still (assignmentTarget operand allowed) := by
  unfold assignmentTarget
  split <;> infer_instance

instance (target : Node) : Forward (assignmentRest target) := by
  unfold assignmentRest
  infer_instance

instance (target : Node) : Forward (augmentedRest target) := by
  unfold augmentedRest
  infer_instance

instance : Forward argument := by
  unfold argument
  infer_instance

instance : Forward target := by
  unfold target
  refine @Forward.look _ _ _ _ _ fun kind => ?_
  split <;> infer_instance

instance : Forward restPattern := by
  unfold restPattern
  infer_instance

instance : Forward patternContent := by
  unfold patternContent
  infer_instance

instance : Forward pattern := by
  unfold pattern
  infer_instance

instance : Forward patternWithDefault := by
  unfold patternWithDefault
  infer_instance

instance : Forward objectPatternMember := by
  unfold objectPatternMember
  refine @Forward.look _ _ _ _ _ fun kind => ?_
  split <;> infer_instance

instance : Forward objectPattern := by
  unfold objectPattern
  infer_instance

instance : Forward arrayPattern := by
  unfold arrayPattern
  infer_instance

instance : Forward destructuringAssignment := by
  unfold destructuringAssignment destructuringPattern
  infer_instance

end Operands

/-! ### Expressions and statements -/

section Statements

instance : Forward unaryOperation := by
  unfold unaryOperation
  infer_instance

instance : Forward privateMembership := by
  unfold privateMembership
  infer_instance

instance : Forward ifTernary := by
  unfold ifTernary
  infer_instance

instance : Forward unary := by
  unfold unary
  refine @Forward.look _ _ _ _ _ fun kind => ?_
  split <;> infer_instance

instance (least : Nat) : Forward (binary least) := by
  unfold binary
  infer_instance

instance : Forward initializer := by
  unfold initializer
  infer_instance

instance : Forward enumMember := Forward.expectIdentifier _ _

set_option synthInstance.maxSize 256 in
instance : Forward variableDeclaration := by
  unfold variableDeclaration
  infer_instance

instance : Forward enumDeclaration := by
  unfold enumDeclaration
  dsimp only
  infer_instance

instance : Forward elseBranch := by
  unfold elseBranch
  infer_instance

instance : Forward ifStatement := by
  unfold ifStatement
  infer_instance

instance : Forward returnStatement := by
  unfold returnStatement
  infer_instance

instance : Forward breakStatement := by
  unfold breakStatement
  infer_instance

instance : Forward expressionStatement := by
  have (start : Span) (value : Node) : Composed (match value.kind? with
      | some .assignmentExpression => Pure.pure value
      | some .callExpression => do node .callStatement #[value, ← expectOrMissing .semicolon]
      | _ => throw ⟨.notAStatement, start.merge value.span⟩ : Parse Node) := by
    split <;> infer_instance
  unfold expressionStatement
  infer_instance

instance : Still opensAssignment := by
  unfold opensAssignment
  infer_instance

instance : Forward anyStatement := by
  unfold anyStatement
  refine @Forward.look _ _ _ _ _ fun kind => ?_
  split <;> infer_instance

end Statements

/-! ### Levels -/

instance (goal : Goal) : Forward (production goal) := by
  cases goal <;> (unfold production; infer_instance)

theorem level_urges (tokens : Array Token) (maxDepth levels : Nat) :
    Urges ⟨tokens, level tokens maxDepth levels⟩ := by
  induction levels with
  | zero => exact fun _ _ _ => .refl
  | succ levels ih =>
    exact fun goal s => Forward.passes (m := production goal) _
      (level_deepens tokens maxDepth levels) ih s

end ScriptTree.Parsing
