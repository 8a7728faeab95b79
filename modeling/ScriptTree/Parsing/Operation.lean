import ScriptTree.Parsing.Assignment

/-! Expressions with operators.

`binary` reads operators as long as they bind tightly enough. What stands to the right of one is
read one level deeper, with the least precedence that keeps the grouping: that of the operator if it
groups from the right, one more if it groups from the left. An assignment ends the chain it stands
in. -/
namespace ScriptTree.Parsing

/-! ### Unary level -/

/-- A unary operator and its operand. -/
def unaryOperation : Parse Node := do
  let o ← bump
  let argument ← descend .unary
  node .unaryExpression #[o.withField .operator, argument.withField .argument]

/-- The test for a private member, the only place where a private name stands alone. -/
def privateMembership : Parse Node := do
  let left ← privateName
  let o ← expectWord .inWord .inAfterPrivateName
  let right ← descend (.binary (Operator.membership.precedence + 1))
  node .binaryExpression #[left.withField .left, o.withField .operator, right.withField .right]

/-- A choice between two expressions. -/
def ifTernary : Parse Node := do
  let word ← bump
  let condition ← parenthesized
  let consequence ← expression
  let otherwise ← expectWord .elseWord (.word .elseWord)
  let alternative ← expression
  node .ifTernaryExpression
    #[word, condition.withField .condition, consequence.withField .consequence, otherwise,
      alternative.withField .alternative]

/-- An expression without binary operators of its own. -/
def unary : Parse Node := do
  match ← peekKind with
  | .keyword .ifWord => ifTernary
  | .keyword .typeofWord | .keyword .voidWord => unaryOperation
  | .operator .increment | .operator .decrement => throw ⟨.updateExpression, (← peek).span⟩
  | .punctuation .hash => privateMembership
  | .operator o => if o.isUnary then unaryOperation else assignmentOr (← operand)
  | _ => assignmentOr (← operand)

/-! ### Binary level -/

/-- The operator that a token is between two operands. -/
def binaryOperator? : TokenKind → Option Operator
  | .operator o => some o
  | .keyword .instanceofWord => some .instanceOf
  | .keyword .inWord => some .membership
  | _ => none

/-- The least precedence to the right of an operator. -/
def leastAfter : Nat × Associativity → Nat
  | (precedence, .left) => precedence + 1
  | (precedence, .right) => precedence

def isAssignment (n : Node) : Bool :=
  n.kind? = some .assignmentExpression || n.kind? = some .augmentedAssignmentExpression

/-- The expression with one more operator and its right operand, if the operator binds tightly
enough. -/
def operateOn (least : Nat) (left : Node) : Parse (Round Node) := do
  if isAssignment left then return .done left
  match (binaryOperator? (← peekKind)).bind Operator.binding? with
  | none => return .done left
  | some binding =>
    if binding.1 < least then return .done left
    let o ← bump
    let right ← descend (.binary (leastAfter binding))
    return .more (← node .binaryExpression
      #[left.withField .left, o.withField .operator, right.withField .right])

/-- An expression with operators that have at least the precedence `least`. -/
def binary (least : Nat) : Parse Node := do
  repeatFrom (← unary) (operateOn least)

end ScriptTree.Parsing
