import ScriptTree.Building.Operand
import ScriptTree.Parsing.Statement

/-! Productions over the arena: from assignments to programs.

These are the productions of assignments, patterns, operators and statements, with the places of nodes
where those give nodes, and the levels on which they stand. An assignment target is the child of a
primary expression; the primary expression stays in the arena, but nothing refers to it any more. -/
namespace ScriptTree.Building

open Parsing

/-! ### Targets -/

/-- The content of a primary expression, if it is of one of these kinds. -/
def assignmentTarget (operand : NodeId) (allowed : List NodeKind) : Build NodeId := do
  if (← kindOf operand) = some .primaryExpression then
    if let [inner] := ← childrenOf operand then
      if (← kindOf inner).any allowed.contains then return inner
  fail ⟨.invalidTarget, ← spanOf operand⟩

/-- The rest of an assignment behind its target, with the semicolon. -/
def assignmentRest (target : NodeId) : Build NodeId := do
  let sign ← expectOperator .assign
  let value ← expression
  node .assignmentExpression
    #[target.withField .left, sign, value.withField .right, ← expectOrMissing .semicolon]

/-- The rest of a compound assignment behind its target; the semicolon is not part of it. -/
def augmentedRest (target : NodeId) : Build NodeId := do
  let sign ← bump
  let value ← expression
  node .augmentedAssignmentExpression
    #[target.withField .left, sign.withField .operator, value.withField .right]

/-- An operand, or the assignment to it. -/
def assignmentOr (operand : NodeId) : Build NodeId := do
  let .operator o := ← peekKind | return operand
  if o = .assign then
    assignmentRest (← assignmentTarget operand [.identifier, .memberExpression])
  else if o.isAugmentedAssignment then
    augmentedRest
      (← assignmentTarget operand [.identifier, .memberExpression, .parenthesizedExpression])
  else return operand

/-! ### Patterns -/

/-- An identifier, a member or a nested pattern. -/
def target : Build NodeId := do
  match ← peekKind with
  | .punctuation .leftBrace => descend .objectPattern
  | .punctuation .leftBracket => descend .arrayPattern
  | _ => assignmentTarget (← operand) [.identifier, .memberExpression]

/-- What collects everything left over. -/
def restPattern : Build NodeId := do
  let dots ← bump
  node .restPattern #[dots, ← target]

/-- What stands inside the node of a pattern. -/
def patternContent : Build NodeId := do
  if ← sees .ellipsis then restPattern else target

/-- The pattern one level deeper. -/
def pattern : Build NodeId := do
  node .pattern #[← patternContent]

/-- A pattern, which may have a default. -/
def patternWithDefault : Build NodeId := do
  let pattern ← descend .pattern
  unless ← seesOperator .assign do return pattern
  let sign ← bump
  let value ← expression
  node .assignmentPattern #[pattern.withField .left, sign, value.withField .right]

/-- The rest of a member behind its key. -/
def pairRest (key : NodeId) : Build NodeId := do
  let colon ← expect .colon
  let value ← patternWithDefault
  node .pairPattern #[key.withField .key, colon, value.withField .value]

def objectPatternMember : Build NodeId := do
  match ← peekKind with
  | .punctuation .ellipsis => restPattern
  | .punctuation .hash =>
    let paired := (← kindAhead 2).isPunctuation .colon
    let name ← privateName
    if paired then pairRest name else node .shorthandPropertyIdentifierPattern #[name]
  | .identifier _ =>
    if (← kindAhead 1).isPunctuation .colon then pairRest (← bumpAs .identifier)
    else bumpAs .shorthandPropertyIdentifierPattern
  | _ => unexpected .propertyPattern

def objectPattern : Build NodeId :=
  listOf .objectPattern .leftBrace .rightBrace objectPatternMember

def arrayPattern : Build NodeId := listOf .arrayPattern .leftBracket .rightBracket patternWithDefault

def destructuringPattern : Build NodeId := do
  if ← sees .leftBrace then objectPattern else arrayPattern

/-- A pattern and what it takes apart. -/
def destructuringAssignment : Build NodeId := do
  assignmentRest (← destructuringPattern)

/-! ### Unary level -/

/-- A unary operator and its operand. -/
def unaryOperation : Build NodeId := do
  let o ← bump
  let argument ← descend .unary
  node .unaryExpression #[o.withField .operator, argument.withField .argument]

/-- The test for a private member, the only place where a private name stands alone. -/
def privateMembership : Build NodeId := do
  let left ← privateName
  let o ← expectWord .inWord .inAfterPrivateName
  let right ← descend (.binary (Operator.membership.precedence + 1))
  node .binaryExpression #[left.withField .left, o.withField .operator, right.withField .right]

/-- A choice between two expressions. -/
def ifTernary : Build NodeId := do
  let word ← bump
  let condition ← parenthesized
  let consequence ← expression
  let otherwise ← expectWord .elseWord (.word .elseWord)
  let alternative ← expression
  node .ifTernaryExpression
    #[word, condition.withField .condition, consequence.withField .consequence, otherwise,
      alternative.withField .alternative]

/-- An expression without binary operators of its own. -/
def unary : Build NodeId := do
  match ← peekKind with
  | .keyword .ifWord => ifTernary
  | .keyword .typeofWord | .keyword .voidWord => unaryOperation
  | .operator .increment | .operator .decrement => fail ⟨.updateExpression, (← peek).span⟩
  | .punctuation .hash => privateMembership
  | .operator o => if o.isUnary then unaryOperation else assignmentOr (← operand)
  | _ => assignmentOr (← operand)

/-! ### Binary level -/

def isAssignment (id : NodeId) : Build Bool := do
  let kind ← kindOf id
  return kind = some .assignmentExpression || kind = some .augmentedAssignmentExpression

/-- The expression with one more operator and its right operand, if the operator binds tightly
enough. -/
def operateOn (least : Nat) (left : NodeId) : Build (Round NodeId) := do
  if ← isAssignment left then return .done left
  match (binaryOperator? (← peekKind)).bind Operator.binding? with
  | none => return .done left
  | some binding =>
    if binding.1 < least then return .done left
    let o ← bump
    let right ← descend (.binary (leastAfter binding))
    return .more (← node .binaryExpression
      #[left.withField .left, o.withField .operator, right.withField .right])

/-- An expression with operators that have at least the precedence `least`. -/
def binary (least : Nat) : Build NodeId := do
  repeatFrom (← unary) (operateOn least)

/-! ### Declarations -/

/-- The value of a declaration with the sign in front. -/
def initializer : Build (Array Child) := do
  let sign ← bump
  let value ← expression
  return #[sign, value.withField .value]

/-- A constant or variable, which may have a type and a value. -/
def variableDeclaration : Build NodeId := do
  let kind ← bumpAs (if ← seesWord .constWord then .constMark else .letMark)
  let name ← expectIdentifier .identifier .variableName
  let type ← optionally (← sees .colon) do return #[← typeAscription]
  let value ← optionally (← seesOperator .assign) initializer
  let stop ← expectOrMissing .semicolon
  node .variableDeclaration
    (#[kind.withField .kind, name.withField .declaredName] ++ type ++ value ++ #[stop.plain])

def enumMember : Build NodeId := expectIdentifier .identifier .enumMember

/-- One or more names in braces. -/
def enumDeclaration : Build NodeId := do
  let word ← bump
  let name ← expectIdentifier .identifier .enumName
  let opening ← expect .leftBrace
  let children ← repeatFrom #[word.plain, name, opening, ← enumMember] fun children => do
    unless ← sees .comma do return .done children
    let children := children.push (← bump)
    if ← sees .rightBrace then return .done children
    return .more (children.push (← enumMember))
  node .enumDeclaration (children.push (← expect .rightBrace))

/-! ### Statements -/

/-- What follows the word `else`. -/
def alternative : Build NodeId := do
  if ← seesWord .ifWord then descend .ifStatement else block

/-- The word `else` and what follows it. -/
def elseBranch : Build (Array Child) := do
  let word ← bump
  let alternative ← alternative
  return #[word, alternative.withField .alternative]

def ifStatement : Build NodeId := do
  let word ← bump
  let condition ← parenthesized
  let consequence ← block
  let rest ← optionally (← seesWord .elseWord) elseBranch
  node .ifStatement
    (#[word.plain, condition.withField .condition, consequence.withField .consequence] ++ rest)

def returnStatement : Build NodeId := do
  let word ← bump
  let value ← expression
  node .returnStatement #[word, value, ← expectOrMissing .semicolon]

def breakStatement : Build NodeId := do
  let word ← bump
  node .breakStatement #[word, ← expectOrMissing .semicolon]

/-- A call or an assignment. -/
def expressionStatement : Build NodeId := do
  let start := (← peek).span
  let value ← expression
  match ← kindOf value with
  | some .assignmentExpression => return value
  | some .callExpression => node .callStatement #[value, ← expectOrMissing .semicolon]
  | _ => fail ⟨.notAStatement, start.merge (← spanOf value)⟩

/-- The statement one level deeper. -/
def anyStatement : Build NodeId := do
  match ← peekKind with
  | .keyword .functionWord =>
    if (← kindAhead 1).isIdentifier then functionDeclaration else expressionStatement
  | .keyword .constWord | .keyword .letWord => variableDeclaration
  | .keyword .matchWord => matchExpression
  | .keyword .enumWord => enumDeclaration
  | .keyword .ifWord => ifStatement
  | .keyword .returnWord => returnStatement
  | .keyword .breakWord => breakStatement
  | .punctuation .leftBrace => if ← opensAssignment then destructuringAssignment else block
  | .punctuation .leftBracket =>
    if ← opensAssignment then destructuringAssignment else expressionStatement
  | _ => expressionStatement

/-! ### Levels -/

/-- The production for a goal. -/
def production : Goal → Build NodeId
  | .statement => anyStatement
  | .ifStatement => ifStatement
  | .binary least => binary least
  | .unary => unary
  | .type => unionType
  | .pattern => pattern
  | .objectPattern => objectPattern
  | .arrayPattern => arrayPattern

/-- Parses a goal with `levels` of at most `maxDepth` levels left. -/
def level (source : String) (tokens : Array Token) (maxDepth levels : Nat) (goal : Goal) :
    EStateM Fault State NodeId :=
  match levels with
  | 0 => fun s => .error (.problem ⟨.tooDeep maxDepth, (tokenAt tokens s.position).span⟩) s
  | levels + 1 => production goal ⟨source, tokens, level source tokens maxDepth levels⟩

end ScriptTree.Building
