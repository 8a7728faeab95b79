import ScriptTree.Parsing.Operand

/-! Assignments and the patterns on their left.

An identifier or member is assigned to without the node of a primary expression around it. Patterns
take objects and arrays apart; their elements may nest, have defaults and collect what is left
over. -/
namespace ScriptTree.Parsing

/-! ### Targets -/

/-- The content of a primary expression, if it is of one of these kinds. -/
def assignmentTarget (operand : Node) (allowed : List NodeKind) : Parse Node :=
  match operand.children with
  | [inner] =>
    if operand.kind? = some .primaryExpression && inner.kind?.any allowed.contains then return inner
    else throw ⟨.invalidTarget, operand.span⟩
  | _ => throw ⟨.invalidTarget, operand.span⟩

/-- The rest of an assignment behind its target, with the semicolon. -/
def assignmentRest (target : Node) : Parse Node := do
  let sign ← expectOperator .assign
  let value ← expression
  node .assignmentExpression
    #[target.withField .left, sign, value.withField .right, ← expectOrMissing .semicolon]

/-- The rest of a compound assignment behind its target; the semicolon is not part of it. -/
def augmentedRest (target : Node) : Parse Node := do
  let sign ← bump
  let value ← expression
  node .augmentedAssignmentExpression
    #[target.withField .left, sign.withField .operator, value.withField .right]

/-- An operand, or the assignment to it. -/
def assignmentOr (operand : Node) : Parse Node := do
  let .operator o := ← peekKind | return operand
  if o = .assign then
    assignmentRest (← assignmentTarget operand [.identifier, .memberExpression])
  else if o.isAugmentedAssignment then
    augmentedRest
      (← assignmentTarget operand [.identifier, .memberExpression, .parenthesizedExpression])
  else return operand

/-! ### Patterns -/

/-- An identifier, a member or a nested pattern. -/
def target : Parse Node := do
  match ← peekKind with
  | .punctuation .leftBrace => descend .objectPattern
  | .punctuation .leftBracket => descend .arrayPattern
  | _ => assignmentTarget (← operand) [.identifier, .memberExpression]

/-- What collects everything left over. -/
def restPattern : Parse Node := do
  let dots ← bump
  node .restPattern #[dots, ← target]

/-- What stands inside the node of a pattern. -/
def patternContent : Parse Node := do
  if ← sees .ellipsis then restPattern else target

/-- The pattern one level deeper. -/
def pattern : Parse Node := do
  node .pattern #[← patternContent]

/-- A pattern, which may have a default. -/
def patternWithDefault : Parse Node := do
  let pattern ← descend .pattern
  unless ← seesOperator .assign do return pattern
  let sign ← bump
  let value ← expression
  node .assignmentPattern #[pattern.withField .left, sign, value.withField .right]

/-- The rest of a member behind its key. -/
def pairRest (key : Node) : Parse Node := do
  let colon ← expect .colon
  let value ← patternWithDefault
  node .pairPattern #[key.withField .key, colon, value.withField .value]

def objectPatternMember : Parse Node := do
  match ← peekKind with
  | .punctuation .ellipsis => restPattern
  | .punctuation .hash =>
    let paired := (← kindAhead 2).isPunctuation .colon
    let name ← privateName
    if paired then pairRest name else node .shorthandPropertyIdentifierPattern #[name]
  | .identifier _ =>
    if (← kindAhead 1).isPunctuation .colon then pairRest (← bumpAs .identifier)
    else bumpAs .shorthandPropertyIdentifierPattern
  | _ => unexpected .propertyPattern

def objectPattern : Parse Node := listOf .objectPattern .leftBrace .rightBrace objectPatternMember

def arrayPattern : Parse Node := listOf .arrayPattern .leftBracket .rightBracket patternWithDefault

def destructuringPattern : Parse Node := do
  if ← sees .leftBrace then objectPattern else arrayPattern

/-- A pattern and what it takes apart. -/
def destructuringAssignment : Parse Node := do
  assignmentRest (← destructuringPattern)

end ScriptTree.Parsing
