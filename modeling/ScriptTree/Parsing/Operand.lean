import ScriptTree.Parsing.Match

/-! Operands: primary expressions with calls and member accesses behind them.

Every primary expression has a node of its own around it, and so has every member access, which can
then be accessed again. A call has none: a member of its result needs parentheses. -/
namespace ScriptTree.Parsing

/-! ### Primary expressions -/

/-- What stands inside the node of a primary expression. -/
def primaryContent : Parse Node := do
  match ← peekKind with
  | .identifier _ | .number _ => bump
  | .string quote parts => stringLiteral quote parts
  | .regex pattern flags => regexLiteral pattern flags
  | .keyword .functionWord =>
    if (← kindAhead 1).isPunctuation .leftParen then anonymousFunction else unexpected .value
  | .keyword .matchWord => matchExpression
  | .punctuation .atSign => comptimeIdentifier
  | .punctuation .backtick => templateString
  | .punctuation .leftParen =>
    if ← closesBefore (·.isPunctuation .colon) then arrowFunction else parenthesized
  | .punctuation .leftBracket => arrayLiteral
  | .punctuation .leftBrace => objectLiteral
  | kind =>
    match literalKind? kind with
    | some literal => bumpAs literal
    | none => unexpected .expression

def primary : Parse Node := do
  node .primaryExpression #[← primaryContent]

/-! ### Calls and members -/

/-- An argument; the elements of a spread one are passed one by one. -/
def argument : Parse Node := do
  unless ← sees .ellipsis do return ← expression
  let dots ← bump
  node .spreadArgument #[dots, ← expression]

def arguments : Parse Node := listOf .argumentList .leftParen .rightParen argument

/-- Fails unless the operand is a primary expression. -/
def requirePrimary (operand : Node) : Parse Unit := do
  if operand.kind? = some .primaryExpression then return
  throw ⟨.memberOfCall, (← peek).span⟩

/-- The mark of a member access, behind the object. -/
def accessMark : Parse Node := do
  if ← sees .questionDot then return (← bumpAs .optionalChain).withField .optionalChain else bump

/-- The name behind the mark of a member access. -/
def propertyName : Parse Node := do
  if ← sees .hash then privateName else expectIdentifier .propertyIdentifier .propertyName

/-- The member of an object that the mark ahead accesses. -/
def member (object : Node) : Parse Node := do
  let mark ← accessMark
  let property ← propertyName
  node .memberExpression #[object.withField .object, mark, property.withField .property]

/-- The call of an operand. -/
def call (operand : Node) : Parse Node := do
  let arguments ← arguments
  node .callExpression #[operand.withField .function, arguments.withField .arguments]

/-- The call of an operand that may be undefined. -/
def optionalCall (operand : Node) : Parse Node := do
  requirePrimary operand
  let chain ← bumpAs .optionalChain
  let arguments ← arguments
  node .callExpression
    #[operand.withField .function, chain.withField .optionalChain, arguments.withField .arguments]

/-- A member access, which is a primary expression again. -/
def access (operand : Node) : Parse Node := do
  requirePrimary operand
  node .primaryExpression #[← member operand]

/-- The operand with one call or member access behind it, if there is one. -/
def extend (operand : Node) : Parse (Round Node) := do
  match ← peekKind with
  | .punctuation .leftParen => return .more (← call operand)
  | .punctuation .questionDot =>
    if (← kindAhead 1).isPunctuation .leftParen then return .more (← optionalCall operand)
    else return .more (← access operand)
  | .punctuation .dot => return .more (← access operand)
  | _ => return .done operand

/-- An operand with everything behind it that is called or accessed. -/
def operand : Parse Node := do
  repeatFrom (← primary) extend

end ScriptTree.Parsing
