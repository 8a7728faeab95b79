import ScriptTree.Proofs.Calls.Machine

/-! What the functions of the parser do, and how they are run on a stack. -/
namespace ScriptTree.Calls

open Parsing
open Step hiding statement expression type optionally repeatFrom listOf

namespace Step

/-! ### Types -/

def typeAscription : Step Node := do
  let colon ← expect .colon
  node .typeAscription #[colon, (← type).withField .type]

def tupleType : Step Node := do
  let children ← repeatFrom #[← bump] fun children => do
    if ← sees .rightBracket then return .done children
    let children := children.push (← type)
    if ← sees .comma then return .more (children.push (← bump))
    return .done children
  node .tupleType (children.push (← expect .rightBracket))

def typeAtom : Step Node := do
  match ← peekKind with
  | .identifier name =>
    match primitiveType? name with
    | some word => node .primitiveType #[← bumpSymbol (.keyword word)]
    | none => bumpAs .typeIdentifier
  | .keyword .voidWord => node .primitiveType #[← bump]
  | .punctuation .leftBracket => call .tupleType
  | kind =>
    match literalKind? kind with
    | some literal => node .primitiveType #[← bumpAs literal]
    | none => (unexpected .type : Parse Node)

def postfixType : Step Node := do
  repeatFrom (← call .typeAtom) fun t => do
    if (← sees .leftBracket) && (← kindAhead 1).isPunctuation .rightBracket then
      return .more (← node .arrayType #[t, ← bump, ← bump])
    if ← sees .question then return .more (← node .orUndefinedType #[t, ← bump])
    return .done t

def firstOperand : Step Node := do
  if ← seesOperator .bitOr then node .unionType #[← bump, ← call .postfixType]
  else call .postfixType

def unionType : Step Node := do
  repeatFrom (← call .firstOperand) fun left => do
    if ← seesOperator .bitOr then
      return .more (← node .unionType #[left, ← bump, ← call .postfixType])
    return .done left

/-! ### Literals -/

def templateSubstitution : Step Node := do
  let opening ← bump
  let value ← expression
  node .templateSubstitution #[opening, value, ← expect .rightBrace]

def templateString : Step Node := do
  let children ← repeatFrom #[← bump] fun children => do
    match ← peekKind with
    | .templateChars | .templateEscape => return .more (children.push (← bump))
    | .punctuation .dollarBrace => return .more (children.push (← call .templateSubstitution))
    | _ => return .done children
  node .templateString (children.push (← expect .backtick))

def arrayLiteral : Step Node := do
  let opening ← bump
  let children ← repeatFrom #[opening, ← expression] fun children => do
    unless ← sees .comma do return .done children
    let children := children.push (← bump)
    return .more (children.push (← expression))
  node .arrayLiteral (children.push (← expect .rightBracket))

def objectMember (children : Array Node) : Step (Array Node) := do
  demand (← seesIdentifier) .propertyName
  if (← kindAhead 1).isPunctuation .colon then
    let key ← bumpAs .identifier
    let colon ← bump
    let value ← expression
    return children ++ #[key.withField .key, colon, value.withField .value]
  else return children.push ((← bumpAs .shorthandPropertyIdentifier).withField .member)

def objectLiteral : Step Node := do
  let children ← repeatFrom #[← bump] fun children => do
    let children ← call (.objectMember children)
    unless ← sees .comma do return .done children
    let children := children.push (← bump)
    return if ← sees .rightBrace then .done children else .more children
  node .objectLiteral (children.push (← expect .rightBrace))

/-! ### Statements that may fail -/

def statementOrError : Step (Option Node) := do
  let start := (← (get : Parse State)).position
  let mark ← madeCount
  recovering (some <$> statement) fun problem => recover start mark problem

def statements (inBlock : Bool) (children : Array Node) : Step (Array Node) :=
  repeatFrom children fun children => do
    if ← atEnd then return .done children
    if inBlock && (← sees .rightBrace) then return .done children
    match ← call .statementOrError with
    | some n => return .more (children.push n)
    | none => return .more children

def block : Step Node := do
  let children ← call (.statements true #[← expect .leftBrace])
  node .blockStatement (children.push (← expectOrMissing .rightBrace))

/-! ### Functions -/

def parameter : Step Node := do
  let spread ← optionally (← sees .ellipsis) do return #[(← bump).withField .spread]
  let name ← expectIdentifier .identifier .parameterName
  demand (← sees .colon) .parameterType
  let type ← call .typeAscription
  node .argumentDeclaration (spread ++ #[name.withField .declaredName, type.withField .type])

def parameters : Step Node :=
  listOf .argumentListDeclaration .leftParen .rightParen (call .parameter)

def returnType : Step Node := do
  demand (← sees .colon) .returnType
  return (← call .typeAscription).withField .returnType

def blockOrExpression : Step Node := do
  if (← sees .leftBrace) && !(← opensObject) then call .block else expression

def functionDeclaration : Step Node := do
  let word ← bump
  let name ← expectIdentifier .identifier .functionName
  let parameters ← call .parameters
  let type ← call .returnType
  let body ← call .block
  node .functionDeclaration #[word, name, parameters, type, body.withField .body]

def anonymousFunction : Step Node := do
  let word ← bump
  let parameters ← call .parameters
  let type ← call .returnType
  let body ← call .block
  node .anonymousFunctionExpression #[word, parameters, type, body.withField .body]

def arrowFunction : Step Node := do
  let parameters ← call .parameters
  let type ← call .returnType
  let arrow ← expect .fatArrow
  let body ← call .blockOrExpression
  node .arrowFunctionExpression #[parameters, type, arrow, body.withField .body]

/-! ### Match expressions -/

def parenthesized : Step Node := do
  let opening ← expect .leftParen
  let inner ← expression
  node .parenthesizedExpression #[opening, inner, ← expect .rightParen]

def matchCase : Step Node := do
  let children ← conditions #[← bump]
  let colon ← expect .colon
  let consequence ← call .blockOrExpression
  let stop ← expectOrMissing .semicolon
  node .matchCase (children ++ #[colon, consequence.withField .consequence, stop])

def matchElse : Step Node := do
  let word ← bump
  let colon ← expect .colon
  let consequence ← call .blockOrExpression
  let stop ← expectOrMissing .semicolon
  node .matchElse #[word, colon, consequence.withField .consequence, stop]

def matchExpression : Step Node := do
  let word ← bump
  let value ← call .parenthesized
  let opening ← expect .leftBrace
  let cases ← repeatFrom #[] fun cases => do
    unless ← seesWord .caseWord do return .done cases
    return .more (cases.push ((← call .matchCase).withField .body))
  let fallback ← optionally (← seesWord .elseWord) do
    return #[(← call .matchElse).withField .body]
  let closing ← expect .rightBrace
  node .matchExpression
    (#[word, value.withField .value, opening.withField .body] ++ cases ++ fallback ++
      #[closing.withField .body])

/-! ### Operands -/

def primaryContent : Step Node := do
  match ← peekKind with
  | .identifier _ | .number _ => bump
  | .string quote parts => stringLiteral quote parts
  | .regex pattern flags => regexLiteral pattern flags
  | .keyword .functionWord =>
    if (← kindAhead 1).isPunctuation .leftParen then call .anonymousFunction
    else (unexpected .value : Parse Node)
  | .keyword .matchWord => call .matchExpression
  | .punctuation .atSign => comptimeIdentifier
  | .punctuation .backtick => call .templateString
  | .punctuation .leftParen =>
    if ← closesBefore (·.isPunctuation .colon) then call .arrowFunction else call .parenthesized
  | .punctuation .leftBracket => call .arrayLiteral
  | .punctuation .leftBrace => call .objectLiteral
  | kind =>
    match literalKind? kind with
    | some literal => bumpAs literal
    | none => (unexpected .expression : Parse Node)

def primary : Step Node := do
  node .primaryExpression #[← call .primaryContent]

def argument : Step Node := do
  unless ← sees .ellipsis do return ← expression
  let dots ← bump
  node .spreadArgument #[dots, ← expression]

def arguments : Step Node := listOf .argumentList .leftParen .rightParen (call .argument)

def callOf (operand : Node) : Step Node := do
  let arguments ← call .arguments
  node .callExpression #[operand.withField .function, arguments.withField .arguments]

def optionalCall (operand : Node) : Step Node := do
  requirePrimary operand
  let chain ← bumpAs .optionalChain
  let arguments ← call .arguments
  node .callExpression
    #[operand.withField .function, chain.withField .optionalChain, arguments.withField .arguments]

def extend (operand : Node) : Step (Round Node) := do
  match ← peekKind with
  | .punctuation .leftParen => return .more (← call (.call operand))
  | .punctuation .questionDot =>
    if (← kindAhead 1).isPunctuation .leftParen then return .more (← call (.optionalCall operand))
    else return .more (← access operand)
  | .punctuation .dot => return .more (← access operand)
  | _ => return .done operand

def operand : Step Node := do
  repeatFrom (← call .primary) fun n => call (.extend n)

/-! ### Assignments and patterns -/

def assignmentRest (target : Node) : Step Node := do
  let sign ← expectOperator .assign
  let value ← expression
  node .assignmentExpression
    #[target.withField .left, sign, value.withField .right, ← expectOrMissing .semicolon]

def augmentedRest (target : Node) : Step Node := do
  let sign ← bump
  let value ← expression
  node .augmentedAssignmentExpression
    #[target.withField .left, sign.withField .operator, value.withField .right]

def assignmentOr (operand : Node) : Step Node := do
  let .operator o := ← peekKind | return operand
  if o = .assign then
    call (.assignmentRest (← assignmentTarget operand [.identifier, .memberExpression]))
  else if o.isAugmentedAssignment then
    call (.augmentedRest
      (← assignmentTarget operand [.identifier, .memberExpression, .parenthesizedExpression]))
  else return operand

def target : Step Node := do
  match ← peekKind with
  | .punctuation .leftBrace => nested .objectPattern
  | .punctuation .leftBracket => nested .arrayPattern
  | _ => assignmentTarget (← call .operand) [.identifier, .memberExpression]

def restPattern : Step Node := do
  let dots ← bump
  node .restPattern #[dots, ← call .target]

def patternContent : Step Node := do
  if ← sees .ellipsis then call .restPattern else call .target

def pattern : Step Node := do
  node .pattern #[← call .patternContent]

def patternWithDefault : Step Node := do
  let pattern ← nested .pattern
  unless ← seesOperator .assign do return pattern
  let sign ← bump
  let value ← expression
  node .assignmentPattern #[pattern.withField .left, sign, value.withField .right]

def pairRest (key : Node) : Step Node := do
  let colon ← expect .colon
  let value ← call .patternWithDefault
  node .pairPattern #[key.withField .key, colon, value.withField .value]

def objectPatternMember : Step Node := do
  match ← peekKind with
  | .punctuation .ellipsis => call .restPattern
  | .punctuation .hash =>
    let paired := (← kindAhead 2).isPunctuation .colon
    let name ← privateName
    if paired then call (.pairRest name) else node .shorthandPropertyIdentifierPattern #[name]
  | .identifier _ =>
    if (← kindAhead 1).isPunctuation .colon then call (.pairRest (← bumpAs .identifier))
    else bumpAs .shorthandPropertyIdentifierPattern
  | _ => (unexpected .propertyPattern : Parse Node)

def objectPattern : Step Node :=
  listOf .objectPattern .leftBrace .rightBrace (call .objectPatternMember)

def arrayPattern : Step Node :=
  listOf .arrayPattern .leftBracket .rightBracket (call .patternWithDefault)

def destructuringPattern : Step Node := do
  if ← sees .leftBrace then call .objectPattern else call .arrayPattern

def destructuringAssignment : Step Node := do
  call (.assignmentRest (← call .destructuringPattern))

/-! ### Operators -/

def unaryOperation : Step Node := do
  let o ← bump
  let argument ← nested .unary
  node .unaryExpression #[o.withField .operator, argument.withField .argument]

def privateMembership : Step Node := do
  let left ← privateName
  let o ← expectWord .inWord .inAfterPrivateName
  let right ← nested (.binary (Operator.membership.precedence + 1))
  node .binaryExpression #[left.withField .left, o.withField .operator, right.withField .right]

def ifTernary : Step Node := do
  let word ← bump
  let condition ← call .parenthesized
  let consequence ← expression
  let otherwise ← expectWord .elseWord (.word .elseWord)
  let alternative ← expression
  node .ifTernaryExpression
    #[word, condition.withField .condition, consequence.withField .consequence, otherwise,
      alternative.withField .alternative]

def unary : Step Node := do
  match ← peekKind with
  | .keyword .ifWord => call .ifTernary
  | .keyword .typeofWord | .keyword .voidWord => call .unaryOperation
  | .operator .increment | .operator .decrement =>
    let token ← peek
    (throw ⟨.updateExpression, token.span⟩ : Parse Node)
  | .punctuation .hash => call .privateMembership
  | .operator o =>
    if o.isUnary then call .unaryOperation else call (.assignmentOr (← call .operand))
  | _ => call (.assignmentOr (← call .operand))

def operateOn (least : Nat) (left : Node) : Step (Round Node) := do
  if isAssignment left then return .done left
  match (binaryOperator? (← peekKind)).bind Operator.binding? with
  | none => return .done left
  | some binding =>
    if binding.1 < least then return .done left
    let o ← bump
    let right ← nested (.binary (leastAfter binding))
    return .more (← node .binaryExpression
      #[left.withField .left, o.withField .operator, right.withField .right])

def binary (least : Nat) : Step Node := do
  repeatFrom (← call .unary) fun n => call (.operateOn least n)

/-! ### Statements -/

def initializer : Step (Array Node) := do
  let sign ← bump
  let value ← expression
  return #[sign, value.withField .value]

def variableDeclaration : Step Node := do
  let kind ← bumpAs (if ← seesWord .constWord then .constMark else .letMark)
  let name ← expectIdentifier .identifier .variableName
  let type ← optionally (← sees .colon) do return #[← call .typeAscription]
  let value ← optionally (← seesOperator .assign) (call .initializer)
  let stop ← expectOrMissing .semicolon
  node .variableDeclaration
    (#[kind.withField .kind, name.withField .declaredName] ++ type ++ value ++ #[stop])

def alternative : Step Node := do
  if ← seesWord .ifWord then nested .ifStatement else call .block

def elseBranch : Step (Array Node) := do
  let word ← bump
  let alternative ← call .alternative
  return #[word, alternative.withField .alternative]

def ifStatement : Step Node := do
  let word ← bump
  let condition ← call .parenthesized
  let consequence ← call .block
  let rest ← optionally (← seesWord .elseWord) (call .elseBranch)
  node .ifStatement
    (#[word, condition.withField .condition, consequence.withField .consequence] ++ rest)

def returnStatement : Step Node := do
  let word ← bump
  let value ← expression
  node .returnStatement #[word, value, ← expectOrMissing .semicolon]

def expressionStatement : Step Node := do
  let start := (← peek).span
  let value ← expression
  match value.kind? with
  | some .assignmentExpression => return value
  | some .callExpression => node .callStatement #[value, ← expectOrMissing .semicolon]
  | _ => (throw ⟨.notAStatement, start.merge value.span⟩ : Parse Node)

def anyStatement : Step Node := do
  match ← peekKind with
  | .keyword .functionWord =>
    if (← kindAhead 1).isIdentifier then call .functionDeclaration else call .expressionStatement
  | .keyword .constWord | .keyword .letWord => call .variableDeclaration
  | .keyword .matchWord => call .matchExpression
  | .keyword .enumWord => enumDeclaration
  | .keyword .ifWord => call .ifStatement
  | .keyword .returnWord => call .returnStatement
  | .keyword .breakWord => breakStatement
  | .punctuation .leftBrace =>
    if ← opensAssignment then call .destructuringAssignment else call .block
  | .punctuation .leftBracket =>
    if ← opensAssignment then call .destructuringAssignment else call .expressionStatement
  | _ => call .expressionStatement

end Step

/-! ### Running on a stack -/

/-- What a function does. -/
def Routine.body : {α : Type} → Routine α → Step α
  | _, .typeAscription => Step.typeAscription
  | _, .tupleType => Step.tupleType
  | _, .typeAtom => Step.typeAtom
  | _, .postfixType => Step.postfixType
  | _, .firstOperand => Step.firstOperand
  | _, .unionType => Step.unionType
  | _, .templateSubstitution => Step.templateSubstitution
  | _, .templateString => Step.templateString
  | _, .arrayLiteral => Step.arrayLiteral
  | _, .objectMember children => Step.objectMember children
  | _, .objectLiteral => Step.objectLiteral
  | _, .statementOrError => Step.statementOrError
  | _, .statements inBlock children => Step.statements inBlock children
  | _, .block => Step.block
  | _, .parameter => Step.parameter
  | _, .parameters => Step.parameters
  | _, .returnType => Step.returnType
  | _, .blockOrExpression => Step.blockOrExpression
  | _, .functionDeclaration => Step.functionDeclaration
  | _, .anonymousFunction => Step.anonymousFunction
  | _, .arrowFunction => Step.arrowFunction
  | _, .parenthesized => Step.parenthesized
  | _, .matchCase => Step.matchCase
  | _, .matchElse => Step.matchElse
  | _, .matchExpression => Step.matchExpression
  | _, .primaryContent => Step.primaryContent
  | _, .primary => Step.primary
  | _, .argument => Step.argument
  | _, .arguments => Step.arguments
  | _, .call n => Step.callOf n
  | _, .optionalCall n => Step.optionalCall n
  | _, .extend n => Step.extend n
  | _, .operand => Step.operand
  | _, .assignmentRest n => Step.assignmentRest n
  | _, .augmentedRest n => Step.augmentedRest n
  | _, .assignmentOr n => Step.assignmentOr n
  | _, .target => Step.target
  | _, .restPattern => Step.restPattern
  | _, .patternContent => Step.patternContent
  | _, .pattern => Step.pattern
  | _, .patternWithDefault => Step.patternWithDefault
  | _, .pairRest n => Step.pairRest n
  | _, .objectPatternMember => Step.objectPatternMember
  | _, .objectPattern => Step.objectPattern
  | _, .arrayPattern => Step.arrayPattern
  | _, .destructuringPattern => Step.destructuringPattern
  | _, .destructuringAssignment => Step.destructuringAssignment
  | _, .unaryOperation => Step.unaryOperation
  | _, .privateMembership => Step.privateMembership
  | _, .ifTernary => Step.ifTernary
  | _, .unary => Step.unary
  | _, .operateOn least left => Step.operateOn least left
  | _, .binary least => Step.binary least
  | _, .initializer => Step.initializer
  | _, .variableDeclaration => Step.variableDeclaration
  | _, .alternative => Step.alternative
  | _, .elseBranch => Step.elseBranch
  | _, .ifStatement => Step.ifStatement
  | _, .returnStatement => Step.returnStatement
  | _, .expressionStatement => Step.expressionStatement
  | _, .anyStatement => Step.anyStatement

/-- Runs a function from a depth and a state on, with room for so many calls inside each other. -/
def exec (tokens : Array Token) (maxDepth : Nat) :
    (stack : Nat) → {α : Type} → Routine α → Nat → State → Outcome α
  | 0, _, _, _, _ => .overflow
  | stack + 1, _, r, depth, s => r.body ⟨tokens, maxDepth, exec tokens maxDepth stack⟩ depth s

end ScriptTree.Calls
