import ScriptTree.Parsing.Recovery

/-! Types and functions.

In a type a union binds loosest; `[]` and `?` follow what they apply to. The names of the builtin
types are identifiers elsewhere and recognised here. Every parameter and every function has a
type. -/
namespace ScriptTree.Parsing

/-! ### Types -/

/-- The kind of a literal word. -/
def literalKind? : TokenKind → Option NodeKind
  | .keyword .trueWord => some .trueLiteral
  | .keyword .falseWord => some .falseLiteral
  | .keyword .undefinedWord => some .undefinedLiteral
  | _ => none

/-- The builtin type that an identifier names. -/
def primitiveType? (name : String) : Option Keyword :=
  (Keyword.find? name).filter Keyword.isPrimitiveType

/-- Types in brackets. -/
def tupleType : Parse Node := do
  let children ← repeatFrom #[← bump] fun children => do
    if ← sees .rightBracket then return .done children
    let children := children.push (← type)
    if ← sees .comma then return .more (children.push (← bump))
    return .done children
  node .tupleType (children.push (← expect .rightBracket))

def typeAtom : Parse Node := do
  match ← peekKind with
  | .identifier name =>
    match primitiveType? name with
    | some word => node .primitiveType #[← bumpSymbol (.keyword word)]
    | none => bumpAs .typeIdentifier
  | .keyword .voidWord => node .primitiveType #[← bump]
  | .punctuation .leftBracket => tupleType
  | kind =>
    match literalKind? kind with
    | some literal => node .primitiveType #[← bumpAs literal]
    | none => unexpected .type

/-- A type with any number of `[]` and `?` behind it. -/
def postfixType : Parse Node := do
  repeatFrom (← typeAtom) fun t => do
    if (← sees .leftBracket) && (← kindAhead 1).isPunctuation .rightBracket then
      return .more (← node .arrayType #[t, ← bump, ← bump])
    if ← sees .question then return .more (← node .orUndefinedType #[t, ← bump])
    return .done t

/-- The first operand of a union, which may have a bar in front. -/
def firstOperand : Parse Node := do
  if ← seesOperator .bitOr then node .unionType #[← bump, ← postfixType] else postfixType

def unionType : Parse Node := do
  repeatFrom (← firstOperand) fun left => do
    if ← seesOperator .bitOr then return .more (← node .unionType #[left, ← bump, ← postfixType])
    return .done left

/-- A colon and a type. -/
def typeAscription : Parse Node := do
  let colon ← expect .colon
  node .typeAscription #[colon, (← type).withField .type]

/-! ### Parameters, result types and bodies -/

/-- A parameter, which may take all remaining arguments. -/
def parameter : Parse Node := do
  let spread ← optionally (← sees .ellipsis) do return #[(← bump).withField .spread]
  let name ← expectIdentifier .identifier .parameterName
  demand (← sees .colon) .parameterType
  let type ← typeAscription
  node .argumentDeclaration (spread ++ #[name.withField .declaredName, type.withField .type])

def parameters : Parse Node := listOf .argumentListDeclaration .leftParen .rightParen parameter

def returnType : Parse Node := do
  demand (← sees .colon) .returnType
  return (← typeAscription).withField .returnType

/-- Whether the brace ahead opens an object: a name and then a colon, a comma or the closing
brace. -/
def opensObject : Parse Bool := do
  let second ← kindAhead 2
  return (← kindAhead 1).isIdentifier &&
    (second.isPunctuation .colon || second.isPunctuation .comma || second.isPunctuation .rightBrace)

/-- A block, or an expression, which may start with a brace if that opens an object. -/
def blockOrExpression : Parse Node := do
  if (← sees .leftBrace) && !(← opensObject) then block else expression

def functionDeclaration : Parse Node := do
  let word ← bump
  let name ← expectIdentifier .identifier .functionName
  let parameters ← parameters
  let type ← returnType
  let body ← block
  node .functionDeclaration #[word, name, parameters, type, body.withField .body]

def anonymousFunction : Parse Node := do
  let word ← bump
  let parameters ← parameters
  let type ← returnType
  let body ← block
  node .anonymousFunctionExpression #[word, parameters, type, body.withField .body]

def arrowFunction : Parse Node := do
  let parameters ← parameters
  let type ← returnType
  let arrow ← expect .fatArrow
  let body ← blockOrExpression
  node .arrowFunctionExpression #[parameters, type, arrow, body.withField .body]

end ScriptTree.Parsing
