import ScriptTree.Building.Arena
import ScriptTree.Parsing.Operand
import ScriptTree.Text.Source

/-! Productions over the arena: from types to operands.

These are the productions of types, literals, functions, match expressions and operands, with the places
of nodes where those give nodes. What kind of node stands at a place is looked up in the arena. Of a
string the quotes are read off the source, whatever its token says. -/
namespace ScriptTree.Building

open Parsing

/-! ### Types -/

/-- Types in brackets. -/
def tupleType : Build NodeId := do
  let children ← repeatFrom #[(← bump).plain] fun children => do
    if ← sees .rightBracket then return .done children
    let children := children.push (← type)
    if ← sees .comma then return .more (children.push (← bump))
    return .done children
  node .tupleType (children.push (← expect .rightBracket))

def typeAtom : Build NodeId := do
  match ← peekKind with
  | .identifier name =>
    match primitiveType? name with
    | some word => node .primitiveType #[← bumpSymbol (.keyword word)]
    | none => bumpAs .typeIdentifier
  | .keyword .voidWord => node .primitiveType #[← bump]
  | .punctuation .leftBracket => tupleType
  | kind =>
    match literalKind? kind with
    | some literal => node .primitiveType #[← bumpAs literal]
    | none => unexpected .type

/-- A type with any number of `[]` and `?` behind it. -/
def postfixType : Build NodeId := do
  repeatFrom (← typeAtom) fun t => do
    if (← sees .leftBracket) && (← kindAhead 1).isPunctuation .rightBracket then
      return .more (← node .arrayType #[t, ← bump, ← bump])
    if ← sees .question then return .more (← node .orUndefinedType #[t, ← bump])
    return .done t

/-- The first operand of a union, which may have a bar in front. -/
def firstOperand : Build NodeId := do
  if ← seesOperator .bitOr then node .unionType #[← bump, ← postfixType] else postfixType

def unionType : Build NodeId := do
  repeatFrom (← firstOperand) fun left => do
    if ← seesOperator .bitOr then return .more (← node .unionType #[left, ← bump, ← postfixType])
    return .done left

/-- A colon and a type. -/
def typeAscription : Build NodeId := do
  let colon ← expect .colon
  node .typeAscription #[colon, (← type).withField .type]

/-! ### Strings and regular expressions -/

/-- Whether the source can be cut at an offset. -/
def cutAt (offset : Nat) : Build Unit := do
  unless (String.Pos.Raw.mk offset).isValid (← read).source do throw .outOfRange

/-- Whether the source goes on with a text from an offset on. -/
def startsWith (offset : Nat) (text : String) : Build Bool := do
  cutAt offset
  return Span.slice ⟨offset, offset + text.utf8ByteSize⟩ (← read).source == text

/-- Whether the source up to an offset ends with a text. -/
def endsWith (offset : Nat) (text : String) : Build Bool := do
  cutAt offset
  return Span.slice ⟨offset - text.utf8ByteSize, offset⟩ (← read).source == text

/-- The quote at an offset. -/
def quoteAt (offset : Nat) : Build Punctuation := do
  return if ← startsWith offset "'" then .singleQuote else .doubleQuote

/-- The leaf of a closing mark: at its place, or made up at an offset. -/
def closingLeaf (symbol : Symbol) (closed : Bool) (place : Span) (offset : Nat) : Build NodeId :=
  if closed then leaf symbol place else absent symbol offset

def partLeaf : StringPart → Build Child
  | .fragment span => leaf (.named .stringFragment) span
  | .escape span => leaf (.named .escapeSequence) span

/-- Whether a string token with these parts has its closing quote: something is left behind its parts,
and that ends with the quote. -/
def isClosed (span : Span) (quote : Punctuation) (parts : List StringPart) : Build Bool := do
  if contentStop span.start parts < span.stop then endsWith span.stop quote.spelling
  else return false

/-- A string token with these parts. -/
def stringLiteral (parts : List StringPart) : Build NodeId := do
  let span := (← advance).span
  let quote ← quoteAt span.start
  let opening ← leaf (.punctuation quote) ⟨span.start, span.start + 1⟩
  let content ← parts.mapM partLeaf
  let closed ← isClosed span quote parts
  let closing ← closingLeaf (.punctuation quote) closed ⟨span.stop - 1, span.stop⟩ span.stop
  node .string (#[opening.plain] ++ content.toArray ++ #[closing.plain])

/-- A regular expression token with this pattern and these flags. -/
def regexLiteral (pattern : Span) (flags : Option Span) : Build NodeId := do
  let span := (← advance).span
  let opening ← leaf (.operator .divide) ⟨span.start, span.start + 1⟩
  let patternLeaf ← leaf (.named .regexPattern) pattern
  let closing ← closingLeaf (.operator .divide) (pattern.stop < span.stop)
    ⟨pattern.stop, pattern.stop + 1⟩ pattern.stop
  let children : Array Child := #[opening, patternLeaf.withField .pattern, closing]
  match flags with
  | some flags => node .regex (children.push ((← leaf (.named .regexFlags) flags).withField .flags))
  | none => node .regex children

/-! ### Other literals and names -/

/-- An expression inside a template. -/
def templateSubstitution : Build NodeId := do
  let opening ← bump
  let value ← expression
  node .templateSubstitution #[opening, value, ← expect .rightBrace]

def templateString : Build NodeId := do
  let children ← repeatFrom #[(← bump).plain] fun children => do
    match ← peekKind with
    | .templateChars | .templateEscape => return .more (children.push (← bump))
    | .punctuation .dollarBrace => return .more (children.push (← templateSubstitution))
    | _ => return .done children
  node .templateString (children.push (← expect .backtick))

/-- One or more expressions in brackets. -/
def arrayLiteral : Build NodeId := do
  let opening ← bump
  let children ← repeatFrom #[opening.plain, ← expression] fun children => do
    unless ← sees .comma do return .done children
    let children := children.push (← bump)
    return .more (children.push (← expression))
  node .arrayLiteral (children.push (← expect .rightBracket))

/-- Adds a member of an object: a key with its value, or a name that is both. -/
def objectMember (children : Array Child) : Build (Array Child) := do
  demand (← seesIdentifier) .propertyName
  if (← kindAhead 1).isPunctuation .colon then
    let key ← bumpAs .identifier
    let colon ← bump
    let value ← expression
    return children ++ #[key.withField .key, colon, value.withField .value]
  else return children.push ((← bumpAs .shorthandPropertyIdentifier).withField .member)

/-- One or more members in braces. -/
def objectLiteral : Build NodeId := do
  let children ← repeatFrom #[(← bump).plain] fun children => do
    let children ← objectMember children
    unless ← sees .comma do return .done children
    let children := children.push (← bump)
    return if ← sees .rightBrace then .done children else .more children
  node .objectLiteral (children.push (← expect .rightBrace))

/-- A name known at compile time. -/
def comptimeIdentifier : Build NodeId := do
  let mark ← bump
  node .comptimeIdentifier #[mark, ← expectIdentifier .identifier (.identifierAfter .atSign)]

/-- A private name. -/
def privateName : Build NodeId := do
  let mark ← expect .hash
  node .privatePropertyIdentifier #[mark, ← expectIdentifier .identifier (.identifierAfter .hash)]

/-! ### Functions -/

/-- A parameter, which may take all remaining arguments. -/
def parameter : Build NodeId := do
  let spread ← optionally (← sees .ellipsis) do return #[(← bump).withField .spread]
  let name ← expectIdentifier .identifier .parameterName
  demand (← sees .colon) .parameterType
  let type ← typeAscription
  node .argumentDeclaration (spread ++ #[name.withField .declaredName, type.withField .type])

def parameters : Build NodeId := listOf .argumentListDeclaration .leftParen .rightParen parameter

def returnType : Build Child := do
  demand (← sees .colon) .returnType
  return (← typeAscription).withField .returnType

/-- A block, or an expression, which may start with a brace if that opens an object. -/
def blockOrExpression : Build NodeId := do
  if (← sees .leftBrace) && !(← opensObject) then block else expression

def functionDeclaration : Build NodeId := do
  let word ← bump
  let name ← expectIdentifier .identifier .functionName
  let parameters ← parameters
  let type ← returnType
  let body ← block
  node .functionDeclaration #[word, name, parameters, type, body.withField .body]

def anonymousFunction : Build NodeId := do
  let word ← bump
  let parameters ← parameters
  let type ← returnType
  let body ← block
  node .anonymousFunctionExpression #[word, parameters, type, body.withField .body]

def arrowFunction : Build NodeId := do
  let parameters ← parameters
  let type ← returnType
  let arrow ← expect .fatArrow
  let body ← blockOrExpression
  node .arrowFunctionExpression #[parameters, type, arrow, body.withField .body]

/-! ### Match expressions -/

/-- An expression in parentheses. -/
def parenthesized : Build NodeId := do
  let opening ← expect .leftParen
  let inner ← expression
  node .parenthesizedExpression #[opening, inner, ← expect .rightParen]

/-- A decimal integer, with or without sign. -/
def signedInteger : Build NodeId := do
  let first ← peek
  if isSign first.kind then
    let number ← tokenAhead 1
    demand (first.span.stop == number.span.start) .number
    requireInteger number
    let sign ← advance
    let number ← advance
    leaf (.named .number) (sign.span.merge number.span)
  else
    requireInteger first
    bump

/-- An integer or a range of integers. -/
def integerCondition : Build NodeId := do
  let first ← signedInteger
  unless ← sees .dotDot do return first
  let dots ← bump
  let last ← signedInteger
  node .matchRange #[first.withField .rangeStart, dots, last.withField .rangeEnd]

/-- Adds a name and the names and points behind it. -/
def pathCondition (children : Array Child) : Build (Array Child) := do
  repeatFrom (children.push ((← bump).withField .condition)) fun children => do
    unless (← sees .dot) && (← kindAhead 1).isIdentifier do return .done children
    let point ← bump
    let name ← bump
    return .more (children ++ #[point.withField .condition, name.withField .condition])

/-- Adds a condition. -/
def condition (children : Array Child) : Build (Array Child) := do
  match ← peekKind with
  | .number _ | .operator .minus | .operator .plus =>
    return children.push ((← integerCondition).withField .condition)
  | .string _ parts => return children.push ((← stringLiteral parts).withField .condition)
  | .identifier _ => pathCondition children
  | kind =>
    match literalKind? kind with
    | some literal => return children.push ((← bumpAs literal).withField .condition)
    | none => unexpected .matchCondition

/-- Conditions with commas between them, behind `children`. -/
def conditions (children : Array Child) : Build (Array Child) := do
  repeatFrom (← condition children) fun children => do
    unless ← sees .comma do return .done children
    return .more (← condition (children.push ((← bump).withField .condition)))

def matchCase : Build NodeId := do
  let children ← conditions #[← bump]
  let colon ← expect .colon
  let consequence ← blockOrExpression
  let stop ← expectOrMissing .semicolon
  node .matchCase (children ++ #[colon.plain, consequence.withField .consequence, stop])

def matchElse : Build NodeId := do
  let word ← bump
  let colon ← expect .colon
  let consequence ← blockOrExpression
  let stop ← expectOrMissing .semicolon
  node .matchElse #[word, colon, consequence.withField .consequence, stop]

def matchExpression : Build NodeId := do
  let word ← bump
  let value ← parenthesized
  let opening ← expect .leftBrace
  let cases ← repeatFrom (#[] : Array Child) fun cases => do
    unless ← seesWord .caseWord do return .done cases
    return .more (cases.push ((← matchCase).withField .body))
  let fallback ← optionally (← seesWord .elseWord) do return #[(← matchElse).withField .body]
  let closing ← expect .rightBrace
  node .matchExpression
    (#[word.plain, value.withField .value, opening.withField .body] ++ cases ++ fallback ++
      #[closing.withField .body])

/-! ### Primary expressions -/

/-- What stands inside the node of a primary expression. -/
def primaryContent : Build NodeId := do
  match ← peekKind with
  | .identifier _ | .number _ => bump
  | .string _ parts => stringLiteral parts
  | .regex pattern flags => regexLiteral pattern flags
  | .keyword .functionWord =>
    if (← kindAhead 1).isPunctuation .leftParen then anonymousFunction else unexpected .value
  | .keyword .matchWord => matchExpression
  | .punctuation .atSign => comptimeIdentifier
  | .punctuation .backtick => templateString
  | .punctuation .leftParen =>
    if ← closesBefore (·.isPunctuation .colon) then arrowFunction else parenthesized
  | .punctuation .leftBracket => arrayLiteral
  | .punctuation .leftBrace => objectLiteral
  | kind =>
    match literalKind? kind with
    | some literal => bumpAs literal
    | none => unexpected .expression

def primary : Build NodeId := do
  node .primaryExpression #[← primaryContent]

/-! ### Calls and members -/

/-- An argument; the elements of a spread one are passed one by one. -/
def argument : Build NodeId := do
  unless ← sees .ellipsis do return ← expression
  let dots ← bump
  node .spreadArgument #[dots, ← expression]

def arguments : Build NodeId := listOf .argumentList .leftParen .rightParen argument

/-- Fails unless the operand is a primary expression. -/
def requirePrimary (operand : NodeId) : Build Unit := do
  if (← kindOf operand) = some .primaryExpression then return
  fail ⟨.memberOfCall, (← peek).span⟩

/-- The mark of a member access, behind the object. -/
def accessMark : Build Child := do
  if ← sees .questionDot then return (← bumpAs .optionalChain).withField .optionalChain else bump

/-- The name behind the mark of a member access. -/
def propertyName : Build NodeId := do
  if ← sees .hash then privateName else expectIdentifier .propertyIdentifier .propertyName

/-- The member of an object that the mark ahead accesses. -/
def member (object : NodeId) : Build NodeId := do
  let mark ← accessMark
  let property ← propertyName
  node .memberExpression #[object.withField .object, mark, property.withField .property]

/-- The call of an operand. -/
def call (operand : NodeId) : Build NodeId := do
  let arguments ← arguments
  node .callExpression #[operand.withField .function, arguments.withField .arguments]

/-- The call of an operand that may be undefined. -/
def optionalCall (operand : NodeId) : Build NodeId := do
  requirePrimary operand
  let chain ← bumpAs .optionalChain
  let arguments ← arguments
  node .callExpression
    #[operand.withField .function, chain.withField .optionalChain, arguments.withField .arguments]

/-- A member access, which is a primary expression again. -/
def access (operand : NodeId) : Build NodeId := do
  requirePrimary operand
  node .primaryExpression #[← member operand]

/-- The operand with one call or member access behind it, if there is one. -/
def extend (operand : NodeId) : Build (Round NodeId) := do
  match ← peekKind with
  | .punctuation .leftParen => return .more (← call operand)
  | .punctuation .questionDot =>
    if (← kindAhead 1).isPunctuation .leftParen then return .more (← optionalCall operand)
    else return .more (← access operand)
  | .punctuation .dot => return .more (← access operand)
  | _ => return .done operand

/-- An operand with everything behind it that is called or accessed. -/
def operand : Build NodeId := do
  repeatFrom (← primary) extend

end ScriptTree.Building
