import ScriptTree.Parsing.Callable
import ScriptTree.Parsing.Literal

/-! Match expressions.

A case lists conditions: integers and ranges of them, strings, literal words and dotted names.
Integers are decimal and may have a sign that touches them; sign and number become one leaf. -/
namespace ScriptTree.Parsing

/-- An expression in parentheses. -/
def parenthesized : Parse Node := do
  let opening ← expect .leftParen
  let inner ← expression
  node .parenthesizedExpression #[opening, inner, ← expect .rightParen]

/-! ### Conditions -/

def isSign (kind : TokenKind) : Bool := kind.isOperator .minus || kind.isOperator .plus

/-- Fails unless the token is a decimal integer. -/
def requireInteger (token : Token) : Parse Unit :=
  match token.kind with
  | .number text => if text.all Char.isDigit then pure () else throw ⟨.notAnInteger, token.span⟩
  | _ => unexpected .number

/-- A decimal integer, with or without sign. -/
def signedInteger : Parse Node := do
  let first ← peek
  if isSign first.kind then
    let number ← tokenAhead 1
    demand (first.span.stop == number.span.start) .number
    requireInteger number
    let sign ← advance
    let number ← advance
    leaf (.named .number) (sign.span.merge number.span)
  else
    requireInteger first
    bump

/-- An integer or a range of integers. -/
def integerCondition : Parse Node := do
  let first ← signedInteger
  unless ← sees .dotDot do return first
  let dots ← bump
  let last ← signedInteger
  node .matchRange #[first.withField .rangeStart, dots, last.withField .rangeEnd]

/-- Adds a name and the names and points behind it. -/
def pathCondition (children : Array Node) : Parse (Array Node) := do
  repeatFrom (children.push ((← bump).withField .condition)) fun children => do
    unless (← sees .dot) && (← kindAhead 1).isIdentifier do return .done children
    let point ← bump
    let name ← bump
    return .more (children ++ #[point.withField .condition, name.withField .condition])

/-- Adds a condition. -/
def condition (children : Array Node) : Parse (Array Node) := do
  match ← peekKind with
  | .number _ | .operator .minus | .operator .plus =>
    return children.push ((← integerCondition).withField .condition)
  | .string quote parts => return children.push ((← stringLiteral quote parts).withField .condition)
  | .identifier _ => pathCondition children
  | kind =>
    match literalKind? kind with
    | some literal => return children.push ((← bumpAs literal).withField .condition)
    | none => unexpected .matchCondition

/-- Conditions with commas between them, behind `children`. -/
def conditions (children : Array Node) : Parse (Array Node) := do
  repeatFrom (← condition children) fun children => do
    unless ← sees .comma do return .done children
    return .more (← condition (children.push ((← bump).withField .condition)))

/-! ### Cases -/

def matchCase : Parse Node := do
  let children ← conditions #[← bump]
  let colon ← expect .colon
  let consequence ← blockOrExpression
  let stop ← expectOrMissing .semicolon
  node .matchCase (children ++ #[colon, consequence.withField .consequence, stop])

def matchElse : Parse Node := do
  let word ← bump
  let colon ← expect .colon
  let consequence ← blockOrExpression
  let stop ← expectOrMissing .semicolon
  node .matchElse #[word, colon, consequence.withField .consequence, stop]

def matchExpression : Parse Node := do
  let word ← bump
  let value ← parenthesized
  let opening ← expect .leftBrace
  let cases ← repeatFrom #[] fun cases => do
    unless ← seesWord .caseWord do return .done cases
    return .more (cases.push ((← matchCase).withField .body))
  let fallback ← optionally (← seesWord .elseWord) do return #[(← matchElse).withField .body]
  let closing ← expect .rightBrace
  node .matchExpression
    (#[word, value.withField .value, opening.withField .body] ++ cases ++ fallback ++
      #[closing.withField .body])

end ScriptTree.Parsing
