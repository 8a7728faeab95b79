import ScriptTree.Parsing.Operation

/-! Statements and declarations.

Of all expressions only calls and assignments stand as statements. An assignment has its semicolon
already. -/
namespace ScriptTree.Parsing

/-! ### Declarations -/

/-- The value of a declaration with the sign in front. -/
def initializer : Parse (Array Node) := do
  let sign ← bump
  let value ← expression
  return #[sign, value.withField .value]

/-- A constant or variable, which may have a type and a value. -/
def variableDeclaration : Parse Node := do
  let kind ← bumpAs (if ← seesWord .constWord then .constMark else .letMark)
  let name ← expectIdentifier .identifier .variableName
  let type ← optionally (← sees .colon) do return #[← typeAscription]
  let value ← optionally (← seesOperator .assign) initializer
  let stop ← expectOrMissing .semicolon
  node .variableDeclaration
    (#[kind.withField .kind, name.withField .declaredName] ++ type ++ value ++ #[stop])

def enumMember : Parse Node := expectIdentifier .identifier .enumMember

/-- One or more names in braces. -/
def enumDeclaration : Parse Node := do
  let word ← bump
  let name ← expectIdentifier .identifier .enumName
  let opening ← expect .leftBrace
  let children ← repeatFrom #[word, name, opening, ← enumMember] fun children => do
    unless ← sees .comma do return .done children
    let children := children.push (← bump)
    if ← sees .rightBrace then return .done children
    return .more (children.push (← enumMember))
  node .enumDeclaration (children.push (← expect .rightBrace))

/-! ### Statements -/

/-- What follows the word `else`. -/
def alternative : Parse Node := do
  if ← seesWord .ifWord then descend .ifStatement else block

/-- The word `else` and what follows it. -/
def elseBranch : Parse (Array Node) := do
  let word ← bump
  let alternative ← alternative
  return #[word, alternative.withField .alternative]

def ifStatement : Parse Node := do
  let word ← bump
  let condition ← parenthesized
  let consequence ← block
  let rest ← optionally (← seesWord .elseWord) elseBranch
  node .ifStatement
    (#[word, condition.withField .condition, consequence.withField .consequence] ++ rest)

def returnStatement : Parse Node := do
  let word ← bump
  let value ← expression
  node .returnStatement #[word, value, ← expectOrMissing .semicolon]

def breakStatement : Parse Node := do
  let word ← bump
  node .breakStatement #[word, ← expectOrMissing .semicolon]

/-- A call or an assignment. -/
def expressionStatement : Parse Node := do
  let start := (← peek).span
  let value ← expression
  match value.kind? with
  | some .assignmentExpression => return value
  | some .callExpression => node .callStatement #[value, ← expectOrMissing .semicolon]
  | _ => throw ⟨.notAStatement, start.merge value.span⟩

/-- Whether the bracket ahead opens a pattern that is assigned to. -/
def opensAssignment : Parse Bool := closesBefore (·.isOperator .assign)

/-- The statement one level deeper. -/
def anyStatement : Parse Node := do
  match ← peekKind with
  | .keyword .functionWord =>
    if (← kindAhead 1).isIdentifier then functionDeclaration else expressionStatement
  | .keyword .constWord | .keyword .letWord => variableDeclaration
  | .keyword .matchWord => matchExpression
  | .keyword .enumWord => enumDeclaration
  | .keyword .ifWord => ifStatement
  | .keyword .returnWord => returnStatement
  | .keyword .breakWord => breakStatement
  | .punctuation .leftBrace => if ← opensAssignment then destructuringAssignment else block
  | .punctuation .leftBracket =>
    if ← opensAssignment then destructuringAssignment else expressionStatement
  | _ => expressionStatement

end ScriptTree.Parsing
