import ScriptTree.Parsing.Basic

/-! Literals and names with a mark in front.

A string or regular expression is one token and becomes a node whose leaves tile that token; if it
was not closed, the closing mark is a missing leaf. -/
namespace ScriptTree.Parsing

/-! ### Strings and regular expressions -/

/-- The leaf of a closing mark one byte wide, missing if the token was not closed. -/
def closingLeaf (symbol : Symbol) (closed : Bool) (offset : Nat) : Parse Node :=
  if closed then leaf symbol ⟨offset, offset + 1⟩ else make (.absent symbol offset)

def partLeaf : StringPart → Parse Node
  | .fragment span => leaf (.named .stringFragment) span
  | .escape span => leaf (.named .escapeSequence) span

/-- The offset behind the last part of a string that starts at `start`. -/
def contentStop (start : Nat) (parts : List StringPart) : Nat :=
  (parts.getLast?.map fun part => part.span.stop).getD (start + 1)

/-- A string token with these parts. -/
def stringLiteral (quote : Punctuation) (parts : List StringPart) : Parse Node := do
  let span := (← advance).span
  let stop := contentStop span.start parts
  let opening ← leaf (.punctuation quote) ⟨span.start, span.start + 1⟩
  let content ← parts.mapM partLeaf
  let closing ← closingLeaf (.punctuation quote) (stop < span.stop) stop
  node .string (#[opening] ++ content.toArray ++ #[closing])

/-- A regular expression token with this pattern and these flags. -/
def regexLiteral (pattern : Span) (flags : Option Span) : Parse Node := do
  let span := (← advance).span
  let opening ← leaf (.operator .divide) ⟨span.start, span.start + 1⟩
  let patternLeaf ← leaf (.named .regexPattern) pattern
  let closing ← closingLeaf (.operator .divide) (pattern.stop < span.stop) pattern.stop
  let children := #[opening, patternLeaf.withField .pattern, closing]
  match flags with
  | some flags => node .regex (children.push ((← leaf (.named .regexFlags) flags).withField .flags))
  | none => node .regex children

/-! ### Templates -/

/-- An expression inside a template. -/
def templateSubstitution : Parse Node := do
  let opening ← bump
  let value ← expression
  node .templateSubstitution #[opening, value, ← expect .rightBrace]

def templateString : Parse Node := do
  let children ← repeatFrom #[← bump] fun children => do
    match ← peekKind with
    | .templateChars | .templateEscape => return .more (children.push (← bump))
    | .punctuation .dollarBrace => return .more (children.push (← templateSubstitution))
    | _ => return .done children
  node .templateString (children.push (← expect .backtick))

/-! ### Arrays and objects -/

/-- One or more expressions in brackets. -/
def arrayLiteral : Parse Node := do
  let opening ← bump
  let children ← repeatFrom #[opening, ← expression] fun children => do
    unless ← sees .comma do return .done children
    let children := children.push (← bump)
    return .more (children.push (← expression))
  node .arrayLiteral (children.push (← expect .rightBracket))

/-- Adds a member of an object: a key with its value, or a name that is both. -/
def objectMember (children : Array Node) : Parse (Array Node) := do
  demand (← seesIdentifier) .propertyName
  if (← kindAhead 1).isPunctuation .colon then
    let key ← bumpAs .identifier
    let colon ← bump
    let value ← expression
    return children ++ #[key.withField .key, colon, value.withField .value]
  else return children.push ((← bumpAs .shorthandPropertyIdentifier).withField .member)

/-- One or more members in braces. -/
def objectLiteral : Parse Node := do
  let children ← repeatFrom #[← bump] fun children => do
    let children ← objectMember children
    unless ← sees .comma do return .done children
    let children := children.push (← bump)
    return if ← sees .rightBrace then .done children else .more children
  node .objectLiteral (children.push (← expect .rightBrace))

/-! ### Names -/

/-- A name known at compile time. -/
def comptimeIdentifier : Parse Node := do
  let mark ← bump
  node .comptimeIdentifier #[mark, ← expectIdentifier .identifier (.identifierAfter .atSign)]

/-- A private name. -/
def privateName : Parse Node := do
  let mark ← expect .hash
  node .privatePropertyIdentifier #[mark, ← expectIdentifier .identifier (.identifierAfter .hash)]

end ScriptTree.Parsing
