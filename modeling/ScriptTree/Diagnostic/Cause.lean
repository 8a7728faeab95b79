import ScriptTree.Diagnostic.Basic
import ScriptTree.Vocabulary.Operator
import ScriptTree.Vocabulary.Punctuation

/-! Why the lexer or the parser reports a problem.

A `Problem` is a cause at a span. The cause alone decides kind, message, notes and hints, so the
wording of every report stands in this file, and a statement about problems can speak of causes. -/
namespace ScriptTree

/-- What the parser was looking for when it met another token. -/
inductive Expected where
  | mark (mark : Punctuation)
  | operator (o : Operator)
  | word (word : Keyword)
  /-- The word that must follow a private name in an expression. -/
  | inAfterPrivateName
  | variableName
  | functionName
  | enumName
  | enumMember
  | parameterName
  | propertyName
  /-- The identifier right after a mark that introduces names. -/
  | identifierAfter (mark : Punctuation)
  | type
  /-- The annotation that every parameter needs. -/
  | parameterType
  /-- The annotation that every function needs. -/
  | returnType
  | expression
  /-- An expression, where a named function stands. -/
  | value
  | propertyPattern
  | matchCondition
  | number
deriving DecidableEq, Repr

namespace Expected

def wording : Expected → String
  | mark m => s!"'{m.spelling}'"
  | operator o => s!"'{o.spelling}'"
  | word w => s!"'{w.spelling}'"
  | inAfterPrivateName => "'in' after a private name"
  | variableName => "variable name"
  | functionName => "function name"
  | enumName => "enum name"
  | enumMember => "enum member"
  | parameterName => "parameter name"
  | propertyName => "property name"
  | identifierAfter m => s!"identifier after '{m.spelling}'"
  | type => "type"
  | parameterType | returnType => s!"'{Punctuation.colon.spelling}'"
  | expression | value => "expression"
  | propertyPattern => "property pattern"
  | matchCondition => "match condition"
  | number => "number"

def hints : Expected → List String
  | parameterType => ["every parameter needs a type annotation"]
  | returnType => ["functions must declare a return type"]
  | value => ["named functions are declarations and cannot be used as values"]
  | _ => []

end Expected

/-- Why a problem is reported. What was found instead of something expected is kept as its
description. -/
inductive Cause where
  | unexpectedCharacter (c : Char)
  /-- A loose spelling of a strict operator. -/
  | looseEquality (spelling : String) (strict : Operator)
  | unterminatedString
  | unterminatedRegex
  | unterminatedComment
  | unterminatedTemplate
  | invalidEscape
  /-- A radix mark without a digit behind it. -/
  | missingDigits (radix : Nat)
  | expected (what : Expected) (found : String)
  /-- An expression that cannot stand alone. -/
  | notAStatement
  | updateExpression
  | invalidTarget
  | memberOfCall
  | notAnInteger
  /-- A mark was made up. -/
  | missingMark (mark : Punctuation) (found : String)
  | tooDeep (maxDepth : Nat)
  | tooLong (length limit : Nat)
deriving DecidableEq, Repr

namespace Cause

def kind : Cause → Diagnostic.Kind
  | unexpectedCharacter _ | looseEquality .. | unterminatedString | unterminatedRegex
  | unterminatedComment | unterminatedTemplate | invalidEscape | missingDigits _ => .lexical
  | expected .. | notAStatement | updateExpression | invalidTarget | memberOfCall | notAnInteger =>
    .grammar
  | missingMark .. => .missing
  | tooDeep _ | tooLong .. => .limit

def message : Cause → String
  | unexpectedCharacter c => s!"Unexpected character '{c}'"
  | looseEquality spelling strict => s!"'{spelling}' is not supported, use '{strict.spelling}'"
  | unterminatedString => "Unterminated string literal"
  | unterminatedRegex => "Unterminated regular expression"
  | unterminatedComment => "Unterminated block comment"
  | unterminatedTemplate => "Unterminated template literal"
  | invalidEscape => "Invalid escape sequence"
  | missingDigits radix => s!"Expected base-{radix} digits after prefix"
  | expected what found => s!"Expected {what.wording}, found {found}"
  | notAStatement => "Expected a statement"
  | updateExpression => "Update expressions are not supported"
  | invalidTarget => "Invalid assignment target"
  | memberOfCall => "Cannot access a member of a call result directly"
  | notAnInteger => "Expected integer"
  | missingMark m _ => s!"Expected '{m.spelling}'"
  | tooDeep maxDepth => s!"Nesting too deep (maximum depth is {maxDepth})"
  | tooLong length limit => s!"Source is {length} bytes; the limit is {limit} bytes"

def notes : Cause → List String
  | invalidTarget => ["only identifiers and member expressions can be assigned to"]
  | notAnInteger => ["match conditions only accept decimal integers"]
  | missingMark _ found => [s!"found {found}"]
  | _ => []

def hints : Cause → List String
  | looseEquality spelling strict =>
    [s!"tsz only has strict equality; replace '{spelling}' with '{strict.spelling}'"]
  | expected what _ => what.hints
  | notAStatement => ["only calls, assignments, and declarations can stand alone as statements"]
  | updateExpression => ["use '+= 1' or '-= 1' instead"]
  | memberOfCall => ["wrap the call in parentheses: (f()).x"]
  | _ => []

end Cause

/-- A cause and where it was found. -/
structure Problem where
  cause : Cause
  span : Span
deriving DecidableEq, Repr

/-- The report that readers get. -/
def Problem.diagnostic (p : Problem) : Diagnostic :=
  { kind := p.cause.kind, message := p.cause.message, span := p.span, notes := p.cause.notes,
    hints := p.cause.hints }

end ScriptTree
