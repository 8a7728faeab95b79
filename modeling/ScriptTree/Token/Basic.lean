import ScriptTree.Text.Source
import ScriptTree.Vocabulary.Operator
import ScriptTree.Vocabulary.Punctuation

/-! Tokens and comments, placed in the source.

Literal tokens hold spans and not decoded values. Contextual words such as `number` are identifiers
here; the parser promotes them where a type is expected. Comments are no tokens: they are kept apart
and join the tree at the end. -/
namespace ScriptTree

/-- A piece of a quoted string between its quotes. -/
inductive StringPart where
  | fragment (span : Span)
  | escape (span : Span)
deriving DecidableEq, Repr

def StringPart.span : StringPart → Span
  | fragment s => s
  | escape s => s

/-- What a token is, with what the parser needs of its text. -/
inductive TokenKind where
  | keyword (word : Keyword)
  | operator (o : Operator)
  | punctuation (mark : Punctuation)
  | identifier (name : String)
  /-- A number as it is spelled. -/
  | number (text : String)
  /-- A quoted string; the span of its token includes the quotes. -/
  | string (quote : Punctuation) (parts : List StringPart)
  | regex (pattern : Span) (flags : Option Span)
  /-- Text of a template between its marks. -/
  | templateChars
  /-- An escape sequence of a template. -/
  | templateEscape
  | endOfFile
deriving DecidableEq, Repr

namespace TokenKind

def isKeyword (kind : TokenKind) (word : Keyword) : Bool := kind == .keyword word

def isOperator (kind : TokenKind) (o : Operator) : Bool := kind == .operator o

def isPunctuation (kind : TokenKind) (mark : Punctuation) : Bool := kind == .punctuation mark

def isIdentifier : TokenKind → Bool
  | identifier _ => true
  | _ => false

/-- Whether a slash after this token divides; after any other token it opens a regular
expression. -/
def endsOperand : TokenKind → Bool
  | identifier _ | number _ | string .. | regex .. => true
  | keyword .trueWord | keyword .falseWord | keyword .undefinedWord => true
  | punctuation .rightParen | punctuation .rightBracket | punctuation .rightBrace
  | punctuation .backtick => true
  | _ => false

/-- How messages speak of the token. -/
def describe : TokenKind → String
  | keyword word => s!"'{word.spelling}'"
  | operator o => s!"'{o.spelling}'"
  | punctuation mark => s!"'{mark.spelling}'"
  | identifier name => s!"identifier '{name}'"
  | number text => s!"number '{text}'"
  | string .. => "string"
  | regex .. => "regex"
  | templateChars | templateEscape => "template text"
  | endOfFile => "end of file"

end TokenKind

/-- A token and where it stands. -/
structure Token where
  kind : TokenKind
  span : Span
deriving DecidableEq, Repr

inductive CommentKind where
  /-- Two slashes, to the end of the line. -/
  | line
  /-- Between a slash with a star and a star with a slash. -/
  | block
  /-- An opening HTML comment mark anywhere, or a closing one at the start of a line. -/
  | html
deriving DecidableEq, Repr

/-- A comment and where it stands. -/
structure Comment where
  kind : CommentKind
  span : Span
deriving DecidableEq, Repr

end ScriptTree
