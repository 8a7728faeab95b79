import ScriptTree.Vocabulary.Provenance

/-! Marks that are no operators: separators, access marks, delimiters and a few structural marks of
the language's own, `..` for ranges and `@` for names known at compile time. -/
namespace ScriptTree

/-- A punctuation mark. -/
inductive Punctuation where
  | comma
  | semicolon
  | colon
  | dot
  | questionDot
  | question
  | fatArrow
  | ellipsis
  | dotDot
  | hash
  | atSign
  | leftParen
  | rightParen
  | leftBracket
  | rightBracket
  | leftBrace
  | rightBrace
  | backtick
  | dollarBrace
  | doubleQuote
  | singleQuote
deriving DecidableEq, Repr, Inhabited

namespace Punctuation

/-- What a mark is for. -/
inductive Category where
  /-- Brackets, braces, quotes and template delimiters. -/
  | delimiter
  /-- Between the items of a list, or at the end of a statement. -/
  | separator
  /-- Between an object and its property. -/
  | access
  /-- Anything else. -/
  | marker
deriving DecidableEq, Repr

/-- All marks, in the order in which symbols are numbered. -/
def all : List Punctuation :=
  [comma, semicolon, colon, dot, questionDot, question, fatArrow, ellipsis, dotDot, hash, atSign,
    leftParen, rightParen, leftBracket, rightBracket, leftBrace, rightBrace, backtick, dollarBrace,
    doubleQuote, singleQuote]

def spelling : Punctuation → String
  | comma => ","
  | semicolon => ";"
  | colon => ":"
  | dot => "."
  | questionDot => "?."
  | question => "?"
  | fatArrow => "=>"
  | ellipsis => "..."
  | dotDot => ".."
  | hash => "#"
  | atSign => "@"
  | leftParen => "("
  | rightParen => ")"
  | leftBracket => "["
  | rightBracket => "]"
  | leftBrace => "\x7b"
  | rightBrace => "\x7d"
  | backtick => "\x60"
  | dollarBrace => "$\x7b"
  | doubleQuote => "\x22"
  | singleQuote => "\x27"

def category : Punctuation → Category
  | comma | semicolon | colon => .separator
  | dot | questionDot => .access
  | question | fatArrow | ellipsis | dotDot | hash | atSign => .marker
  | _ => .delimiter

def origin : Punctuation → Origin
  | question => .typeScript
  | dotDot | atSign => .tsz
  | _ => .javaScript

def stability : Punctuation → Stability
  | _ => .stable

/-- The mark with this spelling. -/
def find? (spelling : String) : Option Punctuation :=
  all.find? fun mark => mark.spelling == spelling

end Punctuation

end ScriptTree
