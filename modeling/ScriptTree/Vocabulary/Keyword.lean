import ScriptTree.Vocabulary.Provenance

/-! Words with a special meaning.

Reserved words are never identifiers. The names of the builtin types are contextual: the lexer
leaves them identifiers and the parser recognises them in type position only, so that
`const string = "s";` stays legal. Lookup is case-sensitive. -/
namespace ScriptTree

/-- A word of the language. -/
inductive Keyword where
  | ifWord
  | elseWord
  | matchWord
  | caseWord
  | returnWord
  | breakWord
  | functionWord
  | constWord
  | letWord
  | enumWord
  | trueWord
  | falseWord
  | undefinedWord
  | typeofWord
  | voidWord
  | instanceofWord
  | inWord
  | booleanWord
  | numberWord
  | stringWord
  | unknownWord
  | neverWord
  | symbolWord
deriving DecidableEq, Repr, Inhabited

namespace Keyword

/-- What a word is for. -/
inductive Category where
  | controlFlow
  | declaration
  | literal
  | operator
  | type
deriving DecidableEq, Repr

/-- Where a word may stand; a hint for tools, the parser decides. -/
inductive Usage where
  | statement
  | expression
  | type
  | operator
deriving DecidableEq, Repr

/-- All words, in the order in which symbols are numbered. -/
def all : List Keyword :=
  [ifWord, elseWord, matchWord, caseWord, returnWord, breakWord, functionWord, constWord, letWord,
    enumWord, trueWord, falseWord, undefinedWord, typeofWord, voidWord, instanceofWord, inWord,
    booleanWord, numberWord, stringWord, unknownWord, neverWord, symbolWord]

def spelling : Keyword → String
  | ifWord => "if"
  | elseWord => "else"
  | matchWord => "match"
  | caseWord => "case"
  | returnWord => "return"
  | breakWord => "break"
  | functionWord => "function"
  | constWord => "const"
  | letWord => "let"
  | enumWord => "enum"
  | trueWord => "true"
  | falseWord => "false"
  | undefinedWord => "undefined"
  | typeofWord => "typeof"
  | voidWord => "void"
  | instanceofWord => "instanceof"
  | inWord => "in"
  | booleanWord => "boolean"
  | numberWord => "number"
  | stringWord => "string"
  | unknownWord => "unknown"
  | neverWord => "never"
  | symbolWord => "symbol"

def category : Keyword → Category
  | ifWord | elseWord | matchWord | caseWord | returnWord | breakWord => .controlFlow
  | functionWord | constWord | letWord | enumWord => .declaration
  | trueWord | falseWord | undefinedWord => .literal
  | typeofWord | voidWord | instanceofWord | inWord => .operator
  | booleanWord | numberWord | stringWord | unknownWord | neverWord | symbolWord => .type

def usage : Keyword → List Usage
  | ifWord | elseWord | matchWord | functionWord => [.statement, .expression]
  | caseWord | returnWord | breakWord | constWord | letWord | enumWord => [.statement]
  | trueWord | falseWord | undefinedWord => [.expression, .type]
  | typeofWord | instanceofWord | inWord => [.operator]
  | voidWord => [.operator, .type]
  | booleanWord | numberWord | stringWord | unknownWord | neverWord | symbolWord => [.type]

/-- Whether the word can never be an identifier. -/
def isReserved (word : Keyword) : Bool := word.category != .type

def origin : Keyword → Origin
  | matchWord => .tsz
  | enumWord | booleanWord | numberWord | stringWord | unknownWord | neverWord | symbolWord =>
    .typeScript
  | _ => .javaScript

/-- The grammar version that introduced the word. -/
def sinceVersion : Keyword → Option String
  | _ => some "0.1.0"

def stability : Keyword → Stability
  | _ => .stable

def examples : Keyword → List Example
  | ifWord =>
    [{ code := "if (ready) \x7b start(); \x7d else \x7b wait(); \x7d"
       note := some "Statement form: branches must be blocks." },
     { code := "const label = if (n === 1) \"one\" else \"many\";"
       note := some "Expression form replaces `cond ? a : b`." }]
  | matchWord =>
    [{ code := "match (code) \x7b case 200..299: \"ok\"; else: \"error\"; \x7d"
       note := some "Ranges are inclusive on both ends." }]
  | _ => []

/-- Whether the word names a primitive type that has no node kind of its own. -/
def isPrimitiveType : Keyword → Bool
  | booleanWord | numberWord | stringWord | voidWord | unknownWord | neverWord | symbolWord => true
  | _ => false

/-- The word with this spelling, reserved or contextual. -/
def find? (spelling : String) : Option Keyword := all.find? fun word => word.spelling == spelling

/-- The reserved word with this spelling: what the lexer makes a keyword. -/
def findReserved? (spelling : String) : Option Keyword :=
  all.find? fun word => word.isReserved && word.spelling == spelling

end Keyword

end ScriptTree
