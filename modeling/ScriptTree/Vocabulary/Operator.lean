import ScriptTree.Vocabulary.Keyword

/-! Operators and how tightly they bind.

Binary operators have the precedences 1 to 13, a higher one binding tighter; unary operators bind
tighter than all of them and assignments have precedence 0. Equality is strict only: the two loose
spellings are no operators, each is reported and read as the strict operator that replaces it. -/
namespace ScriptTree

/-- How a chain of operators of one precedence groups. -/
inductive Associativity where
  | left
  | right
deriving DecidableEq, Repr

/-- Where an operator stands relative to its operands. -/
inductive Fixity where
  /-- Between two operands only. -/
  | binary
  /-- In front of one operand only. -/
  | unary
  /-- Either, depending on the position. -/
  | binaryOrUnary
  /-- Plain and compound assignment. -/
  | assignment
  /-- Increment and decrement. -/
  | update
deriving DecidableEq, Repr

/-- An operator, written with symbols or as a word. -/
inductive Operator where
  | power
  | times
  | divide
  | remainder
  | plus
  | minus
  | shiftLeft
  | shiftRight
  | shiftRightUnsigned
  | less
  | lessEqual
  | greater
  | greaterEqual
  | instanceOf
  | membership
  | strictEqual
  | strictUnequal
  | bitAnd
  | bitXor
  | bitOr
  | logicalAnd
  | logicalOr
  | coalesce
  | logicalNot
  | bitNot
  | typeOf
  | voidOf
  | assign
  | plusAssign
  | minusAssign
  | timesAssign
  | divideAssign
  | remainderAssign
  | bitXorAssign
  | bitAndAssign
  | bitOrAssign
  | shiftRightAssign
  | shiftRightUnsignedAssign
  | shiftLeftAssign
  | powerAssign
  | logicalAndAssign
  | logicalOrAssign
  | coalesceAssign
  | increment
  | decrement
deriving DecidableEq, Repr, Inhabited

namespace Operator

/-- All operators, in the order in which symbols are numbered. -/
def all : List Operator :=
  [power, times, divide, remainder, plus, minus, shiftLeft, shiftRight, shiftRightUnsigned, less,
    lessEqual, greater, greaterEqual, instanceOf, membership, strictEqual, strictUnequal, bitAnd,
    bitXor, bitOr, logicalAnd, logicalOr, coalesce, logicalNot, bitNot, typeOf, voidOf, assign,
    plusAssign, minusAssign, timesAssign, divideAssign, remainderAssign, bitXorAssign, bitAndAssign,
    bitOrAssign, shiftRightAssign, shiftRightUnsignedAssign, shiftLeftAssign, powerAssign,
    logicalAndAssign, logicalOrAssign, coalesceAssign, increment, decrement]

def spelling : Operator → String
  | power => "**"
  | times => "*"
  | divide => "/"
  | remainder => "%"
  | plus => "+"
  | minus => "-"
  | shiftLeft => "<<"
  | shiftRight => ">>"
  | shiftRightUnsigned => ">>>"
  | less => "<"
  | lessEqual => "<="
  | greater => ">"
  | greaterEqual => ">="
  | instanceOf => "instanceof"
  | membership => "in"
  | strictEqual => "==="
  | strictUnequal => "!=="
  | bitAnd => "&"
  | bitXor => "^"
  | bitOr => "|"
  | logicalAnd => "&&"
  | logicalOr => "||"
  | coalesce => "??"
  | logicalNot => "!"
  | bitNot => "~"
  | typeOf => "typeof"
  | voidOf => "void"
  | assign => "="
  | plusAssign => "+="
  | minusAssign => "-="
  | timesAssign => "*="
  | divideAssign => "/="
  | remainderAssign => "%="
  | bitXorAssign => "^="
  | bitAndAssign => "&="
  | bitOrAssign => "|="
  | shiftRightAssign => ">>="
  | shiftRightUnsignedAssign => ">>>="
  | shiftLeftAssign => "<<="
  | powerAssign => "**="
  | logicalAndAssign => "&&="
  | logicalOrAssign => "||="
  | coalesceAssign => "??="
  | increment => "++"
  | decrement => "--"

/-- The precedence of operators in front of their operand, above every binary one. -/
def unaryPrecedence : Nat := 14

def precedence : Operator → Nat
  | power => 13
  | times | divide | remainder => 12
  | plus | minus => 11
  | shiftLeft | shiftRight | shiftRightUnsigned => 10
  | less | lessEqual | greater | greaterEqual | instanceOf | membership => 8
  | strictEqual | strictUnequal => 7
  | bitAnd => 6
  | bitXor => 5
  | bitOr => 4
  | logicalAnd => 3
  | logicalOr => 2
  | coalesce => 1
  | logicalNot | bitNot | typeOf | voidOf | increment | decrement => unaryPrecedence
  | _ => 0

def fixity : Operator → Fixity
  | plus | minus => .binaryOrUnary
  | power | times | divide | remainder | shiftLeft | shiftRight | shiftRightUnsigned | less
  | lessEqual | greater | greaterEqual | instanceOf | membership | strictEqual | strictUnequal
  | bitAnd | bitXor | bitOr | logicalAnd | logicalOr | coalesce => .binary
  | logicalNot | bitNot | typeOf | voidOf => .unary
  | increment | decrement => .update
  | _ => .assignment

/-- Power, the symbolic unary operators and the assignments group from the right. -/
def associativity (o : Operator) : Associativity :=
  match o with
  | power | logicalNot | bitNot => .right
  | _ => if o.fixity = .assignment then .right else .left

/-- Whether the operator is written as a word, which the lexer makes a keyword. -/
def isWord : Operator → Bool
  | instanceOf | membership | typeOf | voidOf => true
  | _ => false

def origin : Operator → Origin
  | _ => .javaScript

def stability : Operator → Stability
  | _ => .stable

def examples : Operator → List Example
  | _ => []

/-- The operator with this spelling. -/
def find? (spelling : String) : Option Operator := all.find? fun o => o.spelling == spelling

/-- Precedence and grouping, for an operator that can stand between two operands. -/
def binding? (o : Operator) : Option (Nat × Associativity) :=
  match o.fixity with
  | .binary | .binaryOrUnary => some (o.precedence, o.associativity)
  | _ => none

/-- Whether the operator can stand between two operands. -/
def isBinary (o : Operator) : Bool := o.binding?.isSome

/-- Whether the operator can stand in front of one operand. -/
def isUnary (o : Operator) : Bool := o.fixity == .unary || o.fixity == .binaryOrUnary

def isAssignment (o : Operator) : Bool := o.fixity == .assignment

/-- Whether the operator assigns the result of an operation. -/
def isAugmentedAssignment (o : Operator) : Bool := o.isAssignment && o != assign

/-- The rejected loose spellings, each with the strict operator that replaces it. -/
def looseSpellings : List (String × Operator) := [("==", strictEqual), ("!=", strictUnequal)]

/-- The strict operator that replaces a loose spelling. -/
def strictReplacement? (spelling : String) : Option Operator := looseSpellings.lookup spelling

end Operator

end ScriptTree
