import ScriptTree.Diagnostic.Cause
import ScriptTree.Token.Basic
import ScriptTree.Tree.Node

/-! The parts from which all productions are made.

A production reads tokens from the current position on and gives a node, or fails with a problem.
What it has done so far stays done when it fails: the position, the problems reported on the way and
the nodes made are kept for recovery to deal with.

Productions nest only through `descend`, which goes one level deeper and fails once the levels are
used up. Within a level they are plain definitions that do not refer back to each other, so the
depth of any parse is bounded by the number of levels, whatever the source. -/
namespace ScriptTree

/-- What can be parsed one level deeper. -/
inductive Goal where
  | statement
  | ifStatement
  /-- An expression that continues with binary operators of at least this precedence. -/
  | binary (least : Nat)
  | unary
  | type
  | pattern
  | objectPattern
  | arrayPattern
deriving DecidableEq, Repr

namespace Parsing

/-! ### Nodes in the order of making -/

/-- What is kept of a node that was made. Its children are the indices of what was kept of them, and
its field is filled in when a parent takes it up. -/
structure Built where
  symbol : Symbol
  span : Span
  field : Option Field
  missing : Bool
  extra : Bool
  children : List Nat
deriving DecidableEq, Repr

/-- Whether this was kept of a node. -/
def Built.isOf (b : Built) (n : Node) : Bool :=
  b.span == n.span && b.symbol == n.symbol && b.missing == n.missing

/-- The last index below a bound at which something was kept of a node. -/
def lastIndex? (made : Array Built) (n : Node) : (bound : Nat) → Option Nat
  | 0 => none
  | i + 1 => if made[i]?.any (·.isOf n) then some i else lastIndex? made n i

/-- The first index of what was kept below the node at an index: that of its first child, of the first
child of that one, and so on. -/
def firstIndex (made : Array Built) : (steps i : Nat) → Nat
  | 0, i => i
  | steps + 1, i =>
    match made[i]?.bind (·.children.head?) with
    | some child => firstIndex made steps child
    | none => i

/-- The indices of nodes that were made one after the other in front of a bound, each behind everything
below it; and the first index of all that. -/
def indicesBelow (made : Array Built) (bound : Nat) : List Node → Nat × List Nat
  | [] => (bound, [])
  | n :: nodes =>
    let (bound, indices) := indicesBelow made bound nodes
    match lastIndex? made n bound with
    | some i => (firstIndex made i i, i :: indices)
    | none => (bound, indices)

/-- The indices of the nodes that were made last. -/
def indicesOf (made : Array Built) (nodes : List Node) : List Nat :=
  (indicesBelow made made.size nodes).2

/-- Fills in the field of a node that is taken up under a parent. -/
def adopt (made : Array Built) (taken : Nat × Node) : Array Built :=
  made.modify taken.1 fun b => { b with field := taken.2.field }

/-- Keeps a node behind those it is made of. -/
def keep (made : Array Built) (n : Node) : Array Built :=
  let indices := indicesOf made n.children
  ((indices.zip n.children).foldl adopt made).push
    ⟨n.symbol, n.span, none, n.missing, n.extra, indices⟩

/-! ### States -/

/-- How far a parse has come. -/
structure State where
  /-- The index of the next token. -/
  position : Nat := 0
  /-- What was reported, in the order of reporting. -/
  problems : Array Problem := #[]
  /-- The nodes made, oldest first. A statement that fails takes back its own. -/
  made : Array Built := #[]

/-- What a production may use: the tokens, the last of which is the end, and the next level. -/
structure Scope where
  tokens : Array Token
  deeper : Goal → EStateM Problem State Node

/-- The token at an index. Behind the last one there are only more ends. -/
def tokenAt (tokens : Array Token) (i : Nat) : Token := tokens.getD i ⟨.endOfFile, .empty 0⟩

end Parsing

/-- A parsing step. -/
abbrev Parse := ReaderT Parsing.Scope (EStateM Problem Parsing.State)

namespace Parsing

/-- Parses one level deeper. -/
def descend (goal : Goal) : Parse Node := fun scope => scope.deeper goal

def statement : Parse Node := descend .statement

/-- An expression with any binary operators. -/
def expression : Parse Node := descend (.binary 0)

def type : Parse Node := descend .type

/-! ### Looking ahead -/

/-- The token `offset` places ahead. -/
def tokenAhead (offset : Nat) : Parse Token := do
  return tokenAt (← read).tokens ((← get).position + offset)

def peek : Parse Token := tokenAhead 0

def kindAhead (offset : Nat) : Parse TokenKind := do return (← tokenAhead offset).kind

def peekKind : Parse TokenKind := kindAhead 0

def atEnd : Parse Bool := do return (← peekKind) == .endOfFile

def sees (mark : Punctuation) : Parse Bool := do return (← peekKind).isPunctuation mark

def seesOperator (o : Operator) : Parse Bool := do return (← peekKind).isOperator o

def seesWord (word : Keyword) : Parse Bool := do return (← peekKind).isKeyword word

def seesIdentifier : Parse Bool := do return (← peekKind).isIdentifier

/-- The offset behind the last token read. -/
def lastStop : Parse Nat := do
  let tokens := (← read).tokens
  let position := (← get).position
  return if position = 0 then 0 else (tokenAt tokens (position - 1)).span.stop

/-! ### Reading tokens -/

/-- Reads a token; the end is never passed. -/
def advance : Parse Token := do
  let token ← peek
  if token.kind != .endOfFile then modify fun s => { s with position := s.position + 1 }
  return token

/-- The symbol of a token that the grammar gives no other. -/
def symbolOf : TokenKind → Symbol
  | .keyword word => .keyword word
  | .operator o => .operator o
  | .punctuation mark => .punctuation mark
  | .identifier _ => .named .identifier
  | .number _ => .named .number
  | .string .. => .named .string
  | .regex .. => .named .regex
  | .templateChars => .named .stringFragment
  | .templateEscape => .named .escapeSequence
  | .endOfFile => .named .error

/-- The number of nodes made so far. -/
def madeCount : Parse Nat := do return (← get).made.size

/-- Keeps track of a new node. -/
def make (n : Node) : Parse Node := do
  modify fun s => { s with made := keep s.made n }
  return n

def leaf (symbol : Symbol) (span : Span) : Parse Node := make (.leaf symbol span)

def node (kind : NodeKind) (children : Array Node) : Parse Node :=
  make (.ofChildren kind children.toList)

/-- Reads a token as a leaf with this symbol. -/
def bumpSymbol (symbol : Symbol) : Parse Node := do leaf symbol (← advance).span

/-- Reads a token as a leaf of this kind. -/
def bumpAs (kind : NodeKind) : Parse Node := bumpSymbol (.named kind)

/-- Reads a token as a leaf with its own symbol. -/
def bump : Parse Node := do bumpSymbol (symbolOf (← peekKind))

/-! ### Requiring tokens -/

/-- Fails at the next token. -/
def unexpected {α : Type} (what : Expected) : Parse α := do
  let token ← peek
  throw ⟨.expected what token.kind.describe, token.span⟩

/-- Fails at the next token unless a condition holds. -/
def demand (holds : Bool) (what : Expected) : Parse Unit :=
  if holds then pure () else unexpected what

def expect (mark : Punctuation) : Parse Node := do
  if ← sees mark then bump else unexpected (.mark mark)

def expectOperator (o : Operator) : Parse Node := do
  if ← seesOperator o then bump else unexpected (.operator o)

def expectWord (word : Keyword) (what : Expected) : Parse Node := do
  if ← seesWord word then bump else unexpected what

/-- Reads an identifier as a leaf of this kind. -/
def expectIdentifier (kind : NodeKind) (what : Expected) : Parse Node := do
  if ← seesIdentifier then bumpAs kind else unexpected what

/-- Reads a mark, or makes it up behind the last token and reports that. -/
def expectOrMissing (mark : Punctuation) : Parse Node := do
  if ← sees mark then bump
  else
    let offset ← lastStop
    let found := (← peekKind).describe
    modify fun s => { s with problems := s.problems.push ⟨.missingMark mark found, .empty offset⟩ }
    make (.absent (.punctuation mark) offset)

/-! ### Options and repetition -/

/-- A part that is there or not. -/
def optionally (there : Bool) (part : Parse (Array Node)) : Parse (Array Node) :=
  if there then part else pure #[]

/-- The outcome of a round: go on with a value, or stop with it. -/
inductive Round (α : Type) where
  | more (a : α)
  | done (a : α)

/-- Up to `n` rounds. -/
def rounds {α : Type} (round : α → Parse (Round α)) : Nat → α → Parse α
  | 0, a => return a
  | n + 1, a => do
    match ← round a with
    | .more a => rounds round n a
    | .done a => return a

/-- Rounds until one stops. Every other round reads a token, so there are no more than tokens are
left. -/
def repeatFrom {α : Type} (start : α) (round : α → Parse (Round α)) : Parse α := do
  rounds round ((← read).tokens.size - (← get).position + 1) start

/-- Items between two marks, with commas between them. Commas may follow one another, and the last
item may have one behind it. -/
def listOf (kind : NodeKind) (opening closing : Punctuation) (item : Parse Node) : Parse Node := do
  let children ← repeatFrom #[← expect opening] fun children => do
    if ← sees closing then return .done children
    if ← sees .comma then return .more (children.push (← bump))
    let children := children.push (← item)
    if ← sees .comma then return .more (children.push (← bump))
    return .done children
  node kind (children.push (← expect closing))

end Parsing

end ScriptTree
