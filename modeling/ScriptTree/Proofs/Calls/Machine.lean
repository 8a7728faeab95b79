import ScriptTree.Parsing.Program

/-! The productions as functions that call each other.

A production of the parser is a definition of its own, and what it calls is part of it. Here it is a
`Routine`, and calling one takes room on a stack: a `Step` may run `lookups` and other parts that call
nothing back, call another routine, or call one with the depth counter raised by one and set back
afterwards (`nested`). Without room a call overflows. -/
namespace ScriptTree.Calls

open Parsing

/-- The functions that call each other, each with its arguments and what it gives. -/
inductive Routine : Type → Type
  -- types
  | typeAscription : Routine Node
  | tupleType : Routine Node
  | typeAtom : Routine Node
  | postfixType : Routine Node
  | firstOperand : Routine Node
  | unionType : Routine Node
  -- literals
  | templateSubstitution : Routine Node
  | templateString : Routine Node
  | arrayLiteral : Routine Node
  | objectMember (children : Array Node) : Routine (Array Node)
  | objectLiteral : Routine Node
  -- statements that may fail
  | statementOrError : Routine (Option Node)
  | statements (inBlock : Bool) (children : Array Node) : Routine (Array Node)
  | block : Routine Node
  -- functions
  | parameter : Routine Node
  | parameters : Routine Node
  | returnType : Routine Node
  | blockOrExpression : Routine Node
  | functionDeclaration : Routine Node
  | anonymousFunction : Routine Node
  | arrowFunction : Routine Node
  -- match expressions
  | parenthesized : Routine Node
  | matchCase : Routine Node
  | matchElse : Routine Node
  | matchExpression : Routine Node
  -- operands
  | primaryContent : Routine Node
  | primary : Routine Node
  | argument : Routine Node
  | arguments : Routine Node
  | call (operand : Node) : Routine Node
  | optionalCall (operand : Node) : Routine Node
  | extend (operand : Node) : Routine (Round Node)
  | operand : Routine Node
  -- assignments and patterns
  | assignmentRest (target : Node) : Routine Node
  | augmentedRest (target : Node) : Routine Node
  | assignmentOr (operand : Node) : Routine Node
  | target : Routine Node
  | restPattern : Routine Node
  | patternContent : Routine Node
  | pattern : Routine Node
  | patternWithDefault : Routine Node
  | pairRest (key : Node) : Routine Node
  | objectPatternMember : Routine Node
  | objectPattern : Routine Node
  | arrayPattern : Routine Node
  | destructuringPattern : Routine Node
  | destructuringAssignment : Routine Node
  -- operators
  | unaryOperation : Routine Node
  | privateMembership : Routine Node
  | ifTernary : Routine Node
  | unary : Routine Node
  | operateOn (least : Nat) (left : Node) : Routine (Round Node)
  | binary (least : Nat) : Routine Node
  -- statements
  | initializer : Routine (Array Node)
  | variableDeclaration : Routine Node
  | alternative : Routine Node
  | elseBranch : Routine (Array Node)
  | ifStatement : Routine Node
  | returnStatement : Routine Node
  | expressionStatement : Routine Node
  | anyStatement : Routine Node

/-- The function for a goal. -/
def Routine.ofGoal : Goal → Routine Node
  | .statement => .anyStatement
  | .ifStatement => .ifStatement
  | .binary least => .binary least
  | .unary => .unary
  | .type => .unionType
  | .pattern => .pattern
  | .objectPattern => .objectPattern
  | .arrayPattern => .arrayPattern

/-! ### Calls -/

/-- How a call ends: the state behind it and the depth counter, unless the stack overflows. -/
inductive Outcome (α : Type) where
  | ok (a : α) (s : State) (depth : Nat)
  | error (problem : Problem) (s : State) (depth : Nat)
  | overflow

/-- What a function may use: the tokens, the limit and the stack that is left for what it calls. -/
structure Frame where
  tokens : Array Token
  maxDepth : Nat
  call : {α : Type} → Routine α → Nat → State → Outcome α

/-- A part of a function, from a depth and a state on. -/
def Step (α : Type) : Type 1 := Frame → Nat → State → Outcome α

namespace Step
variable {α β : Type}

instance : Monad Step where
  pure a := fun _ depth s => .ok a s depth
  bind m f := fun frame depth s =>
    match m frame depth s with
    | .ok a s depth => f a frame depth s
    | .error e s depth => .error e s depth
    | .overflow => .overflow

/-- The outcome of a part that calls no routine. -/
def lift (m : Parse α) : Step α := fun frame depth s =>
  match m ⟨frame.tokens, fun _ s => .error ⟨.tooDeep 0, .empty 0⟩ s⟩ s with
  | .ok a s => .ok a s depth
  | .error e s => .error e s depth

instance : MonadLift Parse Step := ⟨lift⟩

/-- Calls a function. -/
def call (r : Routine α) : Step α := fun frame depth s => frame.call r depth s

/-- Calls the function for a goal one level deeper, and fails once the limit is reached. -/
def nested (goal : Goal) : Step Node := fun frame depth s =>
  if frame.maxDepth ≤ depth then
    .error ⟨.tooDeep frame.maxDepth, (tokenAt frame.tokens s.position).span⟩ s depth
  else
    match frame.call (.ofGoal goal) (depth + 1) s with
    | .ok n s depth => .ok n s (depth - 1)
    | .error e s depth => .error e s (depth - 1)
    | .overflow => .overflow

def statement : Step Node := nested .statement

def expression : Step Node := nested (.binary 0)

def type : Step Node := nested .type

/-- A part and what is done if it fails. -/
def recovering (m : Step α) (handle : Problem → Step α) : Step α := fun frame depth s =>
  match m frame depth s with
  | .error e s depth => handle e frame depth s
  | outcome => outcome

/-! ### Options and repetition -/

def optionally (there : Bool) (part : Step (Array Node)) : Step (Array Node) :=
  if there then part else pure #[]

def rounds (round : α → Step (Round α)) : Nat → α → Step α
  | 0, a => return a
  | n + 1, a => do
    match ← round a with
    | .more a => rounds round n a
    | .done a => return a

def repeatFrom (start : α) (round : α → Step (Round α)) : Step α := fun frame depth s =>
  rounds round (frame.tokens.size - s.position + 1) start frame depth s

def listOf (kind : NodeKind) (opening closing : Punctuation) (item : Step Node) : Step Node := do
  let children ← repeatFrom #[← expect opening] fun children => do
    if ← sees closing then return .done children
    if ← sees .comma then return .more (children.push (← bump))
    let children := children.push (← item)
    if ← sees .comma then return .more (children.push (← bump))
    return .done children
  node kind (children.push (← expect closing))

end Step

end ScriptTree.Calls
