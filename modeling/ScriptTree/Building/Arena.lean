import ScriptTree.Parsing.Recovery

/-! Nodes in an arena, and the parts from which all productions over it are made.

Nodes are kept in one array, in the order in which they are made, and a production gives the place of
its node there. A parent lists the places of its children and fills in their fields. Nothing refers to
what is made later, so a statement that fails takes back its nodes by cutting the array off.

What is looked up at a place is a fault if the place is not there, as is cutting the source inside a
character. Faults are no problems of the source: recovery lets them pass. Looking ahead and reading
tokens does not depend on what nodes are and is the same as for productions that give nodes. -/
namespace ScriptTree

/-- The place of a node in the arena. -/
structure NodeId where
  index : Nat
deriving DecidableEq, Repr

/-- A node that a parent takes up, with the field that it fills there. -/
structure Child where
  id : NodeId
  field : Option Field
deriving DecidableEq, Repr

/-- A child that fills no field. -/
def NodeId.plain (id : NodeId) : Child := ⟨id, none⟩

instance : Coe NodeId Child := ⟨NodeId.plain⟩

/-- A child in the role of a field. -/
def NodeId.withField (id : NodeId) (field : Field) : Child := ⟨id, some field⟩

namespace Building

open Parsing

/-! ### Steps -/

/-- Why a step does not give a value. -/
inductive Fault where
  /-- The tokens do not fit. -/
  | problem (problem : Problem)
  /-- A place of the arena or an offset of the source that is not there. -/
  | outOfRange

/-- What a production may use: the source, its tokens, and the next level. -/
structure Scope where
  source : String
  tokens : Array Token
  deeper : Goal → EStateM Fault State NodeId

end Building

/-- A parsing step over the arena. -/
abbrev Build := ReaderT Building.Scope (EStateM Building.Fault Parsing.State)

namespace Building

open Parsing

/-- A step that does not go deeper, as one over the arena. -/
def lift {α : Type} (m : Parse α) : Build α := fun scope s =>
  match m ⟨scope.tokens, fun _ s => .error ⟨.tooDeep 0, .empty 0⟩ s⟩ s with
  | .ok a s => .ok a s
  | .error problem s => .error (.problem problem) s

instance : MonadLift Parse Build := ⟨lift⟩

def fail {α : Type} (problem : Problem) : Build α := throw (.problem problem)

/-- What was found, if it is there. -/
def found {α : Type} : Option α → Build α
  | some a => pure a
  | none => throw .outOfRange

def descend (goal : Goal) : Build NodeId := fun scope => scope.deeper goal

def statement : Build NodeId := descend .statement

def expression : Build NodeId := descend (.binary 0)

def type : Build NodeId := descend .type

/-! ### Places -/

/-- What is kept at a place. -/
def entry (id : NodeId) : Build Built := do found (← get).made[id.index]?

def kindOf (id : NodeId) : Build (Option NodeKind) := do return (← entry id).symbol.kind?

def spanOf (id : NodeId) : Build Span := do return (← entry id).span

def childrenOf (id : NodeId) : Build (List NodeId) := do return (← entry id).children.map NodeId.mk

/-- Keeps a node behind all others. -/
def push (b : Built) : Build NodeId :=
  modifyGet fun s => (⟨s.made.size⟩, { s with made := s.made.push b })

def leaf (symbol : Symbol) (span : Span) : Build NodeId := push ⟨symbol, span, none, false, false, []⟩

/-- A leaf that stands for an absent token. -/
def absent (symbol : Symbol) (offset : Nat) : Build NodeId :=
  push ⟨symbol, .empty offset, none, true, false, []⟩

/-- A leaf that may stand between any two tokens. -/
def extra (symbol : Symbol) (span : Span) : Build NodeId := push ⟨symbol, span, none, false, true, []⟩

/-- Fills in the field of a child. -/
def takeUp (child : Child) : Build Unit := do
  unless child.id.index < (← get).made.size do throw .outOfRange
  modify fun s =>
    { s with made := s.made.modify child.id.index fun b => { b with field := child.field } }

/-- A node with these children, whatever they cover. -/
def nodeWithSpan (kind : NodeKind) (span : Span) (children : Array Child) : Build NodeId := do
  children.toList.forM takeUp
  push ⟨.named kind, span, none, false, false, children.toList.map (·.id.index)⟩

/-- The span that just covers the given ones; zero-width at the start of the text if there are none. -/
def cover : List Span → Span
  | [] => .empty 0
  | span :: spans => spans.foldl Span.merge span

/-- A node that reaches from its first child to its last. -/
def node (kind : NodeKind) (children : Array Child) : Build NodeId := do
  let spans ← children.toList.mapM fun child => spanOf child.id
  nodeWithSpan kind (cover spans) children

/-! ### Reading tokens -/

/-- Reads a token as a leaf with this symbol. -/
def bumpSymbol (symbol : Symbol) : Build NodeId := do leaf symbol (← advance).span

/-- Reads a token as a leaf of this kind. -/
def bumpAs (kind : NodeKind) : Build NodeId := bumpSymbol (.named kind)

/-- Reads a token as a leaf with its own symbol. -/
def bump : Build NodeId := do bumpSymbol (symbolOf (← peekKind))

/-- Fails at the next token. -/
def unexpected {α : Type} (what : Expected) : Build α := do
  let token ← peek
  fail ⟨.expected what token.kind.describe, token.span⟩

def expect (mark : Punctuation) : Build NodeId := do
  if ← sees mark then bump else unexpected (.mark mark)

def expectOperator (o : Operator) : Build NodeId := do
  if ← seesOperator o then bump else unexpected (.operator o)

def expectWord (word : Keyword) (what : Expected) : Build NodeId := do
  if ← seesWord word then bump else unexpected what

/-- Reads an identifier as a leaf of this kind. -/
def expectIdentifier (kind : NodeKind) (what : Expected) : Build NodeId := do
  if ← seesIdentifier then bumpAs kind else unexpected what

/-- Reads a mark, or makes it up behind the last token and reports that. -/
def expectOrMissing (mark : Punctuation) : Build NodeId := do
  if ← sees mark then bump
  else
    let offset ← lastStop
    let found := (← peekKind).describe
    modify fun s => { s with problems := s.problems.push ⟨.missingMark mark found, .empty offset⟩ }
    absent (.punctuation mark) offset

/-! ### Options and repetition -/

/-- A part that is there or not. -/
def optionally (there : Bool) (part : Build (Array Child)) : Build (Array Child) :=
  if there then part else pure #[]

/-- Up to `n` rounds. -/
def rounds {α : Type} (round : α → Build (Round α)) : Nat → α → Build α
  | 0, a => return a
  | n + 1, a => do
    match ← round a with
    | .more a => rounds round n a
    | .done a => return a

/-- Rounds until one stops. Every other round reads a token, so there are no more than tokens are
left. -/
def repeatFrom {α : Type} (start : α) (round : α → Build (Round α)) : Build α := do
  rounds round ((← read).tokens.size - (← get).position + 1) start

/-- Items between two marks, with commas between them. Commas may follow one another, and the last
item may have one behind it. -/
def listOf (kind : NodeKind) (opening closing : Punctuation) (item : Build NodeId) : Build NodeId := do
  let children ← repeatFrom #[(← expect opening).plain] fun children => do
    if ← sees closing then return .done children
    if ← sees .comma then return .more (children.push (← bump))
    let children := children.push (← item)
    if ← sees .comma then return .more (children.push (← bump))
    return .done children
  node kind (children.push (← expect closing))

/-! ### Statements that may fail -/

/-- A token that was skipped. -/
def skippedLeaf (token : Token) : Build Child := leaf (symbolOf token.kind) token.span

/-- The damage over the tokens from `start` up to `stop`; none if there are none. -/
def errorNode? (start stop : Nat) : Build (Option NodeId) := do
  if stop ≤ start then return none
  let leaves ← ((← read).tokens.extract start stop).toList.mapM skippedLeaf
  return some (← node .error leaves.toArray)

/-- Reports the problem of a statement that started at `start`, when `mark` nodes had been made, and
skips it. -/
def recover (start mark : Nat) (problem : Problem) : Build (Option NodeId) := do
  let tokens := (← read).tokens
  let failed := (← get).position
  let stop := resumeFrom tokens start failed (depthBetween tokens start failed)
  modify fun s =>
    { position := stop, problems := s.problems.push problem, made := s.made.shrink mark }
  errorNode? start stop

/-- A statement, or the damage in its place. -/
def statementOrError : Build (Option NodeId) := do
  let start := (← get).position
  let mark ← madeCount
  tryCatch (some <$> statement) fun
    | .problem problem => recover start mark problem
    | .outOfRange => throw .outOfRange

/-- Statements up to the end, or up to a closing brace if they stand in a block. -/
def statements (inBlock : Bool) (children : Array Child) : Build (Array Child) :=
  repeatFrom children fun children => do
    if ← atEnd then return .done children
    if inBlock && (← sees .rightBrace) then return .done children
    match ← statementOrError with
    | some n => return .more (children.push n)
    | none => return .more children

/-- Statements in braces. -/
def block : Build NodeId := do
  let children ← statements true #[(← expect .leftBrace).plain]
  node .blockStatement (children.push (← expectOrMissing .rightBrace))

end Building

end ScriptTree
