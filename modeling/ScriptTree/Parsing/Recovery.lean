import ScriptTree.Parsing.Basic

/-! Looking past a bracket, and going on after a statement that does not parse.

Whether a brace opens a block or a pattern, and a parenthesis an arrow function or an expression,
shows behind the bracket that closes it. Brackets are matched by number only, not by shape.

The failed statement takes back its nodes, and its tokens become the leaves of a node that marks the
damage. Parsing resumes behind the next semicolon outside braces, or in front of a closing brace or
of a word that starts a statement. At least one token is skipped, so recovery cannot get stuck. -/
namespace ScriptTree.Parsing

/-! ### Looking past a bracket -/

inductive Bracket where
  | opening
  | closing
deriving DecidableEq, Repr

def bracket? : TokenKind → Option Bracket
  | .punctuation .leftParen | .punctuation .leftBracket | .punctuation .leftBrace
  | .punctuation .dollarBrace => some .opening
  | .punctuation .rightParen | .punctuation .rightBracket | .punctuation .rightBrace =>
    some .closing
  | _ => none

/-- The index of the bracket that closes the outermost of `depth` open ones, from index `i` on. -/
def closingIndex? (tokens : Array Token) (i depth : Nat) : Option Nat :=
  if h : i < tokens.size then
    match bracket? tokens[i].kind with
    | some .opening => closingIndex? tokens (i + 1) (depth + 1)
    | some .closing =>
      match depth with
      | 0 => none
      | 1 => some i
      | depth + 1 => closingIndex? tokens (i + 1) depth
    | none => if tokens[i].kind = .endOfFile then none else closingIndex? tokens (i + 1) depth
  else none
termination_by tokens.size - i

/-- The index of the bracket that closes the one at `i`. -/
def matchingClose? (tokens : Array Token) (i : Nat) : Option Nat := closingIndex? tokens i 0

/-- Whether the next token is a bracket behind whose closing one a token with property `p`
follows. -/
def closesBefore (p : TokenKind → Bool) : Parse Bool := do
  let tokens := (← read).tokens
  match matchingClose? tokens (← get).position with
  | some i => return p (tokenAt tokens (i + 1)).kind
  | none => return false

/-! ### Where to resume -/

/-- The brackets that are open in the skipped tokens. A closing bracket without an opening one is
not counted. -/
structure Depth where
  /-- Braces only. -/
  braces : Nat := 0
  /-- Brackets of all shapes, braces too. -/
  brackets : Nat := 0
deriving DecidableEq, Repr

/-- Whether a token is a brace, and which. -/
def brace? : TokenKind → Option Bracket
  | .punctuation .leftBrace | .punctuation .dollarBrace => some .opening
  | .punctuation .rightBrace => some .closing
  | _ => none

def stepDepth (n : Nat) : Option Bracket → Nat
  | some .opening => n + 1
  | some .closing => n - 1
  | none => n

def Depth.after (d : Depth) (kind : TokenKind) : Depth :=
  ⟨stepDepth d.braces (brace? kind), stepDepth d.brackets (bracket? kind)⟩

/-- Whether a statement starts here. Words that also start expressions count only outside
brackets. -/
def startsStatement (brackets : Nat) : TokenKind → Bool
  | .keyword .letWord | .keyword .constWord | .keyword .returnWord | .keyword .breakWord
  | .keyword .enumWord => true
  | .keyword .functionWord | .keyword .ifWord | .keyword .matchWord => brackets == 0
  | _ => false

/-- Whether to resume in front of a token. -/
def resumesBefore (d : Depth) (kind : TokenKind) : Bool :=
  startsStatement d.brackets kind || (d.braces == 0 && kind.isPunctuation .rightBrace)

/-- Whether to resume behind a token. -/
def resumesAfter (d : Depth) (kind : TokenKind) : Bool :=
  d.braces == 0 && kind.isPunctuation .semicolon

/-- The index at which parsing resumes after a statement that starts at `start`, with tokens skipped
up to `i`. -/
def resumeFrom (tokens : Array Token) (start i : Nat) (d : Depth) : Nat :=
  if h : i < tokens.size then
    let kind := tokens[i].kind
    if kind = .endOfFile || (i != start && resumesBefore d kind) then i
    else if resumesAfter d kind then i + 1
    else resumeFrom tokens start (i + 1) (d.after kind)
  else i
termination_by tokens.size - i

/-- The brackets open in the tokens from `start` up to `stop`. -/
def depthBetween (tokens : Array Token) (start stop : Nat) : Depth :=
  (tokens.extract start stop).foldl (fun d token => d.after token.kind) {}

/-! ### Statements that may fail -/

/-- The damage over the tokens from `start` up to `stop`; none if there are none. -/
def errorNode? (start stop : Nat) : Parse (Option Node) := do
  if stop ≤ start then return none
  let skipped := ((← read).tokens.extract start stop).toList
  let leaves ← skipped.mapM fun token => leaf (symbolOf token.kind) token.span
  return some (← node .error leaves.toArray)

/-- Reports the problem of a statement that started at `start`, when `mark` nodes had been made, and
skips it. -/
def recover (start mark : Nat) (problem : Problem) : Parse (Option Node) := do
  let tokens := (← read).tokens
  let failed := (← get).position
  let stop := resumeFrom tokens start failed (depthBetween tokens start failed)
  modify fun s =>
    { position := stop, problems := s.problems.push problem, made := s.made.shrink mark }
  errorNode? start stop

/-- A statement, or the damage in its place. -/
def statementOrError : Parse (Option Node) := do
  let start := (← get).position
  let mark ← madeCount
  tryCatch (some <$> statement) (recover start mark)

/-- Statements up to the end, or up to a closing brace if they stand in a block. -/
def statements (inBlock : Bool) (children : Array Node) : Parse (Array Node) :=
  repeatFrom children fun children => do
    if ← atEnd then return .done children
    if inBlock && (← sees .rightBrace) then return .done children
    match ← statementOrError with
    | some n => return .more (children.push n)
    | none => return .more children

/-- Statements in braces. -/
def block : Parse Node := do
  let children ← statements true #[← expect .leftBrace]
  node .blockStatement (children.push (← expectOrMissing .rightBrace))

end ScriptTree.Parsing
