import ScriptTree.Token.Literal

/-! From source text to tokens.

The lexer reads one lexeme after another and lays them end to end. What the next lexeme is depends
on the characters ahead and on a small context: the stack of open templates and substitutions,
whether only blanks and comments have been read on this line, and whether the last token ends an
operand, after which a slash divides.

Templates nest through substitutions. A backtick opens template text, a dollar sign and brace in it
open a substitution, and the brace that closes the substitution leads back to the text; braces
inside a substitution are counted. -/
namespace ScriptTree

/-- What the lexer is inside of. -/
inductive Mode where
  | template
  /-- A substitution with this many open braces of its own. -/
  | substitution (depth : Nat)
deriving DecidableEq, Repr

/-- What the lexer knows about the text behind it. -/
structure Context where
  /-- Open templates and substitutions, innermost first. -/
  modes : List Mode := []
  /-- Only blanks and comments since the last line terminator. -/
  lineStart : Bool := true
  /-- The last token ends an operand. -/
  operandEnd : Bool := false
deriving DecidableEq, Repr

namespace Lexeme

/-! ### Code -/

def isIdentifierStart (c : Char) : Bool := c.isAlpha || c == '_'

def isIdentifierPart (c : Char) : Bool := c.isAlphanum || c == '_' || c == '$'

/-- The word at the head of a text: a keyword if it is reserved. -/
def ofWord (cs : List Char) : Lexeme :=
  let name := cs.takeWhile isIdentifierPart
  match Keyword.findReserved? (String.ofList name) with
  | some word => .keyword word
  | none => .identifier name

/-- The operator at the head of a text that starts with a sign: the first of the longer ones that goes
on as the text `cs` behind the sign does, or the sign itself. -/
def ofSign (sign : Operator) (longer : List (String × Operator)) (cs : List Char) : Lexeme :=
  match longer.find? fun (rest, _) => rest.toList.isPrefixOf cs with
  | some (_, o) => .operator o
  | none => .operator sign

/-- The lexeme behind an equals sign. -/
def ofEquals (cs : List Char) : Lexeme :=
  if "==".toList.isPrefixOf cs then .operator .strictEqual
  else match cs with
    | '=' :: _ => .loose "==" .strictEqual
    | '>' :: _ => .punctuation .fatArrow
    | _ => .operator .assign

/-- The lexeme behind an exclamation mark. -/
def ofExclamation (cs : List Char) : Lexeme :=
  if "==".toList.isPrefixOf cs then .operator .strictUnequal
  else match cs with
    | '=' :: _ => .loose "!=" .strictUnequal
    | _ => .operator .logicalNot

/-- The lexeme behind a question mark. It stays alone before a point that opens a number. -/
def ofQuestion (cs : List Char) : Lexeme :=
  if "?=".toList.isPrefixOf cs then .operator .coalesceAssign
  else match cs with
    | '?' :: _ => .operator .coalesce
    | '.' :: rest => .punctuation (if rest.head?.any Char.isDigit then .question else .questionDot)
    | _ => .punctuation .question

/-- The lexeme behind a point that opens no number. -/
def ofPoint : List Char → Lexeme
  | '.' :: '.' :: _ => .punctuation .ellipsis
  | '.' :: _ => .punctuation .dotDot
  | _ => .punctuation .dot

/-- What is written with symbols at the head of a text, by its first character. -/
def ofSymbol? : List Char → Option Lexeme
  | [] => none
  | c :: cs =>
    match c with
    | '/' => some (ofSign .divide [("=", .divideAssign)] cs)
    | '<' => some (ofSign .less [("<=", .shiftLeftAssign), ("<", .shiftLeft), ("=", .lessEqual)] cs)
    | '-' => some (ofSign .minus [("-", .decrement), ("=", .minusAssign)] cs)
    | '+' => some (ofSign .plus [("+", .increment), ("=", .plusAssign)] cs)
    | '*' => some (ofSign .times [("*=", .powerAssign), ("*", .power), ("=", .timesAssign)] cs)
    | '%' => some (ofSign .remainder [("=", .remainderAssign)] cs)
    | '^' => some (ofSign .bitXor [("=", .bitXorAssign)] cs)
    | '~' => some (.operator .bitNot)
    | '&' =>
      some (ofSign .bitAnd [("&=", .logicalAndAssign), ("&", .logicalAnd), ("=", .bitAndAssign)] cs)
    | '|' =>
      some (ofSign .bitOr [("|=", .logicalOrAssign), ("|", .logicalOr), ("=", .bitOrAssign)] cs)
    | '>' =>
      some (ofSign .greater [(">>=", .shiftRightUnsignedAssign), (">>", .shiftRightUnsigned),
        (">=", .shiftRightAssign), (">", .shiftRight), ("=", .greaterEqual)] cs)
    | '=' => some (ofEquals cs)
    | '!' => some (ofExclamation cs)
    | '?' => some (ofQuestion cs)
    | '.' => some (ofPoint cs)
    | ',' => some (.punctuation .comma)
    | ';' => some (.punctuation .semicolon)
    | ':' => some (.punctuation .colon)
    | '#' => some (.punctuation .hash)
    | '@' => some (.punctuation .atSign)
    | '(' => some (.punctuation .leftParen)
    | ')' => some (.punctuation .rightParen)
    | '[' => some (.punctuation .leftBracket)
    | ']' => some (.punctuation .rightBracket)
    | '\x7b' => some (.punctuation .leftBrace)
    | '\x7d' => some (.punctuation .rightBrace)
    | '\x60' => some (.punctuation .backtick)
    | _ => none

/-- A comment that runs to the end of the line. -/
def ofLineComment (kind : CommentKind) (cs : List Char) : Lexeme :=
  .comment kind (cs.takeWhile (!isLineTerminator ·)) true

/-- The text of a block comment up to its end, and whether it is closed. -/
def blockBody : List Char → List Char → List Char × Bool
  | [], taken => (taken.reverse, false)
  | '*' :: '/' :: _, taken => (('/' :: '*' :: taken).reverse, true)
  | c :: cs, taken => blockBody cs (c :: taken)

/-- The block comment whose opening mark stands in front of `cs`. -/
def ofBlockComment (cs : List Char) : Lexeme :=
  let (body, closed) := blockBody cs []
  .comment .block ('/' :: '*' :: body) closed

/-- The lexeme at the head of code that starts with a slash. -/
def ofSlash (operandEnd : Bool) (cs : List Char) : Lexeme :=
  match cs with
  | '/' :: _ => ofLineComment .line ('/' :: cs)
  | '*' :: rest => ofBlockComment rest
  | _ => if operandEnd then (ofSymbol? ('/' :: cs)).getD (.operator .divide) else ofRegex cs

/-- The lexeme at the head of code `c :: cs`. -/
def ofCode (ctx : Context) (c : Char) (cs : List Char) : Lexeme :=
  if isBlank c then .blank c
  else if c = '/' then ofSlash ctx.operandEnd cs
  else if "<!--".toList.isPrefixOf (c :: cs) ||
      (ctx.lineStart && "-->".toList.isPrefixOf (c :: cs)) then
    ofLineComment .html (c :: cs)
  else if c.isDigit || (c = '.' && cs.head?.any Char.isDigit) then ofNumber (c :: cs)
  else if isIdentifierStart c then ofWord (c :: cs)
  else match quote? c with
    | some mark => ofString mark c cs
    | none => (ofSymbol? (c :: cs)).getD (.unexpected c)

/-- The lexeme at the head of the text `c :: cs`. -/
def first (ctx : Context) (c : Char) (cs : List Char) : Lexeme :=
  match ctx.modes with
  | .template :: _ => ofTemplate c cs
  | _ => ofCode ctx c cs

end Lexeme

namespace Context

/-- The open templates and substitutions after a lexeme. -/
def modesAfter : List Mode → Lexeme → List Mode
  | .template :: modes, .punctuation .backtick => modes
  | modes, .punctuation .backtick => .template :: modes
  | modes, .punctuation .dollarBrace => .substitution 0 :: modes
  | .substitution depth :: modes, .punctuation .leftBrace => .substitution (depth + 1) :: modes
  | .substitution 0 :: modes, .punctuation .rightBrace => modes
  | .substitution (depth + 1) :: modes, .punctuation .rightBrace => .substitution depth :: modes
  | modes, _ => modes

/-- Whether a line is still at its start after a lexeme. -/
def lineStartAfter (lineStart : Bool) : Lexeme → Bool
  | .blank c => lineStart || isLineTerminator c
  | .comment _ text _ => lineStart || text.any isLineTerminator
  | .unexpected _ => lineStart
  | _ => false

/-- The context behind a lexeme. -/
def after (ctx : Context) (l : Lexeme) : Context :=
  { modes := modesAfter ctx.modes l
    lineStart := lineStartAfter ctx.lineStart l
    operandEnd := l.endsOperand?.getD ctx.operandEnd }

end Context

/-- The lexemes of a text, after those in `taken`, and the context at its end. -/
def lexemesFrom (ctx : Context) (cs : List Char) (taken : Array Lexeme) : Array Lexeme × Context :=
  match cs with
  | [] => (taken, ctx)
  | c :: rest =>
    let l := Lexeme.first ctx c rest
    lexemesFrom (ctx.after l) (rest.drop (l.text.length - 1)) (taken.push l)
termination_by cs.length
decreasing_by simp only [List.length_drop, List.length_cons]; omega

/-! ### Placing lexemes -/

/-- What the lexer makes of a source: tokens, comments, and the problems in the order in which they
were met. -/
structure Lexed where
  tokens : Array Token := #[]
  comments : Array Comment := #[]
  problems : Array Problem := #[]
deriving DecidableEq, Repr

namespace Lexed

/-- Adds a lexeme that starts at `start`. -/
def add (out : Lexed) (start : Nat) (l : Lexeme) : Lexed :=
  { tokens := out.tokens ++ (l.token? start).toList
    comments := out.comments ++ (l.comment? start).toList
    problems := out.problems ++ l.problems start }

/-- Adds lexemes end to end from `start` on; also gives the offset behind the last. -/
def place (out : Lexed) (start : Nat) : List Lexeme → Lexed × Nat
  | [] => (out, start)
  | l :: ls => place (out.add start l) (start + l.size) ls

/-- Ends the tokens, and reports a template that is still open. -/
def finish (out : Lexed) (ctx : Context) (stop : Nat) : Lexed :=
  { out with
    tokens := out.tokens.push ⟨.endOfFile, .empty stop⟩
    problems :=
      if ctx.modes.contains .template then out.problems.push ⟨.unterminatedTemplate, .empty stop⟩
      else out.problems }

end Lexed

/-- The tokens of a text, recovering from malformed ones. The last token, and only the last, is the
end. -/
def lexChars (cs : List Char) : Lexed :=
  let (lexemes, ctx) := lexemesFrom {} cs #[]
  let (out, stop) := Lexed.place {} 0 lexemes.toList
  out.finish ctx stop

def lex (source : String) : Lexed := lexChars source.toList

/-- The tokens of a source without lexical problems; otherwise the problems, in the order in which
they were met. -/
def lexStrict (source : String) : Except (Array Problem) (Array Token) :=
  let out := lex source
  if out.problems.isEmpty then .ok out.tokens else .error out.problems

end ScriptTree
