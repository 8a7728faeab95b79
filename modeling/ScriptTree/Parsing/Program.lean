import ScriptTree.Building.Finish
import ScriptTree.Grammar.Language
import ScriptTree.Token.Lexer
import ScriptTree.Tree.Comments

/-! From source text to tree.

Parsing never fails: what does not fit becomes damage in the tree, and every problem is reported
with it, in the order of the source. The nodes are made in an arena and numbered from there. Productions
that give the nodes themselves do the same, and what they give is easier to talk about. -/
namespace ScriptTree

/-- Limits for a parse. -/
structure ParseOptions where
  /-- How deep statements, expressions, types and patterns may nest. -/
  maxDepth : Nat := 256
  /-- The number of bytes beyond which a source is refused. -/
  maxLength : Option Nat := none
deriving DecidableEq, Repr

namespace Parsing

/-! ### Levels -/

/-- The production for a goal. -/
def production : Goal → Parse Node
  | .statement => anyStatement
  | .ifStatement => ifStatement
  | .binary least => binary least
  | .unary => unary
  | .type => unionType
  | .pattern => pattern
  | .objectPattern => objectPattern
  | .arrayPattern => arrayPattern

/-- Parses a goal with `levels` of at most `maxDepth` levels left. -/
def level (tokens : Array Token) (maxDepth levels : Nat) (goal : Goal) :
    EStateM Problem State Node :=
  match levels with
  | 0 => fun s => .error ⟨.tooDeep maxDepth, (tokenAt tokens s.position).span⟩ s
  | levels + 1 => production goal ⟨tokens, level tokens maxDepth levels⟩

/-! ### Programs -/

/-- The statements of a token list that ends with its end, and what was reported on the way. -/
def program (tokens : Array Token) (maxDepth : Nat) : EStateM Problem State (Array Node) :=
  statements false #[] ⟨tokens, level tokens maxDepth maxDepth⟩

/-- The statements, and the state behind them. Only statements fail, and every failed one is
recovered from. -/
def runProgram (tokens : Array Token) (maxDepth : Nat) : Array Node × State :=
  match (program tokens maxDepth).run {} with
  | .ok nodes s => (nodes, s)
  | .error _ s => (#[], s)

def commentNode (c : Comment) : Node :=
  match c.kind with
  | .line | .block => .comment .comment c.span
  | .html => .comment .htmlComment c.span

/-- The root of a source of the given length; it reaches over the whole source, blanks at the ends
too. -/
def rootNode (length : Nat) (children : List Node) : Node :=
  ⟨.named .program, ⟨0, length⟩, none, false, false, children⟩

/-- Problems by where they start; those that start together stay in order. -/
def sorted (problems : List Problem) : List Problem :=
  problems.mergeSort fun p q => p.span.start ≤ q.span.start

/-- The arena of a source that the lexer has read; nothing if something is looked up on the way that is
not there. -/
def ofLexed? (source : String) (lexed : Lexed) (maxDepth : Nat) : Option Building.Arena :=
  Building.run? ⟨source, lexed.tokens, Building.level source lexed.tokens maxDepth maxDepth⟩
    (Building.program lexed.comments) fun problems => sorted (lexed.problems ++ problems).toList

/-- The arena of a source that is too long: a root and the report. -/
def refused? (source : String) (limit : Nat) : Option Building.Arena :=
  Building.run? ⟨source, #[], fun _ s => .error .outOfRange s⟩
    (do return (← Building.root #[], []))
    fun _ => [⟨.tooLong source.utf8ByteSize limit, .empty 0⟩]

/-- The arena of a source, if everything is there that is looked up on the way. -/
def arena? (source : String) (options : ParseOptions) : Option Building.Arena :=
  match options.maxLength.filter (· < source.utf8ByteSize) with
  | some limit => refused? source limit
  | none => ofLexed? source (lex source) options.maxDepth

/-- The tree of an arena, or one without nodes if there is none. -/
def treeOf (source : String) (arena : Option Building.Arena) : Tree :=
  (arena.bind fun a => a.tree? source).getD ⟨source, #[], [], .ofString source⟩

/-- The tree of a source that the lexer has read. -/
def ofLexed (source : String) (lexed : Lexed) (maxDepth : Nat) : Tree :=
  treeOf source (ofLexed? source lexed maxDepth)

end Parsing

/-- The tree of a source. -/
def parse (source : String) (options : ParseOptions := {}) : Tree :=
  Parsing.treeOf source (Parsing.arena? source options)

/-- The tree of a source without problems, or the problems. -/
def parseStrict (source : String) : Except (List Problem) Tree :=
  let tree := parse source
  if tree.problems.isEmpty then .ok tree else .error tree.problems

/-! ### Parsers -/

/-- A parser that is set up step by step. Without a language it parses nothing. -/
structure Parser where
  language : Option Language := none
  options : ParseOptions := {}

namespace Parser

/-- The parser with a language, if its trees can be read. -/
def withLanguage (p : Parser) (language : Language) : Except Language.VersionMismatch Parser :=
  if language.isCompatible then .ok { p with language := some language }
  else .error ⟨language.formatVersion, Language.oldestFormat, Language.currentFormat⟩

def withOptions (p : Parser) (options : ParseOptions) : Parser := { p with options }

def parse? (p : Parser) (source : String) : Option Tree :=
  p.language.map fun _ => parse source p.options

end Parser

end ScriptTree
