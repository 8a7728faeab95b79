import ScriptTree.Grammar.NodeKind
import ScriptTree.Vocabulary.Operator
import ScriptTree.Vocabulary.Punctuation

/-! Grammar symbols and their numbers.

A symbol is a node kind or a token without a name of its own. Symbols are numbered without gaps: the
kinds first, then keywords, operators and punctuation, each group in its own order. -/
namespace ScriptTree

/-- What a node of a tree is. -/
inductive Symbol where
  | named (kind : NodeKind)
  | keyword (word : Keyword)
  | operator (o : Operator)
  | punctuation (mark : Punctuation)
deriving DecidableEq, Repr, Inhabited

namespace Symbol

/-- All symbols in the order of their numbers. -/
def all : List Symbol :=
  NodeKind.all.map .named ++ Keyword.all.map .keyword ++ Operator.all.map .operator ++
    Punctuation.all.map .punctuation

/-- The number of kinds, and so the number of the first keyword. -/
def kindCount : Nat := NodeKind.all.length

def keywordCount : Nat := Keyword.all.length

def operatorCount : Nat := Operator.all.length

def punctuationCount : Nat := Punctuation.all.length

/-- The number of the symbol, its position in `all`. -/
def id : Symbol → Nat
  | named kind => kind.index
  | keyword word => kindCount + word.ctorIdx
  | operator o => kindCount + keywordCount + o.ctorIdx
  | punctuation mark => kindCount + keywordCount + operatorCount + mark.ctorIdx

def ofId? (id : Nat) : Option Symbol := all[id]?

def name : Symbol → String
  | named kind => kind.name
  | keyword word => word.spelling
  | operator o => o.spelling
  | punctuation mark => mark.spelling

def isNamed : Symbol → Bool
  | named _ => true
  | _ => false

def kind? : Symbol → Option NodeKind
  | named kind => some kind
  | _ => none

/-- Whether nodes with the symbol occur in trees. -/
def isVisible : Symbol → Bool
  | named kind => kind.isVisible
  | _ => true

end Symbol

/-- The symbol under which an operator stands in a tree: a word operator is a keyword there. -/
def Operator.symbol (o : Operator) : Symbol :=
  match if o.isWord then Keyword.find? o.spelling else none with
  | some word => .keyword word
  | none => .operator o

end ScriptTree
