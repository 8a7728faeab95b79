import ScriptTree.Grammar.Field
import ScriptTree.Grammar.Symbol

/-! The language handle: what a tool can ask about the grammar without a tree.

Symbol and field numbers beyond the last one are answered with nothing, never refused. -/
namespace ScriptTree

/-- A grammar as tools hold it. -/
structure Language where
  name : String
  /-- The version of the tree format that the grammar produces. -/
  formatVersion : Nat
deriving DecidableEq, Repr

namespace Language

/-- The tree format of this library. -/
def currentFormat : Nat := 14

/-- The oldest tree format that a parser accepts. -/
def oldestFormat : Nat := 13

/-- The grammar of this library. -/
def tsz : Language := ⟨"tsz", currentFormat⟩

def grammarVersion : String := "0.1.0"

/-- Whether a parser accepts the grammar. -/
def isCompatible (language : Language) : Bool :=
  oldestFormat ≤ language.formatVersion && language.formatVersion ≤ currentFormat

/-- Why a grammar was refused. -/
structure VersionMismatch where
  version : Nat
  oldest : Nat
  newest : Nat
deriving DecidableEq, Repr

def VersionMismatch.message (m : VersionMismatch) : String :=
  s!"Incompatible language version {m.version}. Expected minimum {m.oldest}, maximum {m.newest}"

def symbolCount : Nat := Symbol.all.length

def fieldCount : Nat := Field.all.length

/-- The number of a symbol by name. Where a keyword and a word operator share a spelling the keyword
is found, which is what trees hold. -/
def idForName? (name : String) (named : Bool) : Option Nat :=
  Symbol.all.findIdx? fun s => s.isNamed == named && s.name == name

def nameForId? (id : Nat) : Option String := (Symbol.ofId? id).map Symbol.name

def isNamed (id : Nat) : Bool := (Symbol.ofId? id).any Symbol.isNamed

def isVisible (id : Nat) : Bool := (Symbol.ofId? id).any Symbol.isVisible

/-- The node kind with this number, if it is the number of one. -/
def kindForId? (id : Nat) : Option NodeKind := (Symbol.ofId? id).bind Symbol.kind?

def isSupertype (id : Nat) : Bool := (kindForId? id).any NodeKind.isSupertype

/-- The numbers of all supertypes. -/
def supertypes : List Nat := (NodeKind.all.filter NodeKind.isSupertype).map NodeKind.index

/-- The numbers of the kinds that a supertype groups; none for any other symbol. -/
def subtypes (id : Nat) : List Nat :=
  match kindForId? id with
  | some kind => kind.subtypes.map NodeKind.index
  | none => []

end Language

end ScriptTree
