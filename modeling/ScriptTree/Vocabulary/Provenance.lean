/-! Where the words and marks of the language come from, and how settled they are.

The language borrows most of its surface from JavaScript and TypeScript and adds a few constructs of
its own. Every entry of the vocabulary says which of the three it is, so that tools can explain
differences. -/
namespace ScriptTree

/-- The language that a piece of vocabulary comes from. -/
inductive Origin where
  | javaScript
  | typeScript
  | tsz
deriving DecidableEq, Repr

/-- The name shown to readers. -/
def Origin.label : Origin → String
  | .javaScript => "JavaScript"
  | .typeScript => "TypeScript"
  | .tsz => "tsz"

/-- Where a piece of vocabulary stands in its life. -/
inductive Stability where
  | stable
  | draft
  | deprecated
deriving DecidableEq, Repr

/-- A snippet for documentation. -/
structure Example where
  code : String
  note : Option String := none
deriving DecidableEq, Repr

end ScriptTree
