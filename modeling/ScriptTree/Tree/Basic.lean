import ScriptTree.Diagnostic.Cause
import ScriptTree.Text.LineIndex
import ScriptTree.Text.Source
import ScriptTree.Tree.Node

/-! Syntax trees: numbered nodes with links.

A tree holds its source, the problems found in it, and its nodes in preorder, so that the number of
a node is its position and everything below a node follows it without a gap. An entry keeps the node
itself and what can only be seen from outside or from everything below: the parent, the numbers of
the children, how many nodes the subtree has and whether one of them is damaged. -/
namespace ScriptTree

/-- A node in its tree. -/
structure Entry where
  node : Node
  /-- The number of the parent; the root has none. -/
  parent : Option Nat
  /-- The numbers of the children. -/
  children : Array Nat
  /-- The number of nodes in the subtree. -/
  count : Nat
  /-- The subtree holds damage. -/
  hasError : Bool
deriving Inhabited

namespace Entry

/-- A node that has just been numbered, before its children are. -/
def ofNode (parent : Option Nat) (n : Node) : Entry := ⟨n, parent, #[], 1, n.isDamaged⟩

/-- The entry with one more child. -/
def link (child : Nat) (e : Entry) : Entry := { e with children := e.children.push child }

/-- The entry after a child has reported its subtree. -/
def absorb (child : Entry) (e : Entry) : Entry :=
  { e with count := e.count + child.count, hasError := e.hasError || child.hasError }

/-! ### Numbering -/

/-- Changes the entry of a parent, if there is one. -/
def atParent (entries : Array Entry) (parent : Option Nat) (f : Entry → Entry) : Array Entry :=
  match parent with
  | some i => entries.modify i f
  | none => entries

/-- Numbers the pending nodes, each with the number of its parent, and everything below them in
preorder. -/
def number (entries : Array Entry) (pending : List (Option Nat × Node)) : Array Entry :=
  match pending with
  | [] => entries
  | (parent, n) :: rest =>
    let id := entries.size
    let linked := atParent (entries.push (ofNode parent n)) parent (link id)
    number linked (n.children.map (fun child => (some id, child)) ++ rest)
termination_by Node.countAll (pending.map Prod.snd)
decreasing_by simp [Function.comp_def, Node.countAll, Node.countAll_append, Node.count_eq n]

/-- Lets the entries below `n` report to their parents, the last one first. Parents precede their
children, so each entry is complete when its turn comes. -/
def report : Nat → Array Entry → Array Entry
  | 0, entries => entries
  | n + 1, entries =>
    report n <| match entries[n]? with
      | some e => atParent entries e.parent (absorb e)
      | none => entries

/-- The entries of the tree under `root`. -/
def ofRoot (root : Node) : Array Entry :=
  let entries := number #[] [(none, root)]
  report entries.size entries

end Entry

/-- A parsed source text. -/
structure Tree where
  source : String
  /-- The nodes in preorder. -/
  entries : Array Entry
  /-- What was reported, in the order of the source. -/
  problems : List Problem
  lines : LineIndex

namespace Tree

/-- The tree of a source under `root`. -/
def ofRoot (source : String) (root : Node) (problems : List Problem) : Tree :=
  ⟨source, Entry.ofRoot root, problems, .ofString source⟩

/-- The entry of a node. -/
def entry (t : Tree) (id : Nat) : Entry := t.entries.getD id default

def node (t : Tree) (id : Nat) : Node := (t.entry id).node

def nodeCount (t : Tree) : Nat := t.entries.size

/-- Whether a node or something below it is damaged. -/
def nodeHasError (t : Tree) (id : Nat) : Bool := (t.entry id).hasError

/-- Whether anything was reported or is damaged. Some problems leave no damage, such as a loose
spelling that is read as the strict operator. -/
def hasError (t : Tree) : Bool := !t.problems.isEmpty || t.nodeHasError 0

/-- The point at which a node starts. -/
def startPoint (t : Tree) (id : Nat) : Point := t.lines.point (t.node id).span.start

/-- The point at which a node stops. -/
def stopPoint (t : Tree) (id : Nat) : Point := t.lines.point (t.node id).span.stop

/-- The part of the source that a node covers. -/
def text (t : Tree) (id : Nat) : String := (t.node id).span.slice t.source

/-! ### Short descriptions -/

def describeNode (t : Tree) (id : Nat) : String :=
  s!"\x7bNode {(t.node id).name} {t.startPoint id} - {t.stopPoint id}\x7d"

def describe (t : Tree) : String := s!"\x7bTree {t.describeNode 0}\x7d"

end Tree

end ScriptTree
