import ScriptTree.Tree.Navigation

/-! Walking a tree without looking for siblings.

A cursor knows the way from the node it started at, so it never leaves that node's subtree, and with
each node its index in the parent. Repeated `next` visits the subtree in preorder. -/
namespace ScriptTree

/-- A node on a cursor's way. -/
structure Step where
  id : Nat
  /-- The index among the parent's children; zero for the node at which the cursor started. -/
  index : Nat
deriving DecidableEq, Repr

/-- A node of a tree and the way to it. -/
structure Cursor where
  tree : Tree
  current : Step
  /-- The nodes above, the nearest first; the last is the one at which the cursor started. -/
  above : List Step

namespace Cursor

/-- A cursor that starts at a node. -/
def start (tree : Tree) (id : Nat) : Cursor := ⟨tree, ⟨id, 0⟩, []⟩

/-- The number of the current node. -/
def id (c : Cursor) : Nat := c.current.id

def node (c : Cursor) : Node := c.tree.node c.id

/-- The number of steps up to the node at which the cursor started. -/
def depth (c : Cursor) : Nat := c.above.length

/-- The role of the current node, unknown where the cursor started. -/
def field? (c : Cursor) : Option Field := if c.above.isEmpty then none else c.node.field

/-- The cursor at the child with this number and index. -/
def enter (c : Cursor) (id index : Nat) : Cursor :=
  { c with current := ⟨id, index⟩, above := c.current :: c.above }

def firstChild? (c : Cursor) : Option Cursor := (c.tree.child? c.id 0).map fun id => c.enter id 0

/-- The first child that stops after `offset`. -/
def firstChildForByte? (c : Cursor) (offset : Nat) : Option Cursor := do
  let i ← (c.tree.children c.id).findIdx? fun child => offset < (c.tree.node child).span.stop
  let id ← c.tree.child? c.id i
  return c.enter id i

def nextSibling? (c : Cursor) : Option Cursor := do
  let parent ← c.above.head?
  let id ← c.tree.child? parent.id (c.current.index + 1)
  return { c with current := ⟨id, c.current.index + 1⟩ }

def parent? (c : Cursor) : Option Cursor :=
  match c.above with
  | [] => none
  | step :: above => some { c with current := step, above }

/-! ### Preorder -/

/-- The nearest next sibling of the current node or of one above; without one, the start, and
`false`. -/
def climb (c : Cursor) : Cursor × Bool :=
  match c.nextSibling? with
  | some next => (next, true)
  | none =>
    match c with
    | ⟨_, _, []⟩ => (c, false)
    | ⟨tree, _, step :: above⟩ => climb ⟨tree, step, above⟩
termination_by c.above.length

/-- The next node in preorder; after the last one the cursor is back at the start, and `false`. -/
def next (c : Cursor) : Cursor × Bool :=
  match c.firstChild? with
  | some child => (child, true)
  | none => c.climb

end Cursor

end ScriptTree
