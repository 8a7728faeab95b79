import ScriptTree.Tree.Basic

/-! Moving between the nodes of a tree.

Nodes are given and found by number. A move that leads nowhere gives `none`. -/
namespace ScriptTree.Tree

/-! ### Children -/

def children (t : Tree) (id : Nat) : Array Nat := (t.entry id).children

def childCount (t : Tree) (id : Nat) : Nat := (t.children id).size

def child? (t : Tree) (id i : Nat) : Option Nat := (t.children id)[i]?

def isNamed (t : Tree) (id : Nat) : Bool := (t.node id).isNamed

def namedChildren (t : Tree) (id : Nat) : Array Nat := (t.children id).filter t.isNamed

def namedChild? (t : Tree) (id i : Nat) : Option Nat := (t.namedChildren id)[i]?

/-- The children in the role of a field. -/
def childrenWithField (t : Tree) (id : Nat) (field : Field) : Array Nat :=
  (t.children id).filter fun child => (t.node child).field == some field

/-- The first child in the role of a field. -/
def childWithField? (t : Tree) (id : Nat) (field : Field) : Option Nat :=
  (t.childrenWithField id field)[0]?

/-- The field that the child at an index fills. -/
def fieldOfChild? (t : Tree) (id i : Nat) : Option Field :=
  (t.child? id i).bind fun child => (t.node child).field

/-! ### Parents and siblings -/

def parent? (t : Tree) (id : Nat) : Option Nat := (t.entry id).parent

/-- The number of nodes in the subtree, the node included. -/
def descendantCount (t : Tree) (id : Nat) : Nat := (t.entry id).count

/-- The parent, and the index at which it lists the node. -/
def place? (t : Tree) (id : Nat) : Option (Nat × Nat) := do
  let parent ← t.parent? id
  let i ← (t.children parent).findIdx? (· == id)
  return (parent, i)

def nextSibling? (t : Tree) (id : Nat) : Option Nat := do
  let (parent, i) ← t.place? id
  t.child? parent (i + 1)

def previousSibling? (t : Tree) (id : Nat) : Option Nat := do
  let (parent, i) ← t.place? id
  if i = 0 then none else t.child? parent (i - 1)

def nextNamedSibling? (t : Tree) (id : Nat) : Option Nat := do
  let (parent, i) ← t.place? id
  ((t.children parent).extract (i + 1) (t.childCount parent)).find? t.isNamed

def previousNamedSibling? (t : Tree) (id : Nat) : Option Nat := do
  let (parent, i) ← t.place? id
  ((t.children parent).extract 0 i).findRev? t.isNamed

/-! ### Nodes by range -/

/-- Descends for at most `fuel` levels from `id` into children that cover a span. The answer is the
last node on the way that is accepted, and `best` if none is. -/
def descendTo (t : Tree) (accept : Nat → Bool) (span : Span) : (fuel id best : Nat) → Nat
  | 0, _, best => best
  | fuel + 1, id, best =>
    match (t.children id).find? fun c => (t.node c).span.contains span && !(t.node c).missing with
    | some c => t.descendTo accept span fuel c (if accept c then c else best)
    | none => best

/-- The smallest accepted node that covers a span, among the node and those below it. The node
itself need not be accepted, but it has to cover the span. A subtree is not deeper than it has
nodes. -/
def descendantFor? (t : Tree) (accept : Nat → Bool) (id : Nat) (span : Span) : Option Nat :=
  if (t.node id).span.contains span then some (t.descendTo accept span (t.descendantCount id) id id)
  else none

/-- The smallest node that covers a span. -/
def descendantForRange? (t : Tree) (id : Nat) (span : Span) : Option Nat :=
  t.descendantFor? (fun _ => true) id span

/-- The smallest named node that covers a span. -/
def namedDescendantForRange? (t : Tree) (id : Nat) (span : Span) : Option Nat :=
  t.descendantFor? t.isNamed id span

end ScriptTree.Tree
