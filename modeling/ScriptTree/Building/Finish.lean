import ScriptTree.Building.Statement
import ScriptTree.Tree.Basic

/-! From the arena to the tree.

Comments are made behind all other nodes and then listed among the children of the deepest node that
encloses them. What can be reached from the root is numbered in preorder, and the nodes are taken over in
that order with their children renumbered; what an attempt that failed has left behind has no number and
is dropped. Children are then told their parents, and the nodes report upwards what is below them. Each of
these steps gives nothing if it looks something up that is not there. -/
namespace ScriptTree.Building

open Parsing

/-! ### Comments -/

/-- Whether a node can take in an extra with this span. -/
def encloses (span : Span) (b : Built) : Bool :=
  !b.children.isEmpty && b.span.contains span && b.span != span

/-- The deepest node that can take in the span, from a node on; every step goes down. -/
def host? (made : Array Built) (span : Span) : (steps : Nat) → (id : Nat) → Option Nat
  | 0, _ => none
  | steps + 1, id => do
    match ← (← made[id]?).children.findM? fun c => made[c]?.map (encloses span) with
    | some child => host? made span steps child
    | none => return id

/-- The children with an extra that ends at `stop` in front of the first one that comes after it. Missing
leaves do not count. -/
def insert? (made : Array Built) (extra stop : Nat) : (children : List Nat) → Option (List Nat)
  | [] => some [extra]
  | id :: children => do
    let b ← made[id]?
    if b.missing || b.span.start < stop then return id :: (← insert? made extra stop children)
    else return extra :: id :: children

/-- Lists an extra among the children of the deepest node below the root that encloses it. -/
def attach? (root : NodeId) (made : Array Built) (extra : NodeId) : Option (Array Built) := do
  let span := (← made[extra.index]?).span
  let host ← host? made span made.size root.index
  let b ← made[host]?
  let children ← insert? made extra.index span.stop b.children
  return made.setIfInBounds host { b with children }

/-! ### Numbers -/

/-- The places that can be reached from those on the stack, in preorder, behind those already in order. -/
def preorder? (made : Array Built) : (steps : Nat) → (stack : List Nat) → (order : Array Nat) →
    Option (Array Nat)
  | _, [], order => some order
  | 0, _ :: _, _ => none
  | steps + 1, id :: stack, order => do
    preorder? made steps ((← made[id]?).children ++ stack) (order.push id)

/-- Gives the place of a node its number. -/
def number? (numbers : Array (Option Nat)) (numbered : Nat × Nat) : Option (Array (Option Nat)) :=
  if numbered.1 < numbers.size then
    some (numbers.setIfInBounds numbered.1 (some numbered.2))
  else none

/-- The numbers of the places of an arena in the given order. -/
def numbers? (size : Nat) (order : Array Nat) : Option (Array (Option Nat)) :=
  order.toList.zipIdx.foldlM number? (Array.replicate size none)

/-- The node at a place with its children renumbered. A child without a number is not there. -/
def renumber? (made : Array Built) (numbers : Array (Option Nat)) (id : Nat) : Option Built := do
  let b ← made[id]?
  let children ← b.children.mapM fun c => numbers[c]?.join
  return { b with children }

/-! ### Entries -/

/-- The nodes with everything below them, from the last one down to the first; `nodes` up to `n` are
left. Children follow their parents, so they are there before them. -/
def gather? (nodes : Array Built) : (n : Nat) → (gathered : Array Node) → Option (Array Node)
  | 0, gathered => some gathered
  | n + 1, gathered => do
    let b ← nodes[n]?
    let children ← b.children.mapM fun c =>
      if c < nodes.size then gathered[nodes.size - 1 - c]? else none
    gather? nodes n (gathered.push ⟨b.symbol, b.span, b.field, b.missing, b.extra, children⟩)

/-- A node that does not know its parent and what is below it yet. -/
def entryOf (b : Built) (n : Node) : Entry := ⟨n, none, b.children.toArray, 1, n.isDamaged⟩

/-- Tells a child its parent. -/
def tell? (parent : Nat) (entries : Array Entry) (child : Nat) : Option (Array Entry) :=
  if child < entries.size then
    some (entries.modify child fun e => { e with parent := some parent })
  else none

/-- Tells the children of a node their parent. -/
def tellAll? (entries : Array Entry) (parent : Nat) : Option (Array Entry) := do
  (← entries[parent]?).children.toList.foldlM (tell? parent) entries

/-- The entries of the nodes below the root of an arena. -/
def entries? (made : Array Built) (root : NodeId) : Option (Array Entry) := do
  let order ← preorder? made made.size [root.index] #[]
  let numbers ← numbers? made.size order
  let nodes ← order.toList.mapM (renumber? made numbers)
  let gathered ← gather? nodes.toArray nodes.length #[]
  let entries := List.zipWith entryOf nodes gathered.toList.reverse
  let told ← (List.range entries.length).foldlM tellAll? entries.toArray
  return Entry.report told.size told

/-! ### Programs -/

/-- The leaf of a comment. -/
def comment (c : Comment) : Build NodeId :=
  match c.kind with
  | .line | .block => extra (.named .comment) c.span
  | .html => extra (.named .htmlComment) c.span

/-- A root over the whole source, blanks at the ends too. -/
def root (children : Array Child) : Build NodeId := do
  nodeWithSpan .program ⟨0, (← read).source.utf8ByteSize⟩ children

/-- The statements of a source under their root, and the comments. -/
def program (comments : Array Comment) : Build (NodeId × List NodeId) := do
  let root ← root (← statements false #[])
  return (root, ← comments.toList.mapM comment)

/-- The nodes that are made of a source, the place of the root among them, and what is reported. -/
structure Arena where
  made : Array Built
  root : NodeId
  problems : List Problem

/-- The arena that a step on its own makes of a source, with the extras put in. -/
def run? (scope : Scope) (m : Build (NodeId × List NodeId)) (report : Array Problem → List Problem) :
    Option Arena :=
  match m scope {} with
  | .ok (root, extras) s => do
    return ⟨← extras.foldlM (attach? root) s.made, root, report s.problems⟩
  | .error _ _ => none

/-- The tree of the nodes below the root. -/
def Arena.tree? (a : Arena) (source : String) : Option Tree := do
  return ⟨source, ← entries? a.made a.root, a.problems, .ofString source⟩

end ScriptTree.Building
