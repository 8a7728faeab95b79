import ScriptTree.Tree.Node

/-! Putting comments into a finished tree.

A comment goes into the deepest node with children that encloses it, before the first child that
starts at or after its end. Missing leaves do not count there: they have no width, and a comment
that touches one comes after it. -/
namespace ScriptTree.Node

/-! ### Descending -/

/-- A node that has been entered: one child is taken out, the others are kept on both sides. -/
structure Crumb where
  node : Node
  before : List Node
  after : List Node

/-- The node with a child put back. -/
def Crumb.close (child : Node) (crumb : Crumb) : Node :=
  { crumb.node with children := crumb.before ++ child :: crumb.after }

/-- Whether a node can take in a comment with this span. -/
def encloses (span : Span) (n : Node) : Bool :=
  !n.children.isEmpty && n.span.contains span && n.span != span

/-- The deepest node that can take in the span, with the way back up; `path` leads to `n`. -/
def enter (span : Span) (n : Node) (path : List Crumb) : Node × List Crumb :=
  match h : n.children.dropWhile (!encloses span ·) with
  | [] => (n, path)
  | child :: after =>
    have : child.count < n.count :=
      count_lt_of_mem_children ((List.dropWhile_suffix _).subset (h ▸ List.mem_cons_self))
    enter span child (⟨n, n.children.takeWhile (!encloses span ·), after⟩ :: path)
termination_by n.count

/-! ### Inserting -/

/-- Whether a comment that ends at `stop` comes after this sibling. -/
def isBefore (stop : Nat) (sibling : Node) : Bool := sibling.missing || sibling.span.start < stop

/-- The children with a comment among them. -/
def insertComment (comment : Node) (children : List Node) : List Node :=
  let before := children.takeWhile (isBefore comment.span.stop)
  before ++ comment :: children.drop before.length

/-- The tree under `root` with a comment in it. -/
def attach (root comment : Node) : Node :=
  let (host, path) := enter comment.span root []
  path.foldl Crumb.close { host with children := insertComment comment host.children }

/-- The tree under `root` with comments in it, added in their order. -/
def attachAll (root : Node) (comments : List Node) : Node := comments.foldl attach root

end ScriptTree.Node
