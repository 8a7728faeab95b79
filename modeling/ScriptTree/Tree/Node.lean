import ScriptTree.Grammar.Field
import ScriptTree.Grammar.Symbol
import ScriptTree.Text.Source

/-! Syntax nodes as they are built: from the leaves up.

A node knows its symbol, its span and its children, and which field it fills in the node that lists
it. Leaves cover tokens or parts of tokens; an inner node reaches from its first child to its last.
A missing leaf has no width and stands for a token that was required but absent. -/
namespace ScriptTree

/-- A syntax node with everything below it. -/
structure Node where
  symbol : Symbol
  span : Span
  /-- The role in the parent. -/
  field : Option Field
  /-- Made up for a token that was not there. -/
  missing : Bool
  /-- A comment, which may stand between any two tokens. -/
  extra : Bool
  children : List Node
deriving Inhabited

namespace Node

/-! ### Building -/

/-- A node without children. -/
def leaf (symbol : Symbol) (span : Span) : Node := ⟨symbol, span, none, false, false, []⟩

/-- The leaf that stands for an absent token. -/
def absent (symbol : Symbol) (offset : Nat) : Node := ⟨symbol, .empty offset, none, true, false, []⟩

/-- The leaf of a comment. -/
def comment (kind : NodeKind) (span : Span) : Node := ⟨.named kind, span, none, false, true, []⟩

/-- The span that just covers the given nodes; zero-width at the start of the text if there are
none. -/
def cover : List Node → Span
  | [] => .empty 0
  | n :: nodes => nodes.foldl (fun span child => span.merge child.span) n.span

/-- The node of a kind with these children. -/
def ofChildren (kind : NodeKind) (children : List Node) : Node :=
  ⟨.named kind, cover children, none, false, false, children⟩

/-- The node in the role of a field. -/
def withField (n : Node) (field : Field) : Node := { n with field := some field }

/-! ### Looking -/

/-- The kind of a named node. -/
def kind? (n : Node) : Option NodeKind := n.symbol.kind?

theorem kind?_eq_some {n : Node} {kind : NodeKind} : n.kind? = some kind ↔ n.symbol = .named kind := by
  rw [kind?]
  cases n.symbol <;> simp [Symbol.kind?]

def isNamed (n : Node) : Bool := n.symbol.isNamed

/-- Whether the node holds tokens that fit no statement. -/
def isError (n : Node) : Bool := n.symbol == .named .error

/-- Whether the node itself shows damage, whatever is below it. -/
def isDamaged (n : Node) : Bool := n.missing || n.isError

/-- The name shown for the node. -/
def name (n : Node) : String := n.symbol.name

/-! ### Counting

Walks over nodes keep what is still to be visited in a list, because chains such as `a.b.c` nest
without bound. The number of nodes in that list shrinks at every step. -/

mutual

/-- The number of nodes, the node itself included. -/
def count : Node → Nat
  | ⟨_, _, _, _, _, children⟩ => countAll children + 1

/-- The number of nodes in and below a list of nodes. -/
def countAll : List Node → Nat
  | [] => 0
  | n :: nodes => n.count + countAll nodes

end

theorem count_eq (n : Node) : n.count = countAll n.children + 1 := by
  cases n; rw [count]

theorem countAll_append (a b : List Node) : countAll (a ++ b) = countAll a + countAll b := by
  induction a with
  | nil => simp [countAll]
  | cons n nodes ih => simp [countAll, ih, Nat.add_assoc]

theorem count_le_of_mem {n : Node} {nodes : List Node} (h : n ∈ nodes) :
    n.count ≤ countAll nodes := by
  induction h with
  | head => simp [countAll]
  | tail _ _ ih => simp only [countAll]; omega

theorem count_lt_of_mem_children {c n : Node} (h : c ∈ n.children) : c.count < n.count := by
  rw [count_eq n]
  exact Nat.lt_succ_of_le (count_le_of_mem h)

end Node

end ScriptTree
