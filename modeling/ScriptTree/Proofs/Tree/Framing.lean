import Mathlib
import ScriptTree.Proofs.Tree.Layout
import ScriptTree.Proofs.Tree.Preorder

/-! Nodes around their children.

A framed node reaches exactly from its first child to its last one, the children stand side by side,
and the same holds of each of them. The root of a tree is only wide enough for what stands in it
(`Encloses`). -/
namespace ScriptTree

/-- Whether a node and everything below it reach from the first child to the last. Neither of these
two is a comment, and the first one covers something. -/
inductive Framed : Node → Prop
  | leaf {n} (hchildren : n.children = []) (forward : n.span.start ≤ n.span.stop) : Framed n
  | inner {n c cs} (hchildren : n.children = c :: cs) (start : c.span.start = n.span.start)
      (proper : c.span.start < c.span.stop) (first : c.extra = false)
      (last : ∀ m ∈ n.children.getLast?, m.extra = false)
      (laid : Laid n.span.start n.children n.span.stop) (below : ∀ m ∈ n.children, Framed m) :
      Framed n

/-- Whether a node has room for its children, which stand side by side and are framed. -/
structure Encloses (n : Node) : Prop where
  laid : ∃ stop ≤ n.span.stop, Laid n.span.start n.children stop
  below : ∀ m ∈ n.children, Framed m

/-- Whether one node ends before another starts. -/
def Precedes (n m : Node) : Prop := n.span.stop ≤ m.span.start

theorem Laid.mem {a b : Nat} {ns : List Node} (h : Laid a ns b) {m : Node} (hm : m ∈ ns) :
    a ≤ m.span.start ∧ m.span.start ≤ m.span.stop ∧ m.span.stop ≤ b := by
  induction h with
  | nil => cases hm
  | cons after forward _ rest ih =>
    rcases List.mem_cons.mp hm with rfl | hm
    · exact ⟨after, forward, rest.le⟩
    · obtain ⟨hstart, hforward, hstop⟩ := ih hm
      exact ⟨after.trans (forward.trans hstart), hforward, hstop⟩

/-- Of nodes side by side, the ones in front end where the others begin. -/
theorem Laid.split {a b : Nat} {ns ms : List Node} (h : Laid a (ns ++ ms) b) :
    ∃ m, Laid a ns m ∧ Laid m ms b := by
  induction ns generalizing a with
  | nil => exact ⟨a, .nil, h⟩
  | cons n ns ih =>
    cases h with
    | cons after forward touches rest =>
      obtain ⟨m, hns, hms⟩ := ih rest
      exact ⟨m, .cons after forward touches hns, hms⟩

theorem Laid.pairwise {a b : Nat} {ns : List Node} (h : Laid a ns b) : ns.Pairwise Precedes := by
  induction h with
  | nil => exact .nil
  | cons _ _ _ rest ih => exact .cons (fun m hm => (rest.mem hm).1) ih

theorem Framed.forward {n : Node} (h : Framed n) : n.span.start ≤ n.span.stop := by
  cases h with
  | leaf _ forward => exact forward
  | inner _ _ _ _ _ laid => exact laid.le

theorem Framed.child {n : Node} (h : Framed n) : ∀ m ∈ n.children, Framed m := by
  cases h with
  | leaf hchildren => simp [hchildren]
  | inner _ _ _ _ _ _ below => exact below

theorem Framed.encloses {n : Node} (h : Framed n) (hchildren : n.children ≠ []) : Encloses n := by
  cases h with
  | leaf hnone => exact absurd hnone hchildren
  | inner _ _ _ _ _ laid below => exact ⟨⟨_, Nat.le_refl _, laid⟩, below⟩

/-! ### Leaves -/

def Node.isLeaf (n : Node) : Bool := n.children.isEmpty

/-- The leaves in and below a list of nodes, in order. -/
def leavesAll (nodes : List Node) : List Node := (Node.preorderAll nodes).filter Node.isLeaf

theorem leavesAll_append (a b : List Node) : leavesAll (a ++ b) = leavesAll a ++ leavesAll b := by
  rw [leavesAll, Node.preorderAll_append, List.filter_append]
  rfl

theorem leavesAll_cons (n : Node) (nodes : List Node) :
    leavesAll (n :: nodes) = leavesAll [n] ++ leavesAll nodes :=
  leavesAll_append [n] nodes

theorem leavesAll_singleton_leaf {n : Node} (h : n.children = []) : leavesAll [n] = [n] := by
  simp [leavesAll, Node.preorderAll, Node.preorder_eq, h, Node.isLeaf]

theorem leavesAll_singleton_inner {n : Node} (h : n.children ≠ []) :
    leavesAll [n] = leavesAll n.children := by
  simp [leavesAll, Node.preorderAll, Node.preorder_eq, h, Node.isLeaf]

theorem mem_leavesAll {m : Node} {nodes : List Node} :
    m ∈ leavesAll nodes ↔ ∃ n ∈ nodes, m ∈ leavesAll [n] := by
  simp only [leavesAll, List.mem_filter, Node.mem_preorderAll, Node.preorderAll, List.append_nil]
  constructor
  · rintro ⟨⟨n, hn, hm⟩, hleaf⟩
    exact ⟨n, hn, hm, hleaf⟩
  · rintro ⟨n, hn, hm, hleaf⟩
    exact ⟨⟨n, hn, hm⟩, hleaf⟩

/-- The leaves of a framed node are framed and stand within it. -/
theorem Framed.mem_leaves {n : Node} (h : Framed n) {m : Node} (hm : m ∈ leavesAll [n]) :
    n.span.start ≤ m.span.start ∧ m.span.start ≤ m.span.stop ∧ m.span.stop ≤ n.span.stop := by
  induction h with
  | leaf hchildren forward =>
    rw [leavesAll_singleton_leaf hchildren, List.mem_singleton] at hm
    subst hm
    exact ⟨Nat.le_refl _, forward, Nat.le_refl _⟩
  | inner hchildren _ _ _ _ laid below ih =>
    rw [leavesAll_singleton_inner (by simp [hchildren])] at hm
    obtain ⟨c, hc, hm⟩ := mem_leavesAll.mp hm
    obtain ⟨hstart, _, hstop⟩ := laid.mem hc
    obtain ⟨hstart', hforward, hstop'⟩ := ih c hc hm
    exact ⟨hstart.trans hstart', hforward, hstop'.trans hstop⟩

theorem pairwise_leavesAll {nodes : List Node} (hnodes : nodes.Pairwise Precedes)
    (hframed : ∀ n ∈ nodes, Framed n) (heach : ∀ n ∈ nodes, (leavesAll [n]).Pairwise Precedes) :
    (leavesAll nodes).Pairwise Precedes := by
  induction hnodes with
  | nil => exact .nil
  | @cons n nodes hn _ ih =>
    rw [leavesAll_cons]
    refine List.pairwise_append.mpr ⟨heach n (List.mem_cons_self ..), ih ?_ ?_, ?_⟩
    · exact fun m hm => hframed m (List.mem_cons_of_mem _ hm)
    · exact fun m hm => heach m (List.mem_cons_of_mem _ hm)
    · intro x hx y hy
      obtain ⟨m, hm, hy⟩ := mem_leavesAll.mp hy
      have hxn := ((hframed n (List.mem_cons_self ..)).mem_leaves hx).2.2
      have hym := ((hframed m (List.mem_cons_of_mem _ hm)).mem_leaves hy).1
      exact hxn.trans ((hn m hm).trans hym)

theorem Framed.pairwise_leaves {n : Node} (h : Framed n) : (leavesAll [n]).Pairwise Precedes := by
  induction h with
  | leaf hchildren _ =>
    rw [leavesAll_singleton_leaf hchildren]
    exact List.pairwise_singleton _ _
  | inner hchildren _ _ _ _ laid below ih =>
    rw [leavesAll_singleton_inner (by simp [hchildren])]
    exact pairwise_leavesAll laid.pairwise below ih

/-- The leaves of a tree stand one behind the other. -/
theorem Encloses.pairwise_leaves {n : Node} (h : Encloses n) :
    (leavesAll n.children).Pairwise Precedes := by
  obtain ⟨stop, _, hlaid⟩ := h.laid
  exact pairwise_leavesAll hlaid.pairwise h.below fun m hm => (h.below m hm).pairwise_leaves

end ScriptTree
