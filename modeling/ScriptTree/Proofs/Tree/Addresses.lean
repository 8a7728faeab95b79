import Mathlib
import ScriptTree.Proofs.Tree.Numbering

/-! Which node of a tree has which number.

`Sits root id parent n` says that the node `n` has the number `id` in the tree under `root`. It goes
down from the root child by child, so what holds of the root and is passed on to children holds of
every node of the tree; every number belongs to a node (`exists_sits`), and looking a node up by its
number finds it (`Sits.entry_eq`). -/
namespace ScriptTree

inductive Sits (root : Node) : Nat → Option Nat → Node → Prop
  | root : Sits root 0 none root
  | child {id parent n before c after} (above : Sits root id parent n)
      (hchildren : n.children = before ++ c :: after) :
      Sits root (id + 1 + Node.countAll before) (some id) c

open Entry

/-! ### Numbers of children -/

theorem mem_childIds {first id : Nat} {nodes : List Node} (h : id ∈ childIds first nodes) :
    ∃ before c after, nodes = before ++ c :: after ∧ id = first + Node.countAll before := by
  induction nodes generalizing first with
  | nil => cases h
  | cons n nodes ih =>
    rcases List.mem_cons.mp h with rfl | h
    · exact ⟨[], n, nodes, rfl, rfl⟩
    · obtain ⟨before, c, after, rfl, rfl⟩ := ih h
      exact ⟨n :: before, c, after, rfl, by rw [Node.countAll, Nat.add_assoc]⟩

theorem childIds_mem (first : Nat) (before : List Node) (c : Node) (after : List Node) :
    first + Node.countAll before ∈ childIds first (before ++ c :: after) := by
  induction before generalizing first with
  | nil => exact List.mem_cons_self ..
  | cons n before ih =>
    rw [Node.countAll, ← Nat.add_assoc]
    exact List.mem_cons_of_mem _ (ih (first + n.count))

/-- Looking the children up by their numbers gives the children. -/
theorem map_childIds {first : Nat} {nodes : List Node} {f : Nat → Node}
    (h : ∀ before c after, nodes = before ++ c :: after → f (first + Node.countAll before) = c) :
    (childIds first nodes).map f = nodes := by
  induction nodes generalizing first with
  | nil => rfl
  | cons n nodes ih =>
    have hfirst : f first = n := h [] n nodes rfl
    rw [childIds, List.map_cons, hfirst, ih fun before c after hnodes => ?_]
    rw [Nat.add_assoc]
    exact h (n :: before) c after (by rw [hnodes, List.cons_append])

namespace Sits
variable {root n : Node} {id : Nat} {parent : Option Nat}

/-- The entries of what is below a node stand together. -/
theorem subtree_infix (h : Sits root id parent n) (entry : Nat → Option Nat → Node → Entry) :
    ∃ before after, subtree entry 0 none root = before ++ subtree entry id parent n ++ after ∧
      before.length = id := by
  induction h with
  | root => exact ⟨[], [], by simp, rfl⟩
  | @child id parent n before c after above hchildren ih =>
    obtain ⟨left, right, hsplit, hlength⟩ := ih
    rw [subtree_eq _ id, hchildren, subtrees_append, subtrees] at hsplit
    refine ⟨left ++ entry id parent n :: subtrees entry (id + 1) (some id) before,
      subtrees entry (id + 1 + Node.countAll before + c.count) (some id) after ++ right, ?_, ?_⟩
    · rw [hsplit]
      simp
    · rw [List.length_append, List.length_cons, length_subtrees, hlength]
      omega

theorem getElem?_subtree (h : Sits root id parent n) (entry : Nat → Option Nat → Node → Entry) :
    (subtree entry 0 none root)[id]? = some (entry id parent n) := by
  obtain ⟨before, after, hsplit, rfl⟩ := h.subtree_infix entry
  rw [hsplit, subtree_eq]
  simp

theorem entry_eq (h : Sits root id parent n) (source : String) (problems : List Problem) :
    (Tree.ofRoot source root problems).entry id = complete id parent n := by
  simp only [Tree.entry, Tree.ofRoot, ofRoot_eq]
  rw [Array.getD_eq_getD_getElem?, List.getElem?_toArray, h.getElem?_subtree]
  rfl

theorem lt_count (h : Sits root id parent n) : id < root.count := by
  obtain ⟨before, after, hsplit, rfl⟩ := h.subtree_infix complete
  have := congrArg List.length hsplit
  rw [length_subtree, List.length_append, List.length_append, length_subtree, Node.count_eq n] at this
  omega

/-- A node and what is below it have the numbers from the node's number on. -/
theorem exists_add (h : Sits root id parent n) (i : Nat) (hi : i < n.count) :
    ∃ parent m, Sits root (id + i) parent m := by
  -- Below the children behind those in `before`, by induction on the children left.
  have hbelow : ∀ nodes before : List Node, ∀ {id parent n}, Sits root id parent n →
      n.children = before ++ nodes → ∀ i < Node.countAll nodes,
        ∃ parent m, Sits root (id + 1 + Node.countAll before + i) parent m := by
    intro nodes
    induction nodes using Node.forest_induction with
    | nil => exact fun _ _ _ _ _ _ i hi => nomatch hi
    | cons c nodes ihc ih =>
      intro before id parent n hn hchildren i hi
      have hc := hn.child hchildren
      rw [Node.countAll, Node.count_eq] at hi
      rcases Nat.eq_zero_or_pos i with rfl | hpos
      · exact ⟨_, _, hc⟩
      rcases Nat.lt_or_ge i (Node.countAll c.children + 1) with hlt | hge
      · have := ihc [] hc rfl (i - 1) (by omega)
        rwa [Node.countAll, Nat.add_zero, Nat.add_assoc, Nat.add_sub_cancel' hpos] at this
      · have := ih (before ++ [c]) hn (by simp [hchildren]) (i - c.count)
          (by rw [Node.count_eq]; omega)
        rw [Node.countAll_append, Node.countAll, Node.countAll] at this
        rwa [show id + 1 + (Node.countAll before + (c.count + 0)) + (i - c.count) =
          id + 1 + Node.countAll before + i by rw [Node.count_eq]; omega] at this
  rcases Nat.eq_zero_or_pos i with rfl | hpos
  · exact ⟨parent, n, h⟩
  · rw [Node.count_eq] at hi
    have := hbelow n.children [] h rfl (i - 1) (by omega)
    rwa [Node.countAll, Nat.add_zero, Nat.add_assoc, Nat.add_sub_cancel' hpos] at this

theorem exists_of_lt (hid : id < root.count) : ∃ parent n, Sits root id parent n := by
  simpa using Sits.root.exists_add id hid

end Sits

/-! ### Looking up by number -/

section Tree
variable {root n : Node} {id : Nat} {parent : Option Nat} {source : String}
  {problems : List Problem}

theorem nodeCount_ofRoot : (Tree.ofRoot source root problems).nodeCount = root.count := by
  simp [Tree.nodeCount, Tree.ofRoot, ofRoot_eq, length_subtree]

namespace Sits

theorem node_eq (h : Sits root id parent n) : (Tree.ofRoot source root problems).node id = n := by
  rw [Tree.node, h.entry_eq]
  rfl

theorem parent_eq (h : Sits root id parent n) :
    (Tree.ofRoot source root problems).parent? id = parent := by
  rw [Tree.parent?, h.entry_eq]
  rfl

theorem nodeHasError_eq (h : Sits root id parent n) :
    (Tree.ofRoot source root problems).nodeHasError id = n.holdsDamage := by
  rw [Tree.nodeHasError, h.entry_eq]
  rfl

theorem children_eq (h : Sits root id parent n) :
    (Tree.ofRoot source root problems).children id = (childIds (id + 1) n.children).toArray := by
  rw [Tree.children, h.entry_eq]
  rfl

theorem eq_root (h : Sits root 0 parent n) : n = root := by
  have hn : (Tree.ofRoot "" root []).node 0 = n := h.node_eq
  exact hn.symm.trans Sits.root.node_eq

theorem ne_zero {above : Nat} (h : Sits root id (some above) n) : id ≠ 0 := by
  cases h
  omega

theorem parent_of_ne_zero (h : Sits root id parent n) (hid : id ≠ 0) : ∃ above grand m before after,
    parent = some above ∧ Sits root above grand m ∧ m.children = before ++ n :: after ∧
      id = above + 1 + Node.countAll before := by
  cases h with
  | root => exact absurd rfl hid
  | child above hchildren => exact ⟨_, _, _, _, _, rfl, above, hchildren, rfl⟩

/-- The children of a node are the nodes that its entry lists. -/
theorem map_children (h : Sits root id parent n) :
    ((Tree.ofRoot source root problems).children id).toList.map
      (Tree.ofRoot source root problems).node = n.children := by
  rw [h.children_eq]
  exact map_childIds fun before c after hchildren => (h.child hchildren).node_eq

theorem mem_children (h : Sits root id parent n) {before after : List Node} {c : Node}
    (hchildren : n.children = before ++ c :: after) :
    id + 1 + Node.countAll before ∈ (Tree.ofRoot source root problems).children id := by
  rw [h.children_eq, List.mem_toArray, hchildren]
  exact childIds_mem _ before c after

theorem of_mem_children (h : Sits root id parent n) {child : Nat}
    (hchild : child ∈ (Tree.ofRoot source root problems).children id) :
    ∃ c ∈ n.children, Sits root child (some id) c := by
  rw [h.children_eq, List.mem_toArray] at hchild
  obtain ⟨before, c, after, hchildren, rfl⟩ := mem_childIds hchild
  exact ⟨c, by simp [hchildren], h.child hchildren⟩

end Sits

/-! ### All nodes -/

theorem map_node_subtrees (first : Nat) (parent : Option Nat) (nodes : List Node) :
    (subtrees complete first parent nodes).map Entry.node = Node.preorderAll nodes := by
  induction nodes using Node.forest_induction generalizing first parent with
  | nil => rfl
  | cons n nodes ihn ih =>
    rw [subtrees, subtree_eq, List.map_append, List.map_cons, ihn, ih, Node.preorderAll,
      Node.preorder_eq]
    rfl

/-- The nodes by number are the nodes in preorder. -/
theorem map_node_range : (List.range root.count).map (Tree.ofRoot source root problems).node =
    root.preorder := by
  have hentries : (Tree.ofRoot source root problems).entries.toList.map Entry.node =
      root.preorder := by
    simp only [Tree.ofRoot, ofRoot_eq]
    rw [subtree_eq, List.map_cons, map_node_subtrees, Node.preorder_eq]
    rfl
  have hcount : root.count = (Tree.ofRoot source root problems).entries.size :=
    nodeCount_ofRoot.symm
  rw [← hentries]
  refine List.ext_getElem (by simp [hcount]) fun i hi hi' => ?_
  have hsize : i < (Tree.ofRoot source root problems).entries.size := by simpa using hi'
  simp [Tree.node, Tree.entry, Array.getD_eq_getD_getElem?, hsize]

/-- The numbers behind the root's are those of the nodes below it. -/
theorem map_node_below :
    (List.range' 1 (root.count - 1)).map (Tree.ofRoot source root problems).node =
      Node.preorderAll root.children := by
  have hall : (List.range root.count).map (Tree.ofRoot source root problems).node =
      root.preorder := map_node_range
  rw [Node.preorder_eq, Node.count_eq, List.range_eq_range', List.range'_succ, List.map_cons] at hall
  rw [Node.count_eq, Nat.add_sub_cancel]
  exact (List.cons.inj hall).2

theorem Sits.isEmpty_children (h : Sits root id parent n) :
    ((Tree.ofRoot source root problems).children id).isEmpty = n.children.isEmpty := by
  rw [h.children_eq]
  cases n.children <;> rfl

theorem Sits.mem_below (h : Sits root id parent n) (hid : id ≠ 0) :
    n ∈ Node.preorderAll root.children := by
  have hlt := h.lt_count
  have hall : (List.range' 1 (root.count - 1)).map (Tree.ofRoot "" root []).node =
      Node.preorderAll root.children := map_node_below
  rw [← hall]
  exact List.mem_map.mpr ⟨id, by rw [List.mem_range'_1]; omega, h.node_eq⟩

end Tree

end ScriptTree
