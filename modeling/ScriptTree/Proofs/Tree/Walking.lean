import Mathlib
import ScriptTree.Proofs.Tree.Addresses

/-! Walks over the numbered nodes of a tree.

A walk (`Tree.Walk`) follows the links to children and meets parents before their children. In any
tree that is numbered, it meets the numbers of a subtree one after the other (`Sits.walk`), and so
the links of a node can be told from the sizes of subtrees (`ofRoot_numbered`). -/
namespace ScriptTree

open Entry

namespace Tree

/-- The numbers that a walk from pending nodes on meets, each in front of its children. -/
inductive Walk (t : Tree) : List Nat → List Nat → Prop
  | nil : t.Walk [] []
  | cons {id pending ids} (rest : t.Walk ((t.children id).toList ++ pending) ids) :
      t.Walk (id :: pending) (id :: ids)

/-- Whether nodes are numbered in preorder and linked accordingly. -/
structure Numbered (t : Tree) : Prop where
  /-- A walk from a node meets the numbers from its own on, as many as its subtree has nodes. -/
  walk : ∀ id < t.nodeCount, t.Walk [id] (List.range' id (t.descendantCount id))
  /-- All nodes are below the root, which has no parent. -/
  root : t.nodeCount = t.descendantCount 0 ∧ t.parent? 0 = none
  /-- Every other node has one parent, which comes first and lists it once. -/
  parent : ∀ id, 0 < id → id < t.nodeCount → ∃ p < id, t.parent? id = some p ∧
    (t.children p).toList.count id = 1 ∧ ∀ q < t.nodeCount, id ∈ t.children q → q = p
  /-- The first child comes right after its parent. -/
  first : ∀ id < t.nodeCount, ∀ child ∈ t.child? id 0, child = id + 1
  /-- The next child comes right after the subtree of the one before it. -/
  next : ∀ id < t.nodeCount, ∀ i, ∀ child ∈ t.child? id i, ∀ sibling ∈ t.child? id (i + 1),
    sibling = child + t.descendantCount child

end Tree

/-! ### Numbers of siblings -/

theorem le_of_mem_childIds {first id : Nat} {nodes : List Node} (h : id ∈ childIds first nodes) :
    first ≤ id := by
  obtain ⟨before, c, after, -, rfl⟩ := mem_childIds h
  exact Nat.le_add_right _ _

theorem nodup_childIds (first : Nat) (nodes : List Node) : (childIds first nodes).Nodup := by
  induction nodes generalizing first with
  | nil => exact .nil
  | cons n nodes ih =>
    refine List.nodup_cons.mpr ⟨fun hmem => ?_, ih _⟩
    have hle := le_of_mem_childIds hmem
    rw [Node.count_eq] at hle
    omega

theorem getElem?_childIds (first i : Nat) (nodes : List Node) :
    (childIds first nodes)[i]? = nodes[i]?.map fun _ => first + Node.countAll (nodes.take i) := by
  induction nodes generalizing first i with
  | nil => rfl
  | cons n nodes ih =>
    cases i with
    | zero => rfl
    | succ i => simp [childIds, ih, Node.countAll, Nat.add_assoc]

/-! ### Walks -/

section Tree
variable {root n : Node} {id : Nat} {parent : Option Nat} {source : String}
  {problems : List Problem}

theorem Sits.descendantCount_eq (h : Sits root id parent n) :
    (Tree.ofRoot source root problems).descendantCount id = n.count := by
  rw [Tree.descendantCount, h.entry_eq]
  rfl

/-- Walking siblings, and then whatever is pending. -/
theorem walk_siblings {t : Tree} (ht : t = .ofRoot source root problems) (nodes : List Node)
    {first : Nat} (hnodes : ∀ before c after, nodes = before ++ c :: after →
      ∃ parent, Sits root (first + Node.countAll before) parent c)
    {pending ids : List Nat} (h : t.Walk pending ids) :
    t.Walk (childIds first nodes ++ pending)
      (List.range' first (Node.countAll nodes) ++ ids) := by
  induction nodes using Node.forest_induction generalizing first pending ids with
  | nil => exact h
  | cons n nodes ihn ih =>
    obtain ⟨parent, hn⟩ := hnodes [] n nodes rfl
    have hchildren : (t.children first).toList = childIds (first + 1) n.children := by
      rw [ht, show first = first + Node.countAll [] from rfl, hn.children_eq]
    have hlater : t.Walk (childIds (first + n.count) nodes ++ pending)
        (List.range' (first + n.count) (Node.countAll nodes) ++ ids) := by
      refine ih (fun before c after hsplit => ?_) h
      obtain ⟨parent, hc⟩ := hnodes (n :: before) c after (by rw [hsplit, List.cons_append])
      exact ⟨parent, by rwa [Node.countAll, ← Nat.add_assoc] at hc⟩
    have hbelow : t.Walk (childIds (first + 1) n.children ++ _)
        (List.range' (first + 1) (Node.countAll n.children) ++ _) :=
      ihn (fun before c after hsplit => ⟨some first, hn.child hsplit⟩) hlater
    have hrange : List.range' first (Node.countAll (n :: nodes)) =
        first :: (List.range' (first + 1) (Node.countAll n.children) ++
          List.range' (first + n.count) (Node.countAll nodes)) := by
      rw [Node.countAll, Node.count_eq, Nat.add_right_comm, List.range'_succ, ← List.range'_append_1,
        Nat.add_assoc, Nat.add_comm 1]
    rw [hrange, childIds, List.cons_append, List.cons_append, List.append_assoc]
    refine .cons ?_
    rw [hchildren]
    exact hbelow

/-- A walk meets the numbers of a subtree one after the other. -/
theorem Sits.walk (h : Sits root id parent n) :
    (Tree.ofRoot source root problems).Walk [id] (List.range' id n.count) := by
  have halone : ∀ before c after, [n] = before ++ c :: after →
      ∃ parent, Sits root (id + Node.countAll before) parent c := by
    intro before c after hsplit
    obtain ⟨rfl, rfl, -⟩ : before = [] ∧ n = c ∧ after = [] := by
      cases before <;> simp_all
    exact ⟨parent, h⟩
  have hwalk : (Tree.ofRoot source root problems).Walk (childIds id [n] ++ [])
      (List.range' id (Node.countAll [n]) ++ []) := walk_siblings rfl [n] halone .nil
  simpa [childIds, Node.countAll] using hwalk

/-! ### Links -/

theorem Sits.child?_eq (h : Sits root id parent n) (i : Nat) :
    (Tree.ofRoot source root problems).child? id i =
      n.children[i]?.map fun _ => id + 1 + Node.countAll (n.children.take i) := by
  rw [Tree.child?, h.children_eq, List.getElem?_toArray, getElem?_childIds]

theorem Sits.listed_once (h : Sits root id parent n) (hid : id ≠ 0) :
    ∃ p < id, parent = some p ∧
      ((Tree.ofRoot source root problems).children p).toList.count id = 1 := by
  obtain ⟨p, above, m, before, after, rfl, hm, hchildren, rfl⟩ := h.parent_of_ne_zero hid
  refine ⟨p, by omega, rfl, ?_⟩
  have hmem : p + 1 + Node.countAll before ∈ (Tree.ofRoot source root problems).children p :=
    hm.mem_children hchildren
  rw [hm.children_eq] at hmem ⊢
  exact List.count_eq_one_of_mem (nodup_childIds _ _) (List.mem_toArray.mp hmem)

/-- The next child comes right after the subtree of the one before it. -/
theorem Sits.next_child (h : Sits root id parent n) {i child sibling : Nat}
    (hchild : (Tree.ofRoot source root problems).child? id i = some child)
    (hsibling : (Tree.ofRoot source root problems).child? id (i + 1) = some sibling) :
    sibling = child + (Tree.ofRoot source root problems).descendantCount child := by
  rw [h.child?_eq, Option.map_eq_some_iff] at hchild hsibling
  obtain ⟨c, hc, rfl⟩ := hchild
  obtain ⟨d, hd, rfl⟩ := hsibling
  obtain ⟨hi, rfl⟩ := List.getElem?_eq_some_iff.mp hc
  have hsplit : n.children = n.children.take i ++ n.children[i] :: n.children.drop (i + 1) := by
    rw [List.getElem_cons_drop, List.take_append_drop]
  have halone : Node.countAll [n.children[i]] = n.children[i].count := Nat.add_zero _
  rw [(h.child hsplit).descendantCount_eq, List.take_succ_eq_append_getElem hi,
    Node.countAll_append, halone, ← Nat.add_assoc]

end Tree

/-- The nodes of every tree are numbered in preorder. -/
theorem ofRoot_numbered (source : String) (root : Node) (problems : List Problem) :
    (Tree.ofRoot source root problems).Numbered := by
  refine ⟨fun id hid => ?_, ⟨?_, Sits.root.parent_eq⟩, fun id hpos hid => ?_, fun id hid child h => ?_,
    fun id hid i child hchild sibling hsibling => ?_⟩
  · rw [nodeCount_ofRoot] at hid
    obtain ⟨parent, n, hn⟩ := Sits.exists_of_lt hid
    rw [hn.descendantCount_eq]
    exact hn.walk
  · rw [nodeCount_ofRoot, Sits.root.descendantCount_eq]
  all_goals
    rw [nodeCount_ofRoot] at hid
    obtain ⟨parent, n, hn⟩ := Sits.exists_of_lt hid
  · obtain ⟨p, hlt, rfl, honce⟩ : ∃ p < id, parent = some p ∧
        ((Tree.ofRoot source root problems).children p).toList.count id = 1 :=
      hn.listed_once hpos.ne'
    refine ⟨p, hlt, hn.parent_eq, honce, fun q hq hlists => ?_⟩
    rw [nodeCount_ofRoot] at hq
    obtain ⟨above, m, hm⟩ := Sits.exists_of_lt hq
    obtain ⟨c, -, hc⟩ := hm.of_mem_children hlists
    have hparent : (Tree.ofRoot source root problems).parent? id = some q := hc.parent_eq
    rw [hn.parent_eq] at hparent
    exact (Option.some.inj hparent).symm
  · rw [Option.mem_def, hn.child?_eq, Option.map_eq_some_iff] at h
    obtain ⟨-, -, rfl⟩ := h
    rfl
  · exact hn.next_child hchild hsibling

end ScriptTree
