import Mathlib
import ScriptTree.Tree.Node

/-! The nodes of a subtree in preorder, and subtrees without comments. -/
namespace ScriptTree.Node

mutual

/-- A node and everything below it, parents first and siblings in order. -/
def preorder : Node → List Node
  | ⟨symbol, span, field, missing, extra, children⟩ =>
    ⟨symbol, span, field, missing, extra, children⟩ :: preorderAll children

/-- The nodes in and below a list of nodes. -/
def preorderAll : List Node → List Node
  | [] => []
  | n :: nodes => n.preorder ++ preorderAll nodes

end

theorem preorder_eq (n : Node) : n.preorder = n :: preorderAll n.children := by
  cases n; rw [preorder]

/-- Induction over lists of nodes: on what is below the first one, and on the others. -/
@[elab_as_elim]
theorem forest_induction {motive : List Node → Prop} (nodes : List Node) (nil : motive [])
    (cons : ∀ n nodes, motive n.children → motive nodes → motive (n :: nodes)) : motive nodes := by
  induction hcount : countAll nodes using Nat.strong_induction_on generalizing nodes with
  | _ count ih =>
    cases nodes with
    | nil => exact nil
    | cons n nodes =>
      rw [countAll, count_eq] at hcount
      exact cons n nodes (ih _ (by omega) _ rfl) (ih _ (by omega) _ rfl)

theorem preorderAll_append (a b : List Node) :
    preorderAll (a ++ b) = preorderAll a ++ preorderAll b := by
  induction a with
  | nil => rfl
  | cons n a ih => rw [List.cons_append, preorderAll, preorderAll, ih, List.append_assoc]

theorem mem_preorderAll {m : Node} {nodes : List Node} :
    m ∈ preorderAll nodes ↔ ∃ n ∈ nodes, m ∈ n.preorder := by
  induction nodes with
  | nil => simp [preorderAll]
  | cons n nodes ih => simp [preorderAll, ih]

theorem mem_preorderAll_cons {m n : Node} {nodes : List Node} :
    m ∈ preorderAll (n :: nodes) ↔ m = n ∨ m ∈ preorderAll n.children ∨ m ∈ preorderAll nodes := by
  rw [preorderAll, preorder_eq, List.cons_append, List.mem_cons, List.mem_append]

/-- Below leaves there is nothing. -/
theorem mem_preorderAll_leaves {m : Node} {nodes : List Node}
    (hleaves : ∀ n ∈ nodes, n.children = []) : m ∈ preorderAll nodes ↔ m ∈ nodes := by
  induction nodes with
  | nil => rfl
  | cons n nodes ih =>
    rw [mem_preorderAll_cons, hleaves n (List.mem_cons_self ..),
      ih fun n hn => hleaves n (List.mem_cons_of_mem _ hn), List.mem_cons]
    simp [preorderAll]

/-- Whether a node or something below it is damaged. -/
def holdsDamage (n : Node) : Bool := n.preorder.any isDamaged

theorem holdsDamage_eq (n : Node) :
    n.holdsDamage = (n.isDamaged || (preorderAll n.children).any isDamaged) := by
  rw [holdsDamage, preorder_eq, List.any_cons]

/-! ### Without comments -/

mutual

/-- The node without the comments below it. -/
def strip : Node → Node
  | ⟨symbol, span, field, missing, extra, children⟩ =>
    ⟨symbol, span, field, missing, extra, stripAll children⟩

/-- The nodes without the comments among and below them. -/
def stripAll : List Node → List Node
  | [] => []
  | n :: nodes => if n.extra then stripAll nodes else n.strip :: stripAll nodes

end

theorem strip_eq (n : Node) : n.strip = { n with children := stripAll n.children } := by
  cases n; rw [strip]

theorem stripAll_eq (nodes : List Node) :
    stripAll nodes = (nodes.filter (!·.extra)).map strip := by
  induction nodes with
  | nil => rfl
  | cons n nodes ih => cases h : n.extra <;> simp [stripAll, h, ih]

theorem stripAll_append (a b : List Node) : stripAll (a ++ b) = stripAll a ++ stripAll b := by
  simp [stripAll_eq]

/-- Nodes without comments among and below them stay as they are. -/
theorem stripAll_of_plain {nodes : List Node} (h : ∀ m ∈ preorderAll nodes, m.extra = false) :
    stripAll nodes = nodes := by
  induction nodes using forest_induction with
  | nil => rfl
  | cons n nodes ihn ih =>
    rw [preorderAll, preorder_eq] at h
    rw [stripAll, h n (by simp), ih fun m hm => h m (by simp [hm]), strip_eq,
      ihn fun m hm => h m (by simp [hm])]
    cases n
    rfl

/-- What is below without comments is below with them. -/
theorem exists_of_mem_stripAll {m : Node} {nodes : List Node}
    (h : m ∈ preorderAll (stripAll nodes)) : ∃ n ∈ preorderAll nodes, n.strip = m := by
  induction nodes using forest_induction with
  | nil => cases h
  | cons n nodes ihn ih =>
    have hrest (h : m ∈ preorderAll (stripAll nodes)) :
        ∃ m' ∈ preorderAll (n :: nodes), m'.strip = m :=
      (ih h).imp fun m' ⟨hm', hstrip⟩ => ⟨mem_preorderAll_cons.mpr (.inr (.inr hm')), hstrip⟩
    rw [stripAll] at h
    split at h
    · exact hrest h
    · rcases mem_preorderAll_cons.mp h with rfl | h | h
      · exact ⟨n, mem_preorderAll_cons.mpr (.inl rfl), rfl⟩
      · rw [strip_eq] at h
        obtain ⟨m', hm', hstrip⟩ := ihn h
        exact ⟨m', mem_preorderAll_cons.mpr (.inr (.inl hm')), hstrip⟩
      · exact hrest h

/-- Leaving comments out leaves them out of the preorder, if nothing is below them. -/
theorem preorderAll_stripAll {nodes : List Node}
    (h : ∀ m ∈ preorderAll nodes, m.extra = true → m.children = []) :
    preorderAll (stripAll nodes) = ((preorderAll nodes).filter (!·.extra)).map strip := by
  induction nodes using forest_induction with
  | nil => rfl
  | cons n nodes ihn ih =>
    rw [preorderAll, preorder_eq] at h
    have hnodes := ih fun m hm => h m (by simp [hm])
    have hn := ihn fun m hm => h m (by simp [hm])
    cases hextra : n.extra with
    | true =>
      have hleaf := h n (by simp) hextra
      simp [stripAll, preorderAll, preorder_eq, hextra, hleaf, hnodes]
    | false =>
      simp [stripAll, preorderAll, preorder_eq, hextra, hnodes, ← hn, strip_eq]

end ScriptTree.Node
