import Mathlib
import ScriptTree.Proofs.Tree.Preorder
import ScriptTree.Tree.Navigation

/-! The numbers of the nodes in a tree.

`subtree complete first parent n` is what the entries of the subtree under `n` are in the end, when
they are numbered from `first` on: the node's own entry, and then those of its children one subtree
after the other. Numbering makes these entries without counts (`number_eq`), reporting fills them in
(`report_eq`), and so the entries of a tree are the complete ones of its root (`ofRoot_eq`). -/
namespace ScriptTree

namespace Entry

/-- The numbers of siblings whose subtrees are numbered from `first` on. -/
def childIds (first : Nat) : List Node → List Nat
  | [] => []
  | n :: nodes => first :: childIds (first + n.count) nodes

/-- An entry before anything has been reported to it. -/
def fresh (first : Nat) (parent : Option Nat) (n : Node) : Entry :=
  ⟨n, parent, (childIds (first + 1) n.children).toArray, 1, n.isDamaged⟩

/-- A complete entry. -/
def complete (first : Nat) (parent : Option Nat) (n : Node) : Entry :=
  ⟨n, parent, (childIds (first + 1) n.children).toArray, n.count, n.holdsDamage⟩

mutual

/-- The entries of a subtree numbered from `first` on, each made by `entry`. -/
def subtree (entry : Nat → Option Nat → Node → Entry) (first : Nat) (parent : Option Nat) :
    Node → List Entry
  | ⟨symbol, span, field, missing, extra, children⟩ =>
    entry first parent ⟨symbol, span, field, missing, extra, children⟩ ::
      subtrees entry (first + 1) (some first) children

/-- The entries of sibling subtrees numbered from `first` on. -/
def subtrees (entry : Nat → Option Nat → Node → Entry) (first : Nat) (parent : Option Nat) :
    List Node → List Entry
  | [] => []
  | n :: nodes => subtree entry first parent n ++ subtrees entry (first + n.count) parent nodes

end

section Subtrees
variable (entry : Nat → Option Nat → Node → Entry) (first : Nat) (parent : Option Nat)

theorem subtree_eq (n : Node) : subtree entry first parent n =
    entry first parent n :: subtrees entry (first + 1) (some first) n.children := by
  cases n; rw [subtree]

theorem length_subtrees (nodes : List Node) :
    (subtrees entry first parent nodes).length = Node.countAll nodes := by
  induction nodes using Node.forest_induction generalizing first parent with
  | nil => rfl
  | cons n nodes ihn ih =>
    rw [subtrees, subtree_eq, List.length_append, List.length_cons, ihn, ih, Node.countAll,
      Node.count_eq]

theorem length_subtree (n : Node) : (subtree entry first parent n).length = n.count := by
  rw [subtree_eq, List.length_cons, length_subtrees, Node.count_eq]

theorem subtrees_append (a b : List Node) : subtrees entry first parent (a ++ b) =
    subtrees entry first parent a ++ subtrees entry (first + Node.countAll a) parent b := by
  induction a generalizing first with
  | nil => rfl
  | cons n a ih =>
    rw [List.cons_append, subtrees, subtrees, ih, List.append_assoc, Node.countAll, Nat.add_assoc]

end Subtrees

/-! ### Numbering -/

/-- The entry of a parent with more children. -/
def linkAll (ids : List Nat) (e : Entry) : Entry :=
  { e with children := e.children ++ ids.toArray }

section AtParent
variable {entries more : Array Entry} {parent : Option Nat} {f g : Entry → Entry}

theorem size_atParent : (atParent entries parent f).size = entries.size := by
  cases parent <;> simp [atParent]

/-- A parent among the first entries is all that changes. -/
theorem atParent_append (hparent : ∀ p ∈ parent, p < entries.size) :
    atParent (entries ++ more) parent f = atParent entries parent f ++ more := by
  cases parent with
  | none => rfl
  | some p =>
    have hp := hparent p rfl
    refine Array.ext (by simp [atParent]) fun i _ _ => ?_
    simp only [atParent, Array.getElem_modify, Array.getElem_append, Array.size_modify]
    split <;> split <;> first | rfl | omega

theorem atParent_last (entries : Array Entry) (f : Entry → Entry) (e : Entry) :
    atParent (entries ++ #[e]) (some entries.size) f = entries ++ #[f e] := by
  refine Array.ext (by simp [atParent]) fun i _ hi => ?_
  have hi : i < entries.size + 1 := by simpa using hi
  simp only [atParent, Array.getElem_modify, Array.getElem_append]
  split <;> split <;> first | omega | simp

theorem atParent_atParent :
    atParent (atParent entries parent f) parent g = atParent entries parent (g ∘ f) := by
  cases parent with
  | none => rfl
  | some p =>
    refine Array.ext (by simp [atParent]) fun i _ _ => ?_
    simp only [atParent, Array.getElem_modify]
    split <;> rfl

theorem atParent_id : atParent entries parent id = entries := by
  cases parent with
  | none => rfl
  | some p =>
    refine Array.ext (by simp [atParent]) fun i _ _ => ?_
    simp [atParent, Array.getElem_modify]

end AtParent

theorem linkAll_ofNode (first : Nat) (parent : Option Nat) (n : Node) :
    linkAll (childIds (first + 1) n.children) (ofNode parent n) = fresh first parent n := by
  simp [linkAll, ofNode, fresh]

theorem linkAll_comp_link (ids : List Nat) (id : Nat) : linkAll ids ∘ link id = linkAll (id :: ids) :=
  funext fun e => by
    simp only [Function.comp, linkAll, link, Entry.mk.injEq, true_and, and_true]
    exact Array.ext' (by simp)

/-- Numbering sibling subtrees makes their entries and links the siblings to their parent. -/
theorem number_eq (nodes : List Node) (entries : Array Entry) (parent : Option Nat)
    (hparent : ∀ p ∈ parent, p < entries.size) (rest : List (Option Nat × Node)) :
    number entries (nodes.map (fun n => (parent, n)) ++ rest) =
      number (atParent entries parent (linkAll (childIds entries.size nodes)) ++
        (subtrees fresh entries.size parent nodes).toArray) rest := by
  induction nodes using Node.forest_induction generalizing entries parent rest with
  | nil =>
    have hnone : linkAll [] = id := funext fun e => by simp [linkAll]
    simp [childIds, subtrees, hnone, atParent_id]
  | cons n nodes ihn ih =>
    have hlinked : atParent (entries.push (ofNode parent n)) parent (link entries.size) =
        atParent entries parent (link entries.size) ++ #[ofNode parent n] := by
      rw [Array.push_eq_append, atParent_append hparent]
    have hlast := atParent_last (atParent entries parent (link entries.size))
      (linkAll (childIds (entries.size + 1) n.children)) (ofNode parent n)
    rw [size_atParent] at hlast
    rw [List.map_cons, List.cons_append, number, hlinked, ihn _ _ (by simp [size_atParent])]
    simp only [Array.size_append, size_atParent, List.size_toArray, List.length_singleton]
    rw [hlast, linkAll_ofNode]
    have hsubtree : atParent entries parent (link entries.size) ++ #[fresh entries.size parent n] ++
        (subtrees fresh (entries.size + 1) (some entries.size) n.children).toArray =
        atParent entries parent (link entries.size) ++
          (subtree fresh entries.size parent n).toArray := by
      rw [subtree_eq]
      simp
    rw [hsubtree, ih _ _ (fun p hp => by have := hparent p hp; simp [size_atParent]; omega),
      atParent_append (fun p hp => by have := hparent p hp; simp [size_atParent]; omega),
      atParent_atParent]
    simp only [Array.size_append, size_atParent, List.size_toArray, length_subtree]
    rw [linkAll_comp_link, childIds, subtrees]
    simp

/-! ### Reporting -/

/-- The entry of a parent to which all nodes of a list have reported. -/
def absorbAll (nodes : List Node) (e : Entry) : Entry :=
  { e with
    count := e.count + Node.countAll nodes
    hasError := e.hasError || (Node.preorderAll nodes).any Node.isDamaged }

theorem absorbAll_fresh (first : Nat) (parent : Option Nat) (n : Node) :
    absorbAll n.children (fresh first parent n) = complete first parent n := by
  simp [absorbAll, fresh, complete, Node.holdsDamage_eq, Node.count_eq, Nat.add_comm]

theorem absorb_comp_absorbAll (first : Nat) (parent : Option Nat) (n : Node) (nodes : List Node) :
    absorb (complete first parent n) ∘ absorbAll nodes = absorbAll (n :: nodes) :=
  funext fun e => by
    simp only [Function.comp, absorb, absorbAll, complete, Node.countAll, Node.preorderAll,
      List.any_append, Node.holdsDamage, Entry.mk.injEq, true_and]
    exact ⟨by omega, by rw [Bool.or_assoc, Bool.or_comm (List.any _ _)]⟩

/-- The report of one entry. -/
theorem report_succ (entries more : Array Entry) (e : Entry)
    (hparent : ∀ p ∈ e.parent, p < entries.size) :
    report (entries.size + 1) (entries ++ #[e] ++ more) =
      report entries.size (atParent entries e.parent (absorb e) ++ #[e] ++ more) := by
  have he : (entries ++ #[e] ++ more)[entries.size]? = some e := by
    rw [Array.append_assoc, Array.getElem?_append_right (Nat.le_refl _), Nat.sub_self]
    simp
  rw [report, he]
  dsimp only
  rw [Array.append_assoc, atParent_append hparent, ← Array.append_assoc]

/-- Reports of sibling subtrees, from the last entry to the first. -/
theorem report_eq (nodes : List Node) (entries : Array Entry) (parent : Option Nat)
    (hparent : ∀ p ∈ parent, p < entries.size) (more : Array Entry) :
    report (entries.size + Node.countAll nodes)
        (entries ++ (subtrees fresh entries.size parent nodes).toArray ++ more) =
      report entries.size (atParent entries parent (absorbAll nodes) ++
        (subtrees complete entries.size parent nodes).toArray ++ more) := by
  induction nodes using Node.forest_induction generalizing entries parent more with
  | nil =>
    have hnone : absorbAll [] = id := funext fun e => by simp [absorbAll, Node.countAll, Node.preorderAll]
    simp [subtrees, Node.countAll, hnone, atParent_id]
  | cons n nodes ihn ih =>
    have hlt : ∀ p ∈ parent, p < entries.size + n.count :=
      fun p hp => (hparent p hp).trans_le (Nat.le_add_right _ _)
    set linked := atParent entries parent (absorbAll nodes) with hlinked
    have hsize : linked.size = entries.size := size_atParent
    set later := (subtrees complete (entries.size + n.count) parent nodes).toArray
    have hlater := ih (entries ++ (subtree fresh entries.size parent n).toArray) parent
      (by simpa [length_subtree] using hlt) more
    simp only [Array.size_append, List.size_toArray, length_subtree] at hlater
    rw [atParent_append hparent, ← hlinked] at hlater
    have hbelow := ihn (linked ++ #[fresh entries.size parent n]) (some entries.size)
      (fun p hp => by cases hp; simp [hsize]) (later ++ more)
    have hlast := atParent_last linked (absorbAll n.children) (fresh entries.size parent n)
    simp only [Array.size_append, List.size_toArray, List.length_singleton, hsize] at hbelow hlast
    rw [hlast, absorbAll_fresh] at hbelow
    have hself := report_succ linked
      ((subtrees complete (entries.size + 1) (some entries.size) n.children).toArray ++
        (later ++ more)) (complete entries.size parent n) (by rwa [hsize])
    rw [hsize] at hself
    calc report (entries.size + Node.countAll (n :: nodes))
          (entries ++ (subtrees fresh entries.size parent (n :: nodes)).toArray ++ more)
        = report (entries.size + n.count + Node.countAll nodes)
            (entries ++ (subtree fresh entries.size parent n).toArray ++
              (subtrees fresh (entries.size + n.count) parent nodes).toArray ++ more) := by
          rw [Node.countAll, subtrees, ← Nat.add_assoc]
          simp
      _ = report (entries.size + n.count)
            (linked ++ (subtree fresh entries.size parent n).toArray ++ later ++ more) := hlater
      _ = report (entries.size + 1 + Node.countAll n.children)
            (linked ++ #[fresh entries.size parent n] ++
              (subtrees fresh (entries.size + 1) (some entries.size) n.children).toArray ++
              (later ++ more)) := by
          rw [subtree_eq, Node.count_eq n, Nat.add_assoc, Nat.add_comm 1]
          simp
      _ = report (entries.size + 1)
            (linked ++ #[complete entries.size parent n] ++
              (subtrees complete (entries.size + 1) (some entries.size) n.children).toArray ++
              (later ++ more)) := hbelow
      _ = report entries.size
            (atParent linked parent (absorb (complete entries.size parent n)) ++
              #[complete entries.size parent n] ++
              ((subtrees complete (entries.size + 1) (some entries.size) n.children).toArray ++
                (later ++ more))) :=
          (congrArg (report _) Array.append_assoc).trans hself
      _ = _ := by
          rw [hlinked, atParent_atParent, absorb_comp_absorbAll, subtrees, subtree_eq]
          exact congrArg (report _) (Array.ext' (by simp [later]))

theorem number_root (root : Node) : number #[] [(none, root)] = (subtree fresh 0 none root).toArray := by
  have := number_eq [root] #[] none (fun _ hp => nomatch hp) []
  simpa [atParent, subtrees, number] using this

/-- The entries of a tree are the complete entries of its nodes in preorder. -/
theorem ofRoot_eq (root : Node) : ofRoot root = (subtree complete 0 none root).toArray := by
  have hreport := report_eq [root] #[] none (fun _ hp => nomatch hp) #[]
  have hcount : Node.countAll [root] = root.count := by simp [Node.countAll]
  simp only [atParent, subtrees, List.append_nil, hcount, Array.append_empty, Array.empty_append,
    Array.size_empty, Nat.zero_add] at hreport
  rw [ofRoot, number_root, List.size_toArray, length_subtree, hreport]
  rfl

end Entry

end ScriptTree
