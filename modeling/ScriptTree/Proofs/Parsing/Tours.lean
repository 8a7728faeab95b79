import Mathlib
import ScriptTree.Proofs.Parsing.Outcome
import ScriptTree.Proofs.Tree.Walking
import ScriptTree.Tree.Cursor

/-! Tours of a cursor.

A cursor that is stepped on goes to the first child, and from a node without children to the nearest
next sibling on its way up. It keeps its way as a stack of indexes and knows neither the numbers of the
nodes nor the sizes of subtrees. Still, from the last node of a subtree it climbs on as from the top of
it (`Sits.tour`), so subtrees are toured one after the other, and a tour of a node meets the numbers of
its subtree in order and ends where it began (`parse_toured`). -/
namespace ScriptTree

namespace Cursor

/-- The numbers that a cursor meets when it is stepped on until it cannot go on, and the cursor in the
end. -/
inductive Visits : Cursor → List Nat → Cursor → Prop
  | last {c d : Cursor} (stays : c.next = (d, false)) : Visits c [c.id] d
  | more {c d e : Cursor} {ids : List Nat} (moves : c.next = (d, true)) (rest : Visits d ids e) :
      Visits c (c.id :: ids) e

/-- The numbers that a cursor meets on its way to another place, which is the last of them. -/
inductive Passes : Cursor → List Nat → Cursor → Prop
  | here {c : Cursor} : Passes c [c.id] c
  | more {c d e : Cursor} {ids : List Nat} (moves : c.next = (d, true)) (rest : Passes d ids e) :
      Passes c (c.id :: ids) e

namespace Passes
variable {c d e f : Cursor} {ids more : List Nat}

theorem append (h : Passes c ids d) (moves : d.next = (e, true)) (rest : Passes e more f) :
    Passes c (ids ++ more) f := by
  induction h with
  | here => exact .more moves rest
  | more moves' _ ih => exact .more moves' (ih moves)

theorem visits (h : Passes c ids d) (stays : d.next = (e, false)) : Visits c ids e := by
  induction h with
  | here => exact .last stays
  | more moves _ ih => exact .more moves (ih stays)

end Passes

/-! ### Single steps -/

section Steps
variable {c d : Cursor}

theorem next_of_child (h : c.firstChild? = some d) : c.next = (d, true) := by
  rw [next, h]

theorem next_of_leaf (h : c.firstChild? = none) : c.next = c.climb := by
  rw [next, h]

theorem climb_of_sibling (h : c.nextSibling? = some d) : c.climb = (d, true) := by
  rw [climb.eq_def, h]

/-- Without a next sibling a cursor climbs on from the parent. -/
theorem climb_of_parent (h : c.nextSibling? = none) (hparent : c.parent? = some d) :
    c.climb = d.climb := by
  obtain ⟨tree, current, above⟩ := c
  cases above with
  | nil => cases hparent
  | cons step above =>
    obtain rfl := Option.some.inj hparent
    rw [climb, h]

theorem climb_start (tree : Tree) (current : Step) :
    climb ⟨tree, current, []⟩ = (⟨tree, current, []⟩, false) := by
  rw [climb]
  rfl

end Steps

end Cursor

/-! ### Tours of subtrees -/

section Tour
variable {root n : Node} {id : Nat} {parent : Option Nat} {source : String}
  {problems : List Problem} {t : Tree} {c : Cursor}

open Cursor

/-- A cursor at a node enters the first child. -/
theorem Sits.firstChild (hc : c.tree = .ofRoot source root problems) (h : Sits root c.id parent n) :
    c.firstChild? = n.children.head?.map fun _ => c.enter (c.id + 1) 0 := by
  rw [firstChild?, hc, h.child?_eq, List.head?_eq_getElem?, Option.map_map]
  rfl

/-- A node is toured by way of its children, if these are. -/
theorem Sits.tour_of_children (hc : c.tree = .ofRoot source root problems) (h : Sits root c.id parent n)
    (below : n.children ≠ [] → ∃ d, Passes (c.enter (c.id + 1) 0)
      (List.range' (c.id + 1) (Node.countAll n.children)) d ∧ d.next = c.climb) :
    ∃ d, Passes c (List.range' c.id n.count) d ∧ d.next = c.climb := by
  have hfirst := h.firstChild hc
  rw [Node.count_eq, List.range'_succ]
  cases hchildren : n.children with
  | nil =>
    rw [hchildren] at hfirst
    exact ⟨c, .here, next_of_leaf hfirst⟩
  | cons m nodes =>
    rw [hchildren] at hfirst
    obtain ⟨d, hpasses, hnext⟩ := below (by simp [hchildren])
    rw [hchildren] at hpasses
    exact ⟨d, .more (next_of_child hfirst) hpasses, hnext⟩

/-- A cursor goes through siblings from one of them on, and climbs on as from their parent. -/
theorem Sits.tour_siblings {top : Node} {step : Step} {above : List Step} (nodes before : List Node)
    (htop : Sits root step.id parent top) (hchildren : top.children = before ++ nodes)
    (hnodes : nodes ≠ []) :
    ∃ d, Passes ⟨.ofRoot source root problems,
        ⟨step.id + 1 + Node.countAll before, before.length⟩, step :: above⟩
      (List.range' (step.id + 1 + Node.countAll before) (Node.countAll nodes)) d ∧
      d.next = climb ⟨.ofRoot source root problems, step, above⟩ := by
  induction nodes using Node.forest_induction generalizing before top step above parent with
  | nil => exact absurd rfl hnodes
  | cons n nodes ihn ih =>
    set c : Cursor := ⟨.ofRoot source root problems,
      ⟨step.id + 1 + Node.countAll before, before.length⟩, step :: above⟩ with hc
    have hn : Sits root c.id (some step.id) n := htop.child hchildren
    obtain ⟨d, hpasses, hnext⟩ := hn.tour_of_children rfl fun hbelow => ihn [] hn rfl hbelow
    have hsibling : (Tree.ofRoot source root problems).child? step.id (before.length + 1) =
        nodes.head?.map fun _ => step.id + 1 + Node.countAll (before ++ [n]) := by
      rw [htop.child?_eq, hchildren, List.getElem?_append_right (Nat.le_succ _),
        Nat.succ_sub (Nat.le_refl _), Nat.sub_self, List.head?_eq_getElem?,
        show before ++ n :: nodes = before ++ [n] ++ nodes by simp, List.take_left' (by simp)]
      rfl
    cases nodes with
    | nil =>
      have hlast : c.nextSibling? = none := by simp [nextSibling?, hc, hsibling]
      rw [Node.countAll, Node.countAll, Nat.add_zero]
      exact ⟨d, hpasses, hnext.trans (climb_of_parent hlast rfl)⟩
    | cons m nodes =>
      have hcount : Node.countAll (before ++ [n]) = Node.countAll before + n.count := by
        rw [Node.countAll_append, Node.countAll, Node.countAll, Nat.add_zero]
      have hmove : c.nextSibling? = some ⟨.ofRoot source root problems,
          ⟨step.id + 1 + Node.countAll (before ++ [n]), (before ++ [n]).length⟩, step :: above⟩ := by
        simp [nextSibling?, hc, hsibling]
      obtain ⟨e, hrest, hend⟩ := ih (before ++ [n]) htop (by simp [hchildren]) (List.cons_ne_nil _ _)
      refine ⟨e, ?_, hend⟩
      rw [Node.countAll, ← List.range'_append_1, Nat.add_assoc _ (Node.countAll before), ← hcount]
      exact hpasses.append (hnext.trans (climb_of_sibling hmove)) hrest

/-- A tour of a node meets the numbers of its subtree. -/
theorem Sits.tour (h : Sits root id parent n) :
    (Cursor.start (.ofRoot source root problems) id).Visits (List.range' id n.count)
      (Cursor.start (.ofRoot source root problems) id) := by
  obtain ⟨d, hpasses, hnext⟩ := @Sits.tour_of_children _ _ _ source problems
    (Cursor.start (.ofRoot source root problems) id) rfl h
    fun hchildren => @Sits.tour_siblings _ _ source problems _ ⟨id, 0⟩ [] n.children [] h rfl hchildren
  exact hpasses.visits (hnext.trans (climb_start _ _))

end Tour

/-- **A cursor that is stepped on from a node of a parse visits the node and everything below it once, in
preorder**, and is back where it started in the end. -/
theorem parse_toured (source : String) (options : ParseOptions) {id : Nat}
    (hid : id < (parse source options).nodeCount) :
    (Cursor.start (parse source options) id).Visits
      (List.range' id ((parse source options).descendantCount id))
      (Cursor.start (parse source options) id) := by
  have htour (root : Node) (problems : List Problem)
      (hid : id < (Tree.ofRoot source root problems).nodeCount) :
      (Cursor.start (.ofRoot source root problems) id).Visits
        (List.range' id ((Tree.ofRoot source root problems).descendantCount id))
        (Cursor.start (.ofRoot source root problems) id) := by
    rw [nodeCount_ofRoot] at hid
    obtain ⟨parent, n, hn⟩ := Sits.exists_of_lt hid
    rw [hn.descendantCount_eq]
    exact hn.tour
  rcases parse_cases source options with h | ⟨limit, h⟩ <;>
  · rw [h] at hid ⊢
    exact htour _ _ hid

/-- From a list of arguments, the cursor stays in the list. -/
theorem parse_toured_arguments : 5 < (parse "f(a);" {}).nodeCount ∧
    (Cursor.start (parse "f(a);" {}) 5).Visits [5, 6, 7, 8, 9] (Cursor.start (parse "f(a);" {}) 5) := by
  have hid : 5 < (parse "f(a);" {}).nodeCount := by decide +kernel
  have hids : List.range' 5 ((parse "f(a);" {}).descendantCount 5) = [5, 6, 7, 8, 9] := by
    decide +kernel
  exact ⟨hid, hids ▸ parse_toured "f(a);" {} hid⟩

end ScriptTree
