import Mathlib
import ScriptTree.Proofs.Parsing.Geometry
import ScriptTree.Proofs.Parsing.Grouping
import ScriptTree.Tree.Cursor

/-! Cursors and navigation by node.

A cursor keeps its way with it, and finds siblings by the index that it has kept; navigation by node
looks for the parent and searches its children. `Tree.Trail` is the way that a cursor should have, told
from the tree alone. Every move keeps it (`OnTrail.move`), so the cursor has it after any moves
(`OnTrail.run`), and on it both kinds of navigation agree (`OnTrail.faithful`). `parse_cursor` says this
of every parse. -/
namespace ScriptTree

namespace Tree

/-- The way from a node down to a node below it: the last step, and the steps above. Every step has
the place at which its parent lists it. -/
inductive Trail (t : Tree) (start : Nat) : Step → List Step → Prop
  | start : t.Trail start ⟨start, 0⟩ []
  | down {step : Step} {above : List Step} {child i : Nat} (way : t.Trail start step above)
      (listed : t.child? step.id i = some child) (place : t.place? child = some (step.id, i)) :
      t.Trail start ⟨child, i⟩ (step :: above)

/-- Whether the children of a node that stop after an offset are those from an index on. -/
def StopsAfterFrom (t : Tree) (id offset i : Nat) : Prop :=
  i < t.childCount id ∧ ∀ j, ∀ child ∈ t.child? id j,
    (j < i → (t.node child).span.stop ≤ offset) ∧ (i ≤ j → offset < (t.node child).span.stop)

end Tree

namespace Cursor

/-- A move of a cursor. -/
inductive Move where
  | firstChild
  | nextSibling
  | parent
  | firstChildForByte (offset : Nat)
deriving DecidableEq, Repr

def move? (c : Cursor) : Move → Option Cursor
  | .firstChild => c.firstChild?
  | .nextSibling => c.nextSibling?
  | .parent => c.parent?
  | .firstChildForByte offset => c.firstChildForByte? offset

/-- A move that fails leaves the cursor where it is. -/
def move (c : Cursor) (m : Move) : Cursor := (c.move? m).getD c

def run (c : Cursor) (moves : List Move) : Cursor := moves.foldl move c

/-- The steps of the cursor's way, the current one first. -/
def steps (c : Cursor) : List Step := c.current :: c.above

/-- Whether a cursor that started at a node agrees with navigation by node. -/
structure Faithful (t : Tree) (start : Nat) (c : Cursor) : Prop where
  tree : c.tree = t
  /-- The cursor knows its way. -/
  trail : t.Trail start c.current c.above
  failed : ∀ m, c.move? m = none → c.move m = c
  /-- It is in the subtree of the node at which it started. -/
  below : t.Below start c.id
  depth : c.steps.length = c.depth + 1
  firstChild : c.firstChild?.map steps = (t.child? c.id 0).map fun child => ⟨child, 0⟩ :: c.steps
  nextSibling : c.nextSibling?.map steps = if c.depth = 0 then none else
    (t.nextSibling? c.id).map fun sibling => ⟨sibling, c.current.index + 1⟩ :: c.above
  parent : c.parent?.map (fun d => (d.id, d.steps)) = if c.depth = 0 then none else
    (t.parent? c.id).map fun parent => (parent, c.above)
  field : c.field? = if c.depth = 0 then none else (t.node c.id).field
  /-- The answer is the index of the first child from which on all stop after the offset. -/
  firstChildForByte : ∀ offset i, (c.firstChildForByte? offset).map (·.current.index) = some i ↔
    t.StopsAfterFrom c.id offset i
  /-- It is the child with this index that is entered. -/
  childEntered : ∀ offset, ∀ d ∈ c.firstChildForByte? offset, d.above = c.steps ∧
    t.child? c.id d.current.index = some d.id

end Cursor

/-! ### Places of children -/

section Tree
variable {t : Tree} {id child i : Nat}

theorem Tree.mem_children_of_child? (h : t.child? id i = some child) : child ∈ t.children id :=
  Array.mem_of_getElem? h

theorem Tree.Numbered.nodup_children (numbered : t.Numbered)
    (links : ∀ child ∈ t.children id, 0 < child ∧ child < t.nodeCount) (hid : id < t.nodeCount) :
    (t.children id).toList.Nodup := by
  refine List.nodup_iff_count_le_one.mpr fun child => ?_
  by_cases hchild : child ∈ t.children id
  · obtain ⟨hpos, hlt⟩ := links child hchild
    obtain ⟨parent, -, -, honce, honly⟩ := numbered.parent child hpos hlt
    rw [honly id hid hchild, honce]
  · rw [List.count_eq_zero_of_not_mem (by simpa using hchild)]
    exact Nat.zero_le 1

/-- A child is found where its parent lists it. -/
theorem Tree.place?_of_child? (parent : t.parent? child = some id)
    (nodup : (t.children id).toList.Nodup) (h : t.child? id i = some child) :
    t.place? child = some (id, i) := by
  have hfound : (t.children id).findIdx? (· == child) = some i := by
    obtain ⟨hi, hget⟩ := Array.getElem?_eq_some_iff.mp h
    refine Array.findIdx?_eq_some_iff_getElem.mpr ⟨hi, by simp [hget], fun j hji => ?_⟩
    have hne : (t.children id)[j] ≠ (t.children id)[i] := by
      rw [← Array.getElem_toList, ← Array.getElem_toList]
      exact fun heq => hji.ne (nodup.getElem_inj_iff.mp heq)
    simpa [hget] using hne
  simp [Tree.place?, parent, hfound]

namespace Tree.Trail
variable {start : Nat} {step parent : Step} {above : List Step}

theorem reaches (h : t.Trail start step above) : t.Below start step.id := by
  induction h with
  | start => exact .refl
  | down _ listed _ ih => exact ih.tail (mem_children_of_child? listed)

/-- Without its last step a trail is one to the parent. -/
theorem up (h : t.Trail start step (parent :: above)) :
    t.Trail start parent above ∧ t.child? parent.id step.index = some step.id ∧
      t.place? step.id = some (parent.id, step.index) := by
  cases h with
  | down way listed place => exact ⟨way, listed, place⟩

end Tree.Trail

end Tree

/-! ### Moves -/

/-- What navigation relies on in a tree. -/
structure Linked (t : Tree) : Prop where
  /-- A child is where its parent lists it, and is a node itself. -/
  child : ∀ id < t.nodeCount, ∀ i, ∀ child ∈ t.child? id i,
    child < t.nodeCount ∧ t.place? child = some (id, i)
  /-- Later children stop later. -/
  ordered : ∀ id < t.nodeCount, ∀ i j, i ≤ j → ∀ c ∈ t.child? id i, ∀ d ∈ t.child? id j,
    (t.node c).span.stop ≤ (t.node d).span.stop

theorem Geometry.linked {source : String} {t : Tree} (h : Geometry source t)
    (numbered : t.Numbered) : Linked t := by
  refine ⟨fun id hid i child hchild => ?_, fun id hid i j hij c hc d hd => ?_⟩
  · have hlinks : ∀ child ∈ t.children id, 0 < child ∧ child < t.nodeCount := by
      intro child hmem
      obtain ⟨hlt, hparent⟩ := h.parent id hid child hmem
      refine ⟨Nat.pos_of_ne_zero ?_, hlt⟩
      rintro rfl
      rw [numbered.root.2] at hparent
      cases hparent
    have hmem := Tree.mem_children_of_child? hchild
    obtain ⟨hlt, hparent⟩ := h.parent id hid child hmem
    exact ⟨hlt, Tree.place?_of_child? hparent (numbered.nodup_children hlinks hid) hchild⟩
  · rcases hij.eq_or_lt with rfl | hlt
    · rw [Option.mem_unique hc hd]
    · obtain ⟨hi, rfl⟩ := Array.getElem?_eq_some_iff.mp hc
      obtain ⟨hj, rfl⟩ := Array.getElem?_eq_some_iff.mp hd
      have hapart := List.pairwise_iff_getElem.mp (h.siblings id hid) i j (by simpa using hi)
        (by simpa using hj) hlt
      have hforward := (h.span _ (h.parent id hid _ (Array.getElem_mem hj)).1).1
      simp only [Array.getElem_toList] at hapart
      exact hapart.trans hforward

namespace Cursor
variable {t : Tree} {start : Nat} {c d : Cursor}

/-- Whether a cursor is in a tree and has the trail that leads there. -/
structure OnTrail (t : Tree) (start : Nat) (c : Cursor) : Prop where
  tree : c.tree = t
  trail : t.Trail start c.current c.above
  known : ∀ step ∈ c.steps, step.id < t.nodeCount

theorem onTrail_start (hstart : start < t.nodeCount) : OnTrail t start (.start t start) :=
  ⟨rfl, .start, fun step hstep => by rw [List.mem_singleton.mp hstep]; exact hstart⟩

namespace OnTrail

theorem lt (h : OnTrail t start c) : c.id < t.nodeCount :=
  h.known _ List.mem_cons_self

/-- A child below the last step prolongs the trail. -/
theorem down (h : OnTrail t start c) (links : Linked t) {step : Step} {above : List Step}
    {child i : Nat} (trail : t.Trail start step above)
    (known : ∀ s ∈ step :: above, s.id < t.nodeCount) (hchild : t.child? step.id i = some child) :
    OnTrail t start { c with current := ⟨child, i⟩, above := step :: above } := by
  obtain ⟨hlt, hplace⟩ := links.child step.id (known _ List.mem_cons_self) i child hchild
  exact ⟨h.tree, trail.down hchild hplace, List.forall_mem_cons.mpr ⟨hlt, known⟩⟩

theorem enter (h : OnTrail t start c) (links : Linked t) {child i : Nat}
    (hchild : c.tree.child? c.id i = some child) : OnTrail t start (c.enter child i) :=
  h.down links h.trail h.known (h.tree ▸ hchild)

/-- A move that succeeds leads on along a trail. -/
theorem of_move? (h : OnTrail t start c) (links : Linked t) {m : Move} (hm : c.move? m = some d) :
    OnTrail t start d := by
  cases m with
  | firstChild =>
    obtain ⟨child, hchild, rfl⟩ := Option.map_eq_some_iff.mp hm
    exact h.enter links hchild
  | nextSibling =>
    obtain ⟨step, hstep, hm⟩ := Option.bind_eq_some_iff.mp hm
    obtain ⟨sibling, hsibling, hd⟩ := Option.bind_eq_some_iff.mp hm
    obtain ⟨above, habove⟩ := List.head?_eq_some_iff.mp hstep
    obtain rfl := Option.some.inj hd
    have hknown : ∀ s ∈ step :: above, s.id < t.nodeCount :=
      fun s hs => h.known s (List.mem_cons_of_mem _ (habove ▸ hs))
    rw [habove]
    exact h.down links (habove ▸ h.trail).up.1 hknown (h.tree ▸ hsibling)
  | parent =>
    rcases hc : c.above with _ | ⟨step, above⟩
    · simp [move?, parent?, hc] at hm
    · simp only [move?, parent?, hc, Option.some.injEq] at hm
      subst hm
      exact ⟨h.tree, (hc ▸ h.trail).up.1,
        fun s hs => h.known s (List.mem_cons_of_mem _ (hc ▸ hs))⟩
  | firstChildForByte offset =>
    obtain ⟨i, -, hm⟩ := Option.bind_eq_some_iff.mp hm
    obtain ⟨child, hchild, hd⟩ := Option.bind_eq_some_iff.mp hm
    obtain rfl := Option.some.inj hd
    exact h.enter links hchild

theorem move (h : OnTrail t start c) (links : Linked t) (m : Move) :
    OnTrail t start (c.move m) := by
  rw [Cursor.move]
  cases hm : c.move? m with
  | none => exact h
  | some d => exact h.of_move? links hm

theorem run (h : OnTrail t start c) (links : Linked t) (moves : List Move) :
    OnTrail t start (c.run moves) := by
  induction moves generalizing c with
  | nil => exact h
  | cons m moves ih => exact ih (h.move links m)

/-! ### Agreement -/

theorem nextSibling (h : OnTrail t start c) : c.nextSibling?.map steps =
    if c.depth = 0 then none else
      (t.nextSibling? c.id).map fun sibling => ⟨sibling, c.current.index + 1⟩ :: c.above := by
  rcases hc : c.above with _ | ⟨parent, above⟩
  · simp [nextSibling?, depth, hc]
  · have hplace : t.place? c.id = some (parent.id, c.current.index) := (hc ▸ h.trail).up.2.2
    cases hnext : t.child? parent.id (c.current.index + 1) <;>
      simp [nextSibling?, Tree.nextSibling?, depth, steps, hc, h.tree, hplace, hnext]

theorem parent (h : OnTrail t start c) : c.parent?.map (fun d => (d.id, d.steps)) =
    if c.depth = 0 then none else (t.parent? c.id).map fun parent => (parent, c.above) := by
  rcases hc : c.above with _ | ⟨parent, above⟩
  · simp [parent?, depth, hc]
  · have hplace : t.place? c.id = some (parent.id, c.current.index) := (hc ▸ h.trail).up.2.2
    obtain ⟨p, hparent, hfound⟩ := Option.bind_eq_some_iff.mp hplace
    obtain ⟨i, -, hpair⟩ := Option.bind_eq_some_iff.mp hfound
    obtain ⟨rfl, -⟩ := Prod.mk.inj (Option.some.inj hpair)
    rw [Cursor.id] at hparent
    simp [parent?, depth, steps, Cursor.id, hc, hparent]

/-- The index that is found is that of the child that is entered. -/
theorem index_firstChildForByte (h : OnTrail t start c) (offset : Nat) :
    (c.firstChildForByte? offset).map (·.current.index) =
      (t.children c.id).findIdx? fun child => offset < (t.node child).span.stop := by
  rw [firstChildForByte?, h.tree]
  cases hfound : (t.children c.id).findIdx? fun child => offset < (t.node child).span.stop with
  | none => rfl
  | some i =>
    obtain ⟨hi, -⟩ := Array.findIdx?_eq_some_iff_getElem.mp hfound
    have hchild : t.child? c.id i = some (t.children c.id)[i] := Array.getElem?_eq_getElem hi
    simp [hchild, Cursor.enter]

/-- Stops of children only grow, so all children from the first one found on stop later, too. -/
theorem firstChildForByte (h : OnTrail t start c) (links : Linked t) (offset i : Nat) :
    (c.firstChildForByte? offset).map (·.current.index) = some i ↔
      t.StopsAfterFrom c.id offset i := by
  rw [h.index_firstChildForByte, Array.findIdx?_eq_some_iff_getElem]
  constructor
  · rintro ⟨hi, hfound, hbefore⟩
    have hchild : t.child? c.id i = some (t.children c.id)[i] := Array.getElem?_eq_getElem hi
    refine ⟨hi, fun j child hj => ⟨fun hji => ?_, fun hij => ?_⟩⟩
    · obtain ⟨-, rfl⟩ := Array.getElem?_eq_some_iff.mp hj
      exact Nat.not_lt.mp fun hlt => hbefore j hji (decide_eq_true hlt)
    · exact (of_decide_eq_true hfound).trans_le
        (links.ordered c.id h.lt i j hij _ hchild child hj)
  · rintro ⟨hi, hstops⟩
    refine ⟨hi, decide_eq_true ((hstops i _ (Array.getElem?_eq_getElem hi)).2 le_rfl),
      fun j hji hfound => ?_⟩
    have hstop := (hstops j _ (Array.getElem?_eq_getElem (hji.trans hi))).1 hji
    exact Nat.not_lt.mpr hstop (of_decide_eq_true hfound)

theorem faithful (h : OnTrail t start c) (links : Linked t) : Faithful t start c where
  tree := h.tree
  trail := h.trail
  failed := fun m hm => by rw [Cursor.move, hm, Option.getD_none]
  below := h.trail.reaches
  depth := rfl
  firstChild := by
    rw [firstChild?, h.tree, Option.map_map]
    rfl
  nextSibling := h.nextSibling
  parent := h.parent
  field := by
    cases hc : c.above <;> simp [field?, depth, hc, node, h.tree]
  firstChildForByte := h.firstChildForByte links
  childEntered := by
    intro offset d hd
    obtain ⟨i, -, hm⟩ := Option.bind_eq_some_iff.mp hd
    obtain ⟨child, hchild, hd⟩ := Option.bind_eq_some_iff.mp hm
    obtain rfl := Option.some.inj hd
    exact ⟨rfl, h.tree ▸ hchild⟩

end OnTrail

end Cursor

/-- Wherever moves take a cursor in a parse, it agrees with navigation by node. -/
theorem parse_cursor (source : String) (options : ParseOptions) (start : Nat)
    (hstart : start < (parse source options).nodeCount) (moves : List Cursor.Move) :
    ((Cursor.start (parse source options) start).run moves).Faithful
      (parse source options) start := by
  have hlinked := (parse_geometry source options).linked (parse_numbered source options).2
  exact ((Cursor.onTrail_start hstart).run hlinked moves).faithful hlinked

/-- Along the arguments of a call; the last parenthesis has no child, so the cursor stays at it until
it goes up. -/
theorem parse_cursor_into_call :
    1 < (parse "f(a);" {}).nodeCount ∧
      ((Cursor.start (parse "f(a);" {}) 1).run
        [.firstChild, .firstChildForByte 1, .firstChildForByte 1, .nextSibling, .nextSibling,
          .firstChild, .parent]).Faithful (parse "f(a);" {}) 1 := by
  have hstart : 1 < (parse "f(a);" {}).nodeCount := by decide +kernel
  exact ⟨hstart, parse_cursor "f(a);" {} 1 hstart _⟩

end ScriptTree
