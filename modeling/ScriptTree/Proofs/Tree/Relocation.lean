import Mathlib
import ScriptTree.Proofs.Tree.Attachment
import ScriptTree.Proofs.Tree.Numbering
import ScriptTree.Tree.Text

/-! Trees of which only the offsets are moved.

`Node.relocate place` moves every offset of a subtree by the function `place`. What a node is made
of its children goes along with that as long as offsets keep their order (`relocate_ofChildren`), and
so does putting comments in if different offsets stay different (`relocate_attachAll`). Numbers,
links, damage and the S-expression stay as they are. -/
namespace ScriptTree

def Span.relocate (place : Nat → Nat) (s : Span) : Span := ⟨place s.start, place s.stop⟩

namespace Span
variable {place : Nat → Nat}

theorem relocate_empty (place : Nat → Nat) (offset : Nat) :
    (empty offset).relocate place = empty (place offset) := rfl

theorem relocate_merge (hmono : Monotone place) (a b : Span) :
    (a.merge b).relocate place = (a.relocate place).merge (b.relocate place) := by
  simp only [relocate, merge, hmono.map_min, hmono.map_max]

theorem relocate_id (s : Span) : s.relocate id = s := rfl

theorem relocate_inj (hmono : StrictMono place) {a b : Span} :
    a.relocate place = b.relocate place ↔ a = b := by
  cases a; cases b
  simp [relocate, hmono.injective.eq_iff]

end Span

def Problem.relocate (place : Nat → Nat) (p : Problem) : Problem :=
  { p with span := p.span.relocate place }

namespace Node

mutual

/-- The subtree with every offset moved. -/
def relocate (place : Nat → Nat) : Node → Node
  | ⟨symbol, span, field, missing, extra, children⟩ =>
    ⟨symbol, span.relocate place, field, missing, extra, relocateAll place children⟩

def relocateAll (place : Nat → Nat) : List Node → List Node
  | [] => []
  | n :: nodes => n.relocate place :: relocateAll place nodes

end

section Relocate
variable {place : Nat → Nat}

theorem relocateAll_eq (place : Nat → Nat) (nodes : List Node) :
    relocateAll place nodes = nodes.map (relocate place) := by
  induction nodes with
  | nil => rfl
  | cons n nodes ih => rw [relocateAll, ih, List.map_cons]

theorem relocate_eq (place : Nat → Nat) (n : Node) : n.relocate place =
    { n with span := n.span.relocate place, children := n.children.map (relocate place) } := by
  cases n
  rw [relocate, relocateAll_eq]

/-! ### Parts of a node -/

@[simp]
theorem relocate_symbol (place : Nat → Nat) (n : Node) : (n.relocate place).symbol = n.symbol := by
  rw [relocate_eq]

@[simp]
theorem relocate_span (place : Nat → Nat) (n : Node) :
    (n.relocate place).span = n.span.relocate place := by
  rw [relocate_eq]

@[simp]
theorem relocate_field (place : Nat → Nat) (n : Node) : (n.relocate place).field = n.field := by
  rw [relocate_eq]

@[simp]
theorem relocate_missing (place : Nat → Nat) (n : Node) :
    (n.relocate place).missing = n.missing := by
  rw [relocate_eq]

@[simp]
theorem relocate_extra (place : Nat → Nat) (n : Node) : (n.relocate place).extra = n.extra := by
  rw [relocate_eq]

@[simp]
theorem relocate_children (place : Nat → Nat) (n : Node) :
    (n.relocate place).children = n.children.map (relocate place) := by
  rw [relocate_eq]

@[simp]
theorem relocate_kind? (place : Nat → Nat) (n : Node) : (n.relocate place).kind? = n.kind? := by
  rw [kind?, kind?, relocate_symbol]

@[simp]
theorem relocate_isDamaged (place : Nat → Nat) (n : Node) :
    (n.relocate place).isDamaged = n.isDamaged := by
  rw [isDamaged, isDamaged, isError, isError, relocate_missing, relocate_symbol]

/-- New children of a moved node are those of the node, moved. -/
theorem relocate_withChildren (place : Nat → Nat) (n : Node) (children : List Node) :
    { n with children := children : Node }.relocate place =
      { n.relocate place with children := children.map (relocate place) } := by
  rw [relocate_eq, relocate_eq]

theorem relocate_id (n : Node) : n.relocate id = n := by
  have hall (nodes : List Node) : relocateAll id nodes = nodes := by
    induction nodes using forest_induction with
    | nil => rfl
    | cons n nodes ihn ih =>
      rw [relocateAll_eq] at ihn
      rw [relocateAll, ih, relocate_eq, ihn, Span.relocate_id]
      cases n
      rfl
  have := hall [n]
  rw [relocateAll, relocateAll] at this
  exact (List.cons.inj this).1

theorem map_relocate_id (nodes : List Node) : nodes.map (relocate id) = nodes := by
  rw [show relocate id = id from funext relocate_id, List.map_id]

/-! ### Making nodes -/

theorem relocate_leaf (place : Nat → Nat) (symbol : Symbol) (span : Span) :
    (leaf symbol span).relocate place = leaf symbol (span.relocate place) := by
  rw [relocate_eq]
  rfl

theorem relocate_absent (place : Nat → Nat) (symbol : Symbol) (offset : Nat) :
    (absent symbol offset).relocate place = absent symbol (place offset) := by
  rw [relocate_eq]
  rfl

theorem relocate_withField (place : Nat → Nat) (n : Node) (field : Field) :
    (n.withField field).relocate place = (n.relocate place).withField field := by
  rw [relocate_eq, relocate_eq, withField, withField]

theorem relocate_cover (hmono : Monotone place) {nodes : List Node} (hne : nodes ≠ []) :
    (cover nodes).relocate place = cover (nodes.map (relocate place)) := by
  have hfold (nodes : List Node) (span : Span) :
      (nodes.foldl (fun span child => span.merge child.span) span).relocate place =
        (nodes.map (relocate place)).foldl (fun span child => span.merge child.span)
          (span.relocate place) := by
    induction nodes generalizing span with
    | nil => rfl
    | cons n nodes ih =>
      rw [List.foldl_cons, ih, List.map_cons, List.foldl_cons, Span.relocate_merge hmono,
        relocate_span]
  cases nodes with
  | nil => exact absurd rfl hne
  | cons n nodes => rw [cover, hfold, List.map_cons, cover, relocate_span]

theorem relocate_ofChildren (hmono : Monotone place) {kind : NodeKind} {children : List Node}
    (hne : children ≠ []) : (ofChildren kind children).relocate place =
      ofChildren kind (children.map (relocate place)) := by
  rw [relocate_eq, ofChildren, ofChildren, relocate_cover hmono hne]

/-! ### Whole subtrees -/

theorem countAll_map_relocate (place : Nat → Nat) (nodes : List Node) :
    countAll (nodes.map (relocate place)) = countAll nodes := by
  induction nodes using forest_induction with
  | nil => rfl
  | cons n nodes ihn ih =>
    rw [List.map_cons, countAll, countAll, ih, count_eq, count_eq n, relocate_children, ihn]

theorem count_relocate (place : Nat → Nat) (n : Node) : (n.relocate place).count = n.count := by
  rw [count_eq, count_eq n, relocate_children, countAll_map_relocate]

theorem preorderAll_map_relocate (place : Nat → Nat) (nodes : List Node) :
    preorderAll (nodes.map (relocate place)) = (preorderAll nodes).map (relocate place) := by
  induction nodes using forest_induction with
  | nil => rfl
  | cons n nodes ihn ih =>
    rw [List.map_cons, preorderAll, preorderAll, ih, preorder_eq, preorder_eq n, relocate_children,
      ihn, List.map_append, List.map_cons]

theorem holdsDamage_relocate (place : Nat → Nat) (n : Node) :
    (n.relocate place).holdsDamage = n.holdsDamage := by
  rw [holdsDamage_eq, holdsDamage_eq, relocate_isDamaged, relocate_children,
    preorderAll_map_relocate, List.any_map]
  exact congrArg (n.isDamaged || List.any _ ·) (funext fun m => relocate_isDamaged place m)

/-! ### Comments -/

section Comments
variable (hmono : StrictMono place)
include hmono

theorem encloses_relocate (span : Span) (n : Node) :
    encloses (span.relocate place) (n.relocate place) = encloses span n := by
  have hcontains : (n.span.relocate place).contains (span.relocate place) = n.span.contains span := by
    simp [Span.contains, Span.relocate, hmono.le_iff_le]
  have hdiffers : (n.span.relocate place != span.relocate place) = (n.span != span) := by
    rw [Bool.eq_iff_iff, bne_iff_ne, bne_iff_ne, ne_eq, Span.relocate_inj hmono]
  rw [encloses, encloses, relocate_children, relocate_span, hcontains, hdiffers, List.isEmpty_map]

theorem isBefore_relocate (stop : Nat) (n : Node) :
    isBefore (place stop) (n.relocate place) = isBefore stop n := by
  rw [isBefore, isBefore, relocate_missing, relocate_span, Span.relocate]
  exact congrArg (n.missing || ·) (decide_eq_decide.mpr hmono.lt_iff_lt)

theorem insertComment_relocate (comment : Node) (children : List Node) :
    insertComment (comment.relocate place) (children.map (relocate place)) =
      (insertComment comment children).map (relocate place) := by
  have hbefore : isBefore (comment.relocate place).span.stop ∘ relocate place =
      isBefore comment.span.stop := by
    rw [relocate_span]
    exact funext fun n => isBefore_relocate hmono _ n
  simp only [insertComment, List.takeWhile_map, hbefore, List.length_map, ← List.map_drop,
    List.map_append, List.map_cons]

theorem attach_relocate (root comment : Node) :
    attach (root.relocate place) (comment.relocate place) = (attach root comment).relocate place := by
  have hroom (m : Node) : encloses (comment.relocate place).span (m.relocate place) =
      encloses comment.span m := by
    rw [relocate_span, encloses_relocate hmono]
  induction hcount : root.count using Nat.strong_induction_on generalizing root with
  | _ count ih =>
    rcases encloses_cases comment.span root with hnone | ⟨before, m, after, hchildren, hbefore, hm⟩
    · have hnone' : ∀ m ∈ (root.relocate place).children,
          encloses (comment.relocate place).span m = false := by
        rw [relocate_children, List.forall_mem_map]
        exact fun m hm => (hroom m).trans (hnone m hm)
      rw [attach_here hnone, attach_here hnone', relocate_children, insertComment_relocate hmono,
        relocate_withChildren]
    · have hlt : m.count < count := hcount ▸ count_lt_of_mem_children (by simp [hchildren])
      have hchildren' : (root.relocate place).children =
          before.map (relocate place) ++ m.relocate place :: after.map (relocate place) := by
        rw [relocate_children, hchildren, List.map_append, List.map_cons]
      have hbefore' : ∀ x ∈ before.map (relocate place),
          encloses (comment.relocate place).span x = false := by
        rw [List.forall_mem_map]
        exact fun x hx => (hroom x).trans (hbefore x hx)
      rw [attach_below hchildren hbefore hm, attach_below hchildren' hbefore' ((hroom m).trans hm),
        ih _ hlt m rfl, relocate_withChildren, List.map_append, List.map_cons]

theorem attachAll_relocate (root : Node) (comments : List Node) :
    attachAll (root.relocate place) (comments.map (relocate place)) =
      (attachAll root comments).relocate place := by
  induction comments generalizing root with
  | nil => rfl
  | cons comment comments ih =>
    show attachAll (attach _ _) _ = (attachAll (attach _ _) _).relocate place
    rw [attach_relocate hmono, ih]

end Comments

/-! ### S-expressions -/

/-- What is still to be written, with every offset moved. -/
def Pending.relocate (place : Nat → Nat) : Pending → Pending
  | node lead n => node lead (n.relocate place)
  | closing => closing

theorem shownChildren_relocate (place : Nat → Nat) (nodes : List Node) :
    shownChildren (nodes.map (relocate place)) = (shownChildren nodes).map (·.relocate place) := by
  have hshown : isShown ∘ relocate place = isShown := by
    funext n
    simp [isShown, isNamed]
  have hlead (n : Node) : (n.relocate place).fieldLead = n.fieldLead := by
    simp [fieldLead]
  rw [shownChildren, shownChildren, List.filter_map, hshown, List.map_map, List.map_map]
  refine List.map_congr_left fun n _ => ?_
  simp [Pending.relocate, hlead]

theorem writeSexp_relocate (place : Nat → Nat) (out : String) (pending : List Pending) :
    writeSexp out (pending.map (·.relocate place)) = writeSexp out pending := by
  fun_induction writeSexp out pending with
  | case1 out => rw [List.map_nil, writeSexp]
  | case2 out rest ih =>
    rw [List.map_cons, Pending.relocate, writeSexp]
    exact ih
  | case3 out lead n rest hmissing ih =>
    have htext : (n.relocate place).missingText = n.missingText := by
      simp only [missingText, isNamed, name, relocate_symbol]
      rfl
    rw [List.map_cons, Pending.relocate, writeSexp, relocate_missing, if_pos hmissing, htext]
    exact ih
  | case4 out lead n rest hmissing ih =>
    rw [List.map_cons, Pending.relocate, writeSexp, relocate_missing, if_neg hmissing,
      relocate_children, shownChildren_relocate, name, relocate_symbol]
    rwa [List.map_append, List.map_cons] at ih

theorem sexp_relocate (place : Nat → Nat) (n : Node) : (n.relocate place).sexp = n.sexp :=
  writeSexp_relocate place "" [.node "" n]

end Relocate

end Node

/-! ### Numbered nodes -/

namespace Entry

/-- The entry of a node with every offset moved. -/
def relocate (place : Nat → Nat) (e : Entry) : Entry := { e with node := e.node.relocate place }

theorem childIds_relocate (place : Nat → Nat) (first : Nat) (nodes : List Node) :
    childIds first (nodes.map (Node.relocate place)) = childIds first nodes := by
  induction nodes generalizing first with
  | nil => rfl
  | cons n nodes ih => rw [List.map_cons, childIds, childIds, ih, Node.count_relocate]

theorem complete_relocate (place : Nat → Nat) (first : Nat) (parent : Option Nat) (n : Node) :
    complete first parent (n.relocate place) = (complete first parent n).relocate place := by
  rw [complete, complete, relocate, Node.relocate_children, childIds_relocate,
    Node.count_relocate, Node.holdsDamage_relocate]

theorem subtrees_relocate (place : Nat → Nat) (first : Nat) (parent : Option Nat)
    (nodes : List Node) : subtrees complete first parent (nodes.map (Node.relocate place)) =
      (subtrees complete first parent nodes).map (relocate place) := by
  induction nodes using Node.forest_induction generalizing first parent with
  | nil => rfl
  | cons n nodes ihn ih =>
    rw [List.map_cons, subtrees, subtrees, subtree_eq, subtree_eq _ _ _ n, complete_relocate,
      Node.relocate_children, ihn, Node.count_relocate, ih, List.map_append, List.map_cons]

theorem ofRoot_relocate (place : Nat → Nat) (root : Node) :
    ofRoot (root.relocate place) = (ofRoot root).map (relocate place) := by
  rw [ofRoot_eq, ofRoot_eq, List.map_toArray, subtree_eq, subtree_eq _ _ _ root, complete_relocate,
    Node.relocate_children, subtrees_relocate, List.map_cons]

end Entry

end ScriptTree
