import Mathlib
import ScriptTree.Highlight.Spans
import ScriptTree.Proofs.Mirror.TokenClasses

/-! Classes of leaves and comments.

The class of a leaf is told from its role, the roles of three nodes above it (`Tree.lineage`), and for
a name in an enumeration from whether another named node is in front of it (`capture?_congr`). Comments
are never above a leaf, so lineages do not change with them (`map_lineage`). But a comment is a named
node, and in front of the name of an enumeration it is taken for the name: `parse_captures` says that
this is the only thing that blanks, comments and names can do. -/
namespace ScriptTree

open Entry Parsing

namespace Tree

/-- The roles of a node and of the nodes above it, as many as are asked for, the node's own first. -/
def lineage (t : Tree) : Nat → Nat → List Role
  | 0, _ => []
  | k + 1, id => (t.node id).role :: ((t.parent? id).map (t.lineage k)).getD []

/-- The leaves below the root that are no comments, in preorder. -/
def plainLeaves (t : Tree) : List Nat := (List.range' 1 (t.nodeCount - 1)).filter fun id =>
  !(t.node id).extra && (t.children id).isEmpty

/-- Whether a node is the name of an enumeration or of one of its members. -/
def IsEnumPart (t : Tree) (id : Nat) : Prop :=
  (t.node id).symbol = .named .identifier ∧ t.parentKind? id = some .enumDeclaration

/-- Whether two leaves have the same class, unless they are parts of an enumeration of which only one
has a named node in front of it. -/
def CapturesMatch (t t' : Tree) (id id' : Nat) : Prop :=
  t.capture? id = t'.capture? id' ↔ (t.IsEnumPart id →
    (t.previousNamedSibling? id).isNone = (t'.previousNamedSibling? id').isNone)

end Tree

/-! ### What a class is told from -/

section Capture
variable {t t' : Tree} {id id' k : Nat}

theorem node_of_lineage (h : t.lineage (k + 1) id = t'.lineage (k + 1) id') :
    (t.node id).field = (t'.node id').field ∧ (t.node id).symbol = (t'.node id').symbol :=
  Prod.mk.inj (List.cons.inj h).1

/-- Parents of nodes with the same lineage have the same lineage. -/
theorem parent_of_lineage (h : t.lineage (k + 2) id = t'.lineage (k + 2) id') :
    Option.Rel (fun p p' => t.lineage (k + 1) p = t'.lineage (k + 1) p') (t.parent? id)
      (t'.parent? id') := by
  have habove := (List.cons.inj h).2
  cases hp : t.parent? id <;> cases hp' : t'.parent? id' <;> rw [hp, hp'] at habove
  · exact .none
  · cases habove
  · cases habove
  · exact .some habove

theorem parentKind?_congr (h : t.lineage (k + 2) id = t'.lineage (k + 2) id') :
    t.parentKind? id = t'.parentKind? id' := by
  have hparent := parent_of_lineage h
  rw [Tree.parentKind?, Tree.parentKind?]
  generalize t.parent? id = p at hparent ⊢
  generalize t'.parent? id' = p' at hparent ⊢
  cases hparent with
  | none => rfl
  | some hp => exact congrArg Symbol.kind? (node_of_lineage hp).2

theorem isCalled_congr (h : t.lineage (k + 2) id = t'.lineage (k + 2) id') :
    t.isCalled id = t'.isCalled id' := by
  rw [Tree.isCalled, Tree.isCalled, parentKind?_congr h, (node_of_lineage h).1]

/-- A question about parents has the same answer if their lineages tell it. -/
theorem any_parent_congr {p p' : Nat → Bool} (h : t.lineage (k + 2) id = t'.lineage (k + 2) id')
    (hp : ∀ {above above'}, t.lineage (k + 1) above = t'.lineage (k + 1) above' →
      p above = p' above') : (t.parent? id).any p = (t'.parent? id').any p' := by
  have hparent := parent_of_lineage h
  generalize t.parent? id = above at hparent ⊢
  generalize t'.parent? id' = above' at hparent ⊢
  cases hparent with
  | none => rfl
  | some habove => exact hp habove

theorem isCallee_congr (h : t.lineage (k + 3) id = t'.lineage (k + 3) id') :
    t.isCallee id = t'.isCallee id' := by
  have hkind : (t.node id).kind? = (t'.node id').kind? :=
    congrArg Symbol.kind? (node_of_lineage h).2
  rw [Tree.isCallee, Tree.isCallee, hkind, isCalled_congr h, parentKind?_congr h,
    any_parent_congr h isCalled_congr]

theorem inCallee_congr (h : t.lineage (k + 4) id = t'.lineage (k + 4) id') :
    t.inCallee id = t'.inCallee id' :=
  any_parent_congr h isCallee_congr

theorem identifierCapture_congr (h : t.lineage 4 id = t'.lineage 4 id')
    (hfirst : t.parentKind? id = some .enumDeclaration →
      (t.previousNamedSibling? id).isNone = (t'.previousNamedSibling? id').isNone) :
    t.identifierCapture id = t'.identifierCapture id' := by
  have hparent : t.parentKind? id = t'.parentKind? id' := parentKind?_congr h
  rw [Tree.identifierCapture, Tree.identifierCapture, ← hparent, (node_of_lineage h).1,
    inCallee_congr h]
  split
  case h_5 henum => rw [hfirst henum]
  all_goals rfl

theorem namedCapture?_congr (h : t.lineage 4 id = t'.lineage 4 id') (kind : NodeKind)
    (hfirst : kind = .identifier → t.parentKind? id = some .enumDeclaration →
      (t.previousNamedSibling? id).isNone = (t'.previousNamedSibling? id').isNone) :
    t.namedCapture? id kind = t'.namedCapture? id' kind := by
  by_cases hidentifier : kind = .identifier
  · subst hidentifier
    exact congrArg some (identifierCapture_congr h (hfirst rfl))
  · rw [Tree.namedCapture?.eq_def, Tree.namedCapture?.eq_def, inCallee_congr h]
    cases kind <;> first | rfl | exact absurd rfl hidentifier

/-- The class of a node is told from its lineage, but for the parts of an enumeration. -/
theorem capture?_congr (h : t.lineage 4 id = t'.lineage 4 id')
    (hfirst : t.IsEnumPart id →
      (t.previousNamedSibling? id).isNone = (t'.previousNamedSibling? id').isNone) :
    t.capture? id = t'.capture? id' := by
  have hsymbol := (node_of_lineage h).2
  have hparent : t.parentKind? id = t'.parentKind? id' := parentKind?_congr h
  simp only [Tree.capture?, ← hparent, ← hsymbol]
  refine if_congr Iff.rfl rfl ?_
  cases hkind : (t.node id).symbol with
  | named kind =>
    exact namedCapture?_congr h kind fun hidentifier henum =>
      hfirst ⟨by rw [hkind, hidentifier], henum⟩
  | _ => rfl

/-- The class of a part of an enumeration tells whether another named node is in front of it. -/
theorem capture?_enumPart (h : t.IsEnumPart id) : t.capture? id =
    some (if (t.previousNamedSibling? id).isNone then .type else .property) := by
  obtain ⟨hsymbol, hparent⟩ := h
  simp [Tree.capture?, hsymbol, hparent, Tree.namedCapture?, Tree.identifierCapture]

theorem isEnumPart_congr (h : t.lineage 4 id = t'.lineage 4 id') :
    t.IsEnumPart id ↔ t'.IsEnumPart id' := by
  rw [Tree.IsEnumPart, Tree.IsEnumPart, (node_of_lineage h).2, parentKind?_congr h]

theorem capturesMatch_of_lineage (h : t.lineage 4 id = t'.lineage 4 id') :
    t.CapturesMatch t' id id' := by
  refine ⟨fun hcapture henum => ?_, capture?_congr h⟩
  rw [capture?_enumPart henum, capture?_enumPart ((isEnumPart_congr h).mp henum)] at hcapture
  cases hfirst : (t.previousNamedSibling? id).isNone <;>
    cases hfirst' : (t'.previousNamedSibling? id').isNone <;> simp_all

end Capture

/-! ### Lineages of leaves -/

namespace Node

mutual

/-- The lineages of the leaves in a subtree that are no comments, in preorder, in front of the lineage
of the parent. -/
def lineages (above : List Role) : Node → List (List Role)
  | ⟨symbol, _, field, _, extra, children⟩ =>
    if extra then [] else
      if children.isEmpty then [(field, symbol) :: above]
      else lineagesAll ((field, symbol) :: above) children

def lineagesAll (above : List Role) : List Node → List (List Role)
  | [] => []
  | n :: nodes => n.lineages above ++ lineagesAll above nodes

end

theorem lineages_eq (above : List Role) (n : Node) : n.lineages above =
    if n.extra then [] else
      if n.children.isEmpty then [n.role :: above] else lineagesAll (n.role :: above) n.children := by
  cases n
  rw [lineages]
  rfl

/-- Offsets make no difference. -/
theorem lineagesAll_relocate (place : Nat → Nat) (above : List Role) (nodes : List Node) :
    lineagesAll above (nodes.map (relocate place)) = lineagesAll above nodes := by
  induction nodes using forest_induction generalizing above with
  | nil => rfl
  | cons n nodes ihn ih =>
    rw [List.map_cons, lineagesAll, lineagesAll, ih, lineages_eq, lineages_eq above n]
    simp [role, ihn]

/-- Comments make no difference where none stands alone in a node. -/
theorem lineagesAll_stripAll (above : List Role) {nodes : List Node}
    (hleaf : ∀ m ∈ preorderAll nodes, m.strip.children = [] → m.children = []) :
    lineagesAll above (stripAll nodes) = lineagesAll above nodes := by
  induction nodes using forest_induction generalizing above with
  | nil => rfl
  | cons n nodes ihn ih =>
    have hlater := ih above fun m hm => hleaf m (mem_preorderAll_cons.mpr (.inr (.inr hm)))
    have hbelow := ihn (n.role :: above) fun m hm =>
      hleaf m (mem_preorderAll_cons.mpr (.inr (.inl hm)))
    have hnone : (stripAll n.children).isEmpty = n.children.isEmpty := by
      have hself := hleaf n (mem_preorderAll_cons.mpr (.inl rfl))
      rw [strip_eq] at hself
      rw [Bool.eq_iff_iff, List.isEmpty_iff, List.isEmpty_iff]
      exact ⟨hself, fun h => by rw [h]; rfl⟩
    have hstrip : n.strip.lineages above = n.lineages above := by
      rw [lineages_eq, lineages_eq above n, strip_eq]
      simp only [hnone]
      rw [← hbelow]
      rfl
    rw [stripAll, lineagesAll]
    split
    · rename_i hextra
      rw [lineages_eq, if_pos hextra, hlater, List.nil_append]
    · rw [lineagesAll, hstrip, hlater]

end Node

section Tree
variable {root : Node} {source : String} {problems : List Problem} {t : Tree}

/-- The lineages of the leaves in and below some siblings, from the lineage of their parent. -/
theorem map_lineage_siblings (ht : t = .ofRoot source root problems) (k : Nat) (nodes : List Node)
    {first : Nat} {parent : Option Nat} {above : List Role}
    (habove : ∀ k, (parent.map (t.lineage k)).getD [] = above.take k)
    (hleaf : ∀ m ∈ Node.preorderAll nodes, m.extra = true → m.children = [])
    (hnodes : ∀ before c after, nodes = before ++ c :: after →
      Sits root (first + Node.countAll before) parent c) :
    ((List.range' first (Node.countAll nodes)).filter fun id =>
        !(t.node id).extra && (t.children id).isEmpty).map (t.lineage k) =
      (Node.lineagesAll above nodes).map (·.take k) := by
  induction nodes using Node.forest_induction generalizing first parent above with
  | nil => rfl
  | cons n nodes ihn ih =>
    have hn : Sits root first parent n := hnodes [] n nodes rfl
    have hlineage (k : Nat) : t.lineage k first = (n.role :: above).take k := by
      cases k with
      | zero => rfl
      | succ k => rw [Tree.lineage, ht, hn.node_eq, hn.parent_eq, ← ht, habove, List.take_succ_cons]
    have hlater := @ih (first + n.count) parent above habove
      (fun m hm => hleaf m (Node.mem_preorderAll_cons.mpr (.inr (.inr hm))))
      fun before c after hsplit => by
        have hc := hnodes (n :: before) c after (by rw [hsplit, List.cons_append])
        rwa [Node.countAll, ← Nat.add_assoc] at hc
    have hbelow := @ihn (first + 1) (some first) (n.role :: above) hlineage
      (fun m hm => hleaf m (Node.mem_preorderAll_cons.mpr (.inr (.inl hm))))
      fun before c after hsplit => hn.child hsplit
    have hrange : List.range' first (Node.countAll (n :: nodes)) =
        first :: (List.range' (first + 1) (Node.countAll n.children) ++
          List.range' (first + n.count) (Node.countAll nodes)) := by
      rw [Node.countAll, Node.count_eq, Nat.add_right_comm, List.range'_succ, ← List.range'_append_1,
        Nat.add_assoc, Nat.add_comm 1]
    have hself : (!(t.node first).extra && (t.children first).isEmpty) =
        (!n.extra && n.children.isEmpty) := by
      rw [ht, hn.node_eq, hn.isEmpty_children]
    have hlist : Node.lineagesAll above (n :: nodes) =
        (if !n.extra && n.children.isEmpty then [n.role :: above] else []) ++
          Node.lineagesAll (n.role :: above) n.children ++ Node.lineagesAll above nodes := by
      have hchildren := hleaf n (Node.mem_preorderAll_cons.mpr (.inl rfl))
      rw [Node.lineagesAll, Node.lineages_eq]
      cases hextra : n.extra with
      | true => simp [hchildren hextra, Node.lineagesAll]
      | false =>
        cases n.children <;> simp [Node.lineagesAll]
    rw [hrange, hlist, List.filter_cons, List.filter_append]
    simp only [hself, List.map_append, ← hbelow, ← hlater]
    split <;> simp [hlineage]

/-- The lineages of the leaves of a parse are those in its tree without comments and offsets. -/
theorem map_lineage (source : String) (maxDepth : Nat) (problems : List Problem) (k : Nat) :
    (Tree.ofRoot source (dressedRoot source maxDepth) problems).plainLeaves.map
        ((Tree.ofRoot source (dressedRoot source maxDepth) problems).lineage k) =
      (Node.lineagesAll [(bareRoot source maxDepth).role]
        ((bareRoot source maxDepth).relocate fun _ => 0).children).map (·.take k) := by
  have hroot : Sits (dressedRoot source maxDepth) 0 none (dressedRoot source maxDepth) := .root
  have hstrip := strip_dressedRoot source maxDepth
  have hrole : (dressedRoot source maxDepth).role = (bareRoot source maxDepth).role := by
    rw [← hstrip, Node.role, Node.role, Node.strip_eq]
  have habove (k : Nat) : (Tree.ofRoot source (dressedRoot source maxDepth) problems).lineage k 0 =
      [(bareRoot source maxDepth).role].take k := by
    cases k with
    | zero => rfl
    | succ k => rw [Tree.lineage, hroot.node_eq, hroot.parent_eq, hrole]; simp
  have hsplit := @map_lineage_siblings _ source problems _ rfl k (dressedRoot source maxDepth).children
    1 (some 0) _ habove (fun m hm => dressed_leaf hm) fun before c after hchildren => by
      have hc := hroot.child hchildren
      rwa [Nat.zero_add] at hc
  rw [Tree.plainLeaves, nodeCount_ofRoot, Node.count_eq, Nat.add_sub_cancel, hsplit,
    Node.relocate_children, Node.lineagesAll_relocate, ← hstrip, Node.strip_eq,
    Node.lineagesAll_stripAll _ fun m hm => (dressed_framed hm).children_of_strip]

end Tree

/-- **Blanks, comments and names do not change classes**, but for a comment in front of the name of an
enumeration. -/
theorem parse_captures {source source' : String} (maxDepth : Nat)
    (h : SameClasses (lex source).tokens (lex source').tokens) :
    List.Forall₂ ((parse source { maxDepth }).CapturesMatch (parse source' { maxDepth }))
      (parse source { maxDepth }).plainLeaves (parse source' { maxDepth }).plainLeaves := by
  have hparse (source : String) : parse source { maxDepth } =
      .ofRoot source (dressedRoot source maxDepth) (sorted (reports source maxDepth)) :=
    parse_eq nofun
  have hlineages : (parse source { maxDepth }).plainLeaves.map ((parse source { maxDepth }).lineage 4) =
      (parse source' { maxDepth }).plainLeaves.map ((parse source' { maxDepth }).lineage 4) := by
    have hrole : (bareRoot source maxDepth).role = (bareRoot source' maxDepth).role := rfl
    rw [hparse, hparse, map_lineage, map_lineage, hrole, bareRoot_shape h]
  rw [← List.forall₂_eq_eq_eq, List.forall₂_map_left_iff, List.forall₂_map_right_iff] at hlineages
  exact hlineages.imp fun _ _ => capturesMatch_of_lineage

theorem parse_captures_in_call :
    SameClasses (lex "f(a.b);").tokens (lex "f /* of */ (c\n.b);").tokens ∧
      List.Forall₂ ((parse "f(a.b);").CapturesMatch (parse "f /* of */ (c\n.b);"))
        (parse "f(a.b);").plainLeaves (parse "f /* of */ (c\n.b);").plainLeaves := by
  have hclasses : SameClasses (lex "f(a.b);").tokens (lex "f /* of */ (c\n.b);").tokens :=
    ⟨by decide +kernel, by decide +kernel⟩
  exact ⟨hclasses, parse_captures 256 hclasses⟩

/-- Behind a comment, the name of an enumeration is taken for that of a member. -/
theorem parse_captures_enum :
    SameClasses (lex "enum E { A }").tokens (lex "enum /* */ E { A }").tokens ∧
      ¬List.Forall₂ (fun id id' => (parse "enum E { A }").capture? id =
          (parse "enum /* */ E { A }").capture? id')
        (parse "enum E { A }").plainLeaves (parse "enum /* */ E { A }").plainLeaves :=
  ⟨⟨by decide +kernel, by decide +kernel⟩, by decide +kernel⟩

end ScriptTree
