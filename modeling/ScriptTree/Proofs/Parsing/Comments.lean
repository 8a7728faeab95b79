import Mathlib
import ScriptTree.Proofs.Parsing.Geometry

/-! Where the comments of a source stand in its tree.

`CommentsAttached` says of a tree, node by node, that its extra nodes are the comments of the source,
each at its place below the deepest node that can hold it. Nothing is said there about the order in
which they were put in: it follows from the geometry of the finished tree, in which of any two nodes
one is above the other or ends before the other starts (`above_or_apart`). -/
namespace ScriptTree

open Parsing

namespace Tree

/-- The extra nodes, in preorder. -/
def extras (t : Tree) : List Nat := (List.range t.nodeCount).filter fun id => (t.node id).extra

/-- Whether a node is another one or stands above it. -/
def IsAbove (t : Tree) : Nat → Nat → Prop :=
  Relation.ReflTransGen fun parent child => t.parent? child = some parent

/-- Whether a comment with this span could be among the children of a node: it lies in the node, and
the node is the root or has a child that is no comment. -/
structure CanHost (t : Tree) (span : Span) (id : Nat) : Prop where
  isNode : id < t.nodeCount
  inner : id = 0 ∨ ∃ child ∈ t.children id, (t.node child).extra = false
  covers : (t.node id).span.contains span = true

end Tree

/-- Whether the comments of a source stand in a tree where they belong. -/
structure CommentsAttached (comments : List Comment) (t : Tree) : Prop where
  /-- The extra nodes are the comments, in their order. -/
  correspond : (t.extras.map fun id => ((t.node id).symbol, (t.node id).span)) =
    comments.map fun c => (.named (if c.kind = .html then .htmlComment else .comment), c.span)
  leaf : ∀ id ∈ t.extras, t.childCount id = 0 ∧ (t.node id).field = none
  /-- The parent can host the comment, and all others that can are above it. -/
  host : ∀ id ∈ t.extras, ∃ host, t.parent? id = some host ∧
    t.CanHost (t.node id).span host ∧
      ∀ other, t.CanHost (t.node id).span other → t.IsAbove other host
  /-- Siblings that end by the start of the comment are before it, and those that start from its end
  on are after it, unless they are missing. -/
  place : ∀ id ∈ t.extras, ∀ host, t.parent? id = some host → ∃ before after,
    (t.children host).toList = before ++ id :: after ∧ ∀ sibling ∈ before ++ after,
      ((t.node sibling).span.stop ≤ (t.node id).span.start → sibling ∈ before) ∧
      ((t.node sibling).missing = false →
        (t.node id).span.stop ≤ (t.node sibling).span.start → sibling ∈ after)

/-! ### Above or apart -/

theorem Span.contains_iff {outer inner : Span} : outer.contains inner = true ↔
    outer.start ≤ inner.start ∧ inner.stop ≤ outer.stop := by
  rw [Span.contains, Bool.and_eq_true, decide_eq_true_eq, decide_eq_true_eq]

section Tree
variable {root : Node} {source : String} {problems : List Problem} {t : Tree}

/-- Of two siblings, one ends before the other starts. -/
theorem Geometry.siblings_apart (h : Geometry source t) {p c d : Nat} (hp : p < t.nodeCount)
    (hc : c ∈ t.children p) (hd : d ∈ t.children p) (hne : c ≠ d) :
    Precedes (t.node c) (t.node d) ∨ Precedes (t.node d) (t.node c) := by
  obtain ⟨i, hi, rfl⟩ := Array.getElem_of_mem hc
  obtain ⟨j, hj, rfl⟩ := Array.getElem_of_mem hd
  have hsiblings := List.pairwise_iff_getElem.mp (h.siblings p hp)
  rcases Nat.lt_trichotomy i j with hlt | rfl | hlt
  · exact .inl (hsiblings i j hi hj hlt)
  · exact absurd rfl hne
  · exact .inr (hsiblings j i hj hi hlt)

/-- Every node but the root is listed by its parent, which comes first. -/
theorem exists_lister (ht : t = .ofRoot source root problems) {id : Nat} (hid : id < t.nodeCount) :
    id = 0 ∨ ∃ parent < id, t.parent? id = some parent ∧ id ∈ t.children parent := by
  subst ht
  rw [nodeCount_ofRoot] at hid
  obtain ⟨above, n, hn⟩ := Sits.exists_of_lt hid
  refine or_iff_not_imp_left.mpr fun hne => ?_
  obtain ⟨parent, grand, m, before, after, rfl, hm, hchildren, rfl⟩ := hn.parent_of_ne_zero hne
  exact ⟨parent, by omega, hn.parent_eq, hm.mem_children hchildren⟩

variable (ht : t = .ofRoot source root problems) (hgeometry : Geometry source t)
include ht hgeometry

/-- A node that another one is above lies in it. -/
theorem contains_of_isAbove {a b : Nat} (h : t.IsAbove a b) (hb : b < t.nodeCount) :
    a < t.nodeCount ∧ (t.node a).span.contains (t.node b).span = true := by
  induction h with
  | refl => exact ⟨hb, by simp [Span.contains_iff]⟩
  | @tail p c above hparent ih =>
    rcases exists_lister ht hb with rfl | ⟨p', hlt, hparent', hchild⟩
    · rw [ht, Sits.root.parent_eq] at hparent
      cases hparent
    · obtain rfl : p' = p := Option.some.inj (hparent'.symm.trans hparent)
      obtain ⟨ha, hspan⟩ := ih (hlt.trans hb)
      have hinside := hgeometry.inside p' (hlt.trans hb) c hchild
      rw [Span.contains_iff] at hspan hinside ⊢
      exact ⟨ha, hspan.1.trans hinside.1, hinside.2.trans hspan.2⟩

/-- Of two nodes, one is above the other or ends before the other starts. -/
theorem above_or_apart {a b : Nat} (ha : a < t.nodeCount) (hb : b < t.nodeCount) :
    t.IsAbove a b ∨ t.IsAbove b a ∨ Precedes (t.node a) (t.node b) ∨
      Precedes (t.node b) (t.node a) := by
  induction b using Nat.strong_induction_on with
  | _ b ih =>
  rcases exists_lister ht hb with rfl | ⟨p, hlt, hparent, hchild⟩
  · -- The root is above all nodes.
    right; left
    clear ih hb
    induction a using Nat.strong_induction_on with
    | _ a ih =>
    rcases exists_lister ht ha with rfl | ⟨p, hlt, hparent, _⟩
    · exact .refl
    · exact (ih p hlt (hlt.trans ha)).tail hparent
  have hp := hlt.trans hb
  have hinside := Span.contains_iff.mp (hgeometry.inside p hp b hchild)
  rcases ih p hlt hp with habove | hbelow | hbefore | hafter
  · exact .inl (habove.tail hparent)
  · rcases hbelow.cases_head with rfl | ⟨d, hd, hbelow⟩
    · exact .inl (.single hparent)
    -- The other node is in a child of the same parent.
    obtain ⟨hdlt, hspan⟩ := contains_of_isAbove ht hgeometry hbelow ha
    rw [Span.contains_iff] at hspan
    by_cases hsame : d = b
    · exact .inr (.inl (hsame ▸ hbelow))
    have hdchild : d ∈ t.children p := by
      rcases exists_lister ht hdlt with rfl | ⟨p', _, hparent', hchild'⟩
      · rw [ht, Sits.root.parent_eq] at hd
        cases hd
      · rwa [Option.some.inj (hparent'.symm.trans hd)] at hchild'
    have hsides := hgeometry.siblings_apart hp hdchild hchild hsame
    unfold Precedes at hsides ⊢
    omega
  · unfold Precedes at hbefore ⊢
    omega
  · unfold Precedes at hafter ⊢
    omega

end Tree

/-! ### Comments in place -/

section Dressed
variable {source : String} {maxDepth : Nat}

/-- The extra nodes below the root are the comments. -/
theorem dressed_extras (source : String) (maxDepth : Nat) :
    (Node.preorderAll (dressedRoot source maxDepth).children).filter (·.extra) =
      commentNodes source := by
  have hleaves : (Node.preorderAll (dressedRoot source maxDepth).children).filter (·.extra) =
      (leavesAll (dressedRoot source maxDepth).children).filter (·.extra) := by
    rw [leavesAll, List.filter_filter]
    refine List.filter_congr fun m hm => ?_
    cases hextra : m.extra with
    | false => rfl
    | true => rw [Node.isLeaf, dressed_leaf hm hextra]; rfl
  have hnone : (leavesAll (bareRoot source maxDepth).children).filter (·.extra) = [] := by
    rw [List.filter_eq_nil_iff]
    intro m hm
    rw [(bareRoot_faithful source maxDepth m (List.mem_of_mem_filter hm)).plain]
    exact Bool.false_ne_true
  rw [hleaves, (dressedRoot_dressed source maxDepth).woven.filter_extra (each_isComment source)
    (bareRoot_dressable source maxDepth).ordered (by simp [hnone]), hnone, List.nil_append]

theorem dressed_extra_root (source : String) (maxDepth : Nat) :
    (dressedRoot source maxDepth).extra = false := by
  obtain ⟨children, hsame⟩ := (dressedRoot_dressed source maxDepth).same
  rw [hsame]
  rfl

theorem map_extras (problems : List Problem) :
    (Tree.ofRoot source (dressedRoot source maxDepth) problems).extras.map
      (Tree.ofRoot source (dressedRoot source maxDepth) problems).node = commentNodes source := by
  have hfilter := List.filter_map (p := Node.extra)
    (f := (Tree.ofRoot source (dressedRoot source maxDepth) problems).node)
    (l := List.range (dressedRoot source maxDepth).count)
  rw [Tree.extras, nodeCount_ofRoot]
  refine hfilter.symm.trans ?_
  rw [map_node_range, Node.preorder_eq, List.filter_cons_of_neg (by simp [dressed_extra_root]),
    dressed_extras]

/-- What an extra node of a tree is like and where it is listed. -/
structure IsExtra (t : Tree) (id : Nat) : Prop where
  isNode : id < t.nodeCount
  comment : IsComment (t.node id)
  field : (t.node id).field = none
  leaf : t.children id = #[]
  listed : ∃ parent < t.nodeCount, t.parent? id = some parent ∧ id ∈ t.children parent

theorem isExtra_of_mem {problems : List Problem} {id : Nat}
    (hid : id ∈ (Tree.ofRoot source (dressedRoot source maxDepth) problems).extras) :
    IsExtra (.ofRoot source (dressedRoot source maxDepth) problems) id := by
  have hmem := List.mem_map_of_mem
    (f := (Tree.ofRoot source (dressedRoot source maxDepth) problems).node) hid
  rw [map_extras] at hmem
  obtain ⟨c, hc, hnode⟩ := List.mem_map.mp hmem
  have hcomment := (isComment_commentNode hc).1
  obtain ⟨hlt, hextra⟩ := List.mem_filter.mp hid
  rw [List.mem_range] at hlt
  refine ⟨hlt, hnode ▸ hcomment, ?_, ?_, ?_⟩
  · rw [← hnode, commentNode]
    cases c.kind <;> rfl
  · obtain ⟨parent, n, hn⟩ := Sits.exists_of_lt (nodeCount_ofRoot ▸ hlt)
    rw [hn.node_eq] at hnode
    rw [hn.children_eq, ← hnode, hcomment.leaf]
    rfl
  · rcases exists_lister rfl hlt with rfl | ⟨parent, hparent, hlisted⟩
    · rw [Sits.root.node_eq, dressed_extra_root] at hextra
      cases hextra
    · exact ⟨parent, hparent.trans hlt, hlisted⟩

/-- A comment is no host, and nothing is below it. -/
theorem IsExtra.not_isAbove {t : Tree} {id other : Nat} {span : Span} (h : IsExtra t id)
    (ht : t = .ofRoot source (dressedRoot source maxDepth) problems) (hgeometry : Geometry source t)
    (hother : t.CanHost span other) : ¬t.IsAbove id other := by
  intro habove
  rcases habove.cases_head with rfl | ⟨d, hd, hbelow⟩
  · obtain ⟨_, _, hparent, _⟩ := h.listed
    rcases hother.inner with rfl | ⟨c, hc, _⟩
    · rw [ht, Sits.root.parent_eq] at hparent
      cases hparent
    · simp [h.leaf] at hc
  · obtain ⟨hlt, _⟩ := contains_of_isAbove ht hgeometry hbelow hother.isNode
    rcases exists_lister ht hlt with rfl | ⟨parent, _, hparent, hlisted⟩
    · rw [ht, Sits.root.parent_eq] at hd
      cases hd
    · rw [← Option.some.inj (hd.symm.trans hparent)] at hlisted
      simp [h.leaf] at hlisted

theorem dressed_attached (problems : List Problem) :
    CommentsAttached (lex source).comments.toList
      (.ofRoot source (dressedRoot source maxDepth) problems) := by
  generalize ht : Tree.ofRoot source (dressedRoot source maxDepth) problems = t
  have hgeometry : Geometry source t := ht ▸ (dressedRoot_fitting source maxDepth).geometry
  have hextra : ∀ id ∈ t.extras, IsExtra t id := fun id hid => by
    subst ht
    exact isExtra_of_mem hid
  refine ⟨?_, fun id hid => ⟨?_, (hextra id hid).field⟩, fun id hid => ?_,
    fun id hid host hhost => ?_⟩
  · have hkind (c : Comment) : ((commentNode c).symbol, (commentNode c).span) =
        (.named (if c.kind = .html then .htmlComment else .comment), c.span) := by
      rw [commentNode]
      cases c.kind <;> rfl
    calc (t.extras.map fun id => ((t.node id).symbol, (t.node id).span))
        = (t.extras.map t.node).map fun n => (n.symbol, n.span) := by simp
      _ = _ := by
        rw [← ht, map_extras, commentNodes, List.map_map]
        exact List.map_congr_left fun c _ => hkind c
  · rw [Tree.childCount, (hextra id hid).leaf]
    rfl
  · obtain ⟨host, hlt, hhost, hlisted⟩ := (hextra id hid).listed
    refine ⟨host, hhost, ⟨hlt, ?_, hgeometry.inside host hlt id hlisted⟩, fun other hother => ?_⟩
    · -- Nodes other than the root start with something that is no comment.
      refine or_iff_not_imp_left.mpr fun hne => ?_
      have hnonempty : (t.children host).toList ≠ [] := List.ne_nil_of_mem hlisted.val
      obtain ⟨_, hfirst, _⟩ := hgeometry.frame host (Nat.pos_of_ne_zero hne) hlt
        _ (List.head?_eq_some_head hnonempty) _ (List.getLast?_eq_some_getLast hnonempty)
      exact ⟨_, ⟨List.head_mem hnonempty⟩, hfirst⟩
    · have hcovers := Span.contains_iff.mp hother.covers
      have hproper := (hextra id hid).comment.proper
      rcases above_or_apart ht.symm hgeometry hother.isNode (hextra id hid).isNode with
        habove | hbelow | hbefore | hafter
      · rcases habove.cases_tail with rfl | ⟨p, habove, hp⟩
        · exact absurd .refl ((hextra _ hid).not_isAbove ht.symm hgeometry hother)
        · rwa [← Option.some.inj (hp.symm.trans hhost)]
      · exact absurd hbelow ((hextra id hid).not_isAbove ht.symm hgeometry hother)
      · unfold Precedes at hbefore
        omega
      · unfold Precedes at hafter
        omega
  · obtain ⟨host', hlt, hhost', hlisted⟩ := (hextra id hid).listed
    obtain rfl := Option.some.inj (hhost'.symm.trans hhost)
    obtain ⟨before, after, hsplit⟩ := List.append_of_mem hlisted.val
    have hsiblings := hgeometry.siblings host' hlt
    rw [hsplit, List.pairwise_append] at hsiblings
    obtain ⟨_, hafter, hbefore⟩ := hsiblings
    refine ⟨before, after, hsplit, fun sibling hsibling => ?_⟩
    have hchild : sibling ∈ t.children host' := by
      rw [← Array.mem_toList_iff, hsplit]
      simp only [List.mem_append, List.mem_cons] at hsibling ⊢
      tauto
    obtain ⟨hforward, _⟩ :=
      hgeometry.span sibling (hgeometry.parent host' hlt sibling hchild).1
    have hproper := (hextra id hid).comment.proper
    rcases List.mem_append.mp hsibling with hmem | hmem
    · have := hbefore sibling hmem id (List.mem_cons_self ..)
      exact ⟨fun _ => hmem, fun _ hstart => by omega⟩
    · have := (List.pairwise_cons.mp hafter).1 sibling hmem
      exact ⟨fun hstop => by omega, fun _ _ => hmem⟩

end Dressed

/-! ### Parses -/

/-- **Comments are attached where they stand.** The extra nodes of the tree are the comments of the
source, each at its place below the deepest node that can host it; without them the tree is that of
the same tokens and no comments. -/
theorem parse_attaches_comments {source : String} {options : ParseOptions}
    (hfits : ∀ limit ∈ options.maxLength, source.utf8ByteSize ≤ limit) :
    CommentsAttached (lex source).comments.toList (parse source options) ∧
      ofLexed source { lex source with comments := #[] } options.maxDepth =
        .ofRoot source ((parse source options).node 0).strip (parse source options).problems := by
  rw [parse_eq hfits]
  refine ⟨dressed_attached _, ?_⟩
  rw [Sits.root.node_eq, strip_dressedRoot, reports, ← Array.toList_append]
  exact @Building.ofLexed_eq source { lex source with comments := #[] } (lex_isStream source)
    (lex_stringsStand source) options.maxDepth

theorem parse_attaches_comments_limited :
    (∀ limit ∈ some 30, "f(/* a */ /* b */); // c".utf8ByteSize ≤ limit) ∧
      CommentsAttached [⟨.block, ⟨2, 9⟩⟩, ⟨.block, ⟨10, 17⟩⟩, ⟨.line, ⟨20, 24⟩⟩]
        (parse "f(/* a */ /* b */); // c" { maxLength := some 30 }) := by
  have hfits : ∀ limit ∈ some 30, "f(/* a */ /* b */); // c".utf8ByteSize ≤ limit := by
    decide +kernel
  have hcomments : (lex "f(/* a */ /* b */); // c").comments.toList =
      [⟨.block, ⟨2, 9⟩⟩, ⟨.block, ⟨10, 17⟩⟩, ⟨.line, ⟨20, 24⟩⟩] := by decide +kernel
  exact ⟨hfits, hcomments ▸ (@parse_attaches_comments _ { maxLength := some 30 } hfits).1⟩

end ScriptTree
