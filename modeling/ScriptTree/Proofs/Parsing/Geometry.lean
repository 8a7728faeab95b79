import Mathlib
import ScriptTree.Proofs.Parsing.Outcome

/-! Where the nodes of a tree stand.

`Geometry` says of a tree, node by node, that spans lie in the source and in each other, that
siblings follow one another, and that nothing but the root reaches beyond its children.
`parse_geometry` says that every parse gives such a tree, also that of a refused source. -/
namespace ScriptTree

open Parsing

/-- Whether the spans and links of a tree are those of a tree over a source. -/
structure Geometry (source : String) (t : Tree) : Prop where
  root : (t.node 0).span = ⟨0, source.utf8ByteSize⟩
  /-- Nodes start and stop between characters of the source, and do not stop before they start. -/
  span : ∀ id < t.nodeCount, (t.node id).span.start ≤ (t.node id).span.stop ∧
    (t.node id).span.stop ≤ source.utf8ByteSize ∧ (t.node id).span.Fits source
  /-- Children are in the span of their parent. -/
  inside : ∀ id < t.nodeCount, ∀ child ∈ t.children id,
    (t.node id).span.contains (t.node child).span = true
  /-- Siblings follow one another, the missing ones and the comments too. -/
  siblings : ∀ id < t.nodeCount,
    (t.children id).toList.Pairwise fun c d => (t.node c).span.stop ≤ (t.node d).span.start
  /-- Links go both ways. -/
  parent : ∀ id < t.nodeCount, ∀ child ∈ t.children id,
    child < t.nodeCount ∧ t.parent? child = some id
  /-- A node other than the root reaches from its first child to its last, neither a comment. -/
  frame : ∀ id, 0 < id → id < t.nodeCount → ∀ first ∈ (t.children id).toList.head?,
    ∀ last ∈ (t.children id).toList.getLast?,
      (t.node id).span = ⟨(t.node first).span.start, (t.node last).span.stop⟩ ∧
        (t.node first).extra = false ∧ (t.node last).extra = false

section Root
variable {root : Node} {source : String} {problems : List Problem}

/-- What a root must be like for its tree to have the geometry of a source. -/
structure Fitting (source : String) (root : Node) : Prop where
  span : root.span = ⟨0, source.utf8ByteSize⟩
  encloses : Encloses root
  fits : ∀ n ∈ Node.preorderAll root.children, n.span.Fits source

theorem Fitting.framed (h : Fitting source root) {n : Node}
    (hn : n ∈ Node.preorderAll root.children) : Framed n := by
  obtain ⟨m, hm, hn⟩ := Node.mem_preorderAll.mp hn
  exact (h.encloses.below m hm).preorder n hn

theorem Fitting.node_encloses (h : Fitting source root) {id : Nat} {parent : Option Nat} {n : Node}
    (hn : Sits root id parent n) (hchildren : n.children ≠ []) : Encloses n := by
  rcases Nat.eq_zero_or_pos id with rfl | hpos
  · rw [hn.eq_root]
    exact h.encloses
  · exact (h.framed (hn.mem_below hpos.ne')).encloses hchildren

theorem Fitting.geometry (h : Fitting source root) :
    Geometry source (.ofRoot source root problems) := by
  have hcount : (Tree.ofRoot source root problems).nodeCount = root.count := nodeCount_ofRoot
  refine ⟨?_, fun id hid => ?_, fun id hid child hchild => ?_, fun id hid => ?_,
    fun id hid child hchild => ?_, fun id hpos hid first hfirst last hlast => ?_⟩
  · rw [Sits.root.node_eq, h.span]
  all_goals
    rw [hcount] at hid
    obtain ⟨parent, n, hn⟩ := Sits.exists_of_lt hid
  · rw [hn.node_eq]
    rcases Nat.eq_zero_or_pos id with rfl | hpos
    · rw [hn.eq_root, h.span]
      exact ⟨Nat.zero_le _, Nat.le_refl _, String.Pos.Raw.isValid_zero, isValid_utf8ByteSize source⟩
    · have hmem := hn.mem_below hpos.ne'
      have hfits := h.fits n hmem
      exact ⟨(h.framed hmem).forward, hfits.stop.le_utf8ByteSize, hfits⟩
  · obtain ⟨c, hc, hsits⟩ := hn.of_mem_children hchild
    obtain ⟨stop, hstop, hlaid⟩ := (h.node_encloses hn (List.ne_nil_of_mem hc)).laid
    obtain ⟨hstart, _, hend⟩ := hlaid.mem hc
    rw [hn.node_eq, hsits.node_eq, Span.contains, Bool.and_eq_true, decide_eq_true_eq,
      decide_eq_true_eq]
    exact ⟨hstart, hend.trans hstop⟩
  · have hmap : ((Tree.ofRoot source root problems).children id).toList.map
        (Tree.ofRoot source root problems).node = n.children := hn.map_children
    rw [← List.pairwise_map (f := (Tree.ofRoot source root problems).node)
      (R := fun m m' => m.span.stop ≤ m'.span.start), hmap]
    by_cases hchildren : n.children = []
    · rw [hchildren]
      exact .nil
    · obtain ⟨_, _, hlaid⟩ := (h.node_encloses hn hchildren).laid
      exact hlaid.pairwise
  · obtain ⟨c, hc, hsits⟩ := hn.of_mem_children hchild
    rw [hcount]
    exact ⟨hsits.lt_count, hsits.parent_eq⟩
  · have hmap : ((Tree.ofRoot source root problems).children id).toList.map
        (Tree.ofRoot source root problems).node = n.children := hn.map_children
    have hfirst' : (Tree.ofRoot source root problems).node first ∈ n.children.head? := by
      rw [← hmap, List.head?_map, hfirst]
      rfl
    have hlast' : (Tree.ofRoot source root problems).node last ∈ n.children.getLast? := by
      rw [← hmap, List.getLast?_map, hlast]
      rfl
    rw [hn.node_eq]
    cases h.framed (hn.mem_below hpos.ne') with
    | leaf hchildren =>
      rw [hchildren] at hfirst'
      cases hfirst'
    | inner hchildren start _ plain plain' laid =>
      refine ⟨?_, ?_, plain' _ hlast'⟩
      · obtain ⟨hne, hnode⟩ := List.mem_getLast?_eq_getLast hlast'
        rw [hnode, laid.getLast_stop hne]
        rw [hchildren] at hfirst'
        cases hfirst'
        rw [start]
      · rw [hchildren] at hfirst'
        cases hfirst'
        exact plain

end Root

/-! ### Parses -/

theorem dressedRoot_fitting (source : String) (maxDepth : Nat) :
    Fitting source (dressedRoot source maxDepth) := by
  have hdressed := dressedRoot_dressed source maxDepth
  refine ⟨?_, hdressed.encloses, fun n hn => ?_⟩
  · obtain ⟨children, hsame⟩ := hdressed.same
    rw [hsame]
    rfl
  · rcases dressed_cases hn with ⟨c, hc, rfl⟩ | ⟨_, hbare⟩
    · obtain ⟨p, hp, hspan⟩ := comment_stands hc
      rw [(isComment_commentNode hc).2, hspan]
      exact hp.fits
    · have hfits := (bareRoot_faithful source maxDepth _ hbare).fits
      rwa [Node.strip_eq] at hfits

theorem emptyRoot_fitting (source : String) :
    Fitting source (rootNode source.utf8ByteSize []) :=
  ⟨rfl, ⟨⟨0, Nat.zero_le _, .nil⟩, nofun⟩, nofun⟩

/-- Every parse gives a tree over its source. -/
theorem parse_geometry (source : String) (options : ParseOptions) :
    Geometry source (parse source options) := by
  rcases parse_cases source options with h | ⟨problems, h⟩
  · rw [h]
    exact (dressedRoot_fitting source options.maxDepth).geometry
  · rw [h]
    exact (emptyRoot_fitting source).geometry

end ScriptTree
