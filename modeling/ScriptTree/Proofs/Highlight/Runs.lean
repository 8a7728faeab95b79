import Mathlib
import ScriptTree.Highlight.Spans
import ScriptTree.Proofs.Parsing.Comments
import ScriptTree.Proofs.Parsing.Lossless

/-! What the classified stretches of a source are.

A stretch is a run of leaves of one class that touch each other (`Tree.IsRun`). Adding leaf after leaf
keeps the stretches those of a division of the leaves into runs, none of which could be longer
(`Divided.foldl_add`). `parse_canonical` reads off what that means where leaves follow one another:
each leaf is in one stretch, and the stretches follow one another, too. -/
namespace ScriptTree

open Parsing

namespace Tree

/-- The leaves that stand for text of the source, in preorder. -/
def visibleLeaves (t : Tree) : List Nat := (List.range t.nodeCount).filter fun id =>
  (t.children id).isEmpty && !(t.node id).missing && !(t.node id).span.isEmpty

/-- Whether a stretch is what some leaves in a row cover, all of them of its class. -/
structure IsRun (t : Tree) (leaves : List Nat) (h : Highlight) : Prop where
  nonempty : leaves ≠ []
  tiles : Tiles h.span.start (leaves.map t.node) h.span.stop
  capture : ∀ id ∈ leaves, t.capture? id = some h.capture

end Tree

/-- Whether stretches are those of the leaves of a tree, in the only possible way. -/
structure Canonical (t : Tree) (found : List Highlight) : Prop where
  nonempty : ∀ h ∈ found, h.span.start < h.span.stop
  ordered : found.Pairwise fun a b => a.span.stop ≤ b.span.start
  runs : ∀ h ∈ found, ∃ leaves, leaves <:+: t.visibleLeaves ∧ t.IsRun leaves h
  /-- Stretches that touch differ in class. -/
  maximal : found.IsChain fun a b => a.span.stop = b.span.start → a.capture ≠ b.capture
  /-- A leaf that has a class is in one stretch, which has that class. -/
  covered : ∀ id ∈ t.visibleLeaves, ∀ capture ∈ t.capture? id, ∃ h,
    found.filter (·.span.contains (t.node id).span) = [h] ∧ h.capture = capture

/-! ### Leaves in a row -/

section Tiles
variable {a b c : Nat} {nodes : List Node} {n : Node}

theorem Tiles.snoc (h : Tiles a nodes b) (hstart : n.span.start = b)
    (hle : n.span.start ≤ n.span.stop) (hpresent : n.missing = false) :
    Tiles a (nodes ++ [n]) n.span.stop := by
  induction h with
  | nil => exact .present (by rw [← hstart]) (hstart ▸ hle) hpresent .nil
  | cons forward width _ ih => exact .cons forward width (ih hstart)

theorem Tiles.contains (h : Tiles a nodes b) (hn : n ∈ nodes) :
    Span.contains ⟨a, b⟩ n.span = true := by
  obtain ⟨hstart, _, hstop⟩ := h.laid.mem hn
  exact Span.contains_iff.mpr ⟨hstart, hstop⟩

end Tiles

section Rows
variable {α : Type} {f : α → Node} {row all : List α} {a b : Nat}

theorem prefix_of_tiles (hsublist : row.Sublist all) (htiles : Tiles a (row.map f) b)
    (hfrom : ∀ x ∈ all, a ≤ (f x).span.start)
    (hordered : all.Pairwise fun x y => Precedes (f x) (f y))
    (hproper : ∀ x ∈ all, (f x).span.start < (f x).span.stop) : row <+: all := by
  induction hsublist generalizing a with
  | slnil => exact List.prefix_rfl
  | @cons row all x hsublist ih =>
    cases row with
    | nil => exact List.nil_prefix
    | cons y row =>
      -- A leaf in front of the row would have to fit between its start and its first leaf.
      exfalso
      have hbefore := List.rel_of_pairwise_cons hordered (hsublist.subset (List.mem_cons_self ..))
      have hx := hproper x (List.mem_cons_self ..)
      have hstart := hfrom x (List.mem_cons_self ..)
      unfold Precedes at hbefore
      cases htiles
      omega
  | @cons_cons row all x hsublist ih =>
    cases htiles with
    | cons forward width rest =>
      exact List.prefix_cons_inj x |>.mpr (ih rest (fun y hy => List.rel_of_pairwise_cons hordered hy)
        hordered.of_cons fun y hy => hproper y (List.mem_cons_of_mem _ hy))

/-- Leaves that leave no gap are all the leaves there are between the first and the last. -/
theorem infix_of_tiles (hsublist : row.Sublist all) (htiles : Tiles a (row.map f) b)
    (hordered : all.Pairwise fun x y => Precedes (f x) (f y))
    (hproper : ∀ x ∈ all, (f x).span.start < (f x).span.stop) : row <:+: all := by
  induction hsublist with
  | slnil => exact List.infix_rfl
  | cons x _ ih =>
    have hrow := ih htiles hordered.of_cons fun y hy => hproper y (List.mem_cons_of_mem _ hy)
    exact hrow.trans (List.suffix_cons ..).isInfix
  | cons_cons x hsublist =>
    refine (prefix_of_tiles (hsublist.cons_cons x) htiles (fun y hy => ?_) hordered hproper).isInfix
    cases htiles with
    | cons forward =>
      rcases List.mem_cons.mp hy with rfl | hy
      · exact Nat.le_refl _
      · exact forward.trans (List.rel_of_pairwise_cons hordered hy)

end Rows

/-! ### Divisions into runs -/

namespace Tree.IsRun
variable {t : Tree} {leaves : List Nat} {h : Highlight} {id : Nat}

theorem single {capture : Capture} (hproper : (t.node id).span.start < (t.node id).span.stop)
    (hpresent : (t.node id).missing = false) (hcapture : t.capture? id = some capture) :
    t.IsRun [id] ⟨(t.node id).span, capture⟩ :=
  ⟨nofun, .present rfl hproper.le hpresent .nil, by simpa using hcapture⟩

theorem snoc (hrun : t.IsRun leaves h) (htouch : h.span.stop = (t.node id).span.start)
    (hproper : (t.node id).span.start < (t.node id).span.stop)
    (hpresent : (t.node id).missing = false) (hcapture : t.capture? id = some h.capture) :
    t.IsRun (leaves ++ [id]) { h with span := h.span.merge (t.node id).span } := by
  have hle := hrun.tiles.laid.le
  have hspan : h.span.merge (t.node id).span = ⟨h.span.start, (t.node id).span.stop⟩ := by
    simp only [Span.merge, Span.mk.injEq]
    omega
  rw [hspan]
  refine ⟨by simp, ?_, fun other hother => ?_⟩
  · rw [List.map_append]
    exact hrun.tiles.snoc htouch.symm hproper.le hpresent
  · rcases List.mem_append.mp hother with hother | hother
    · exact hrun.capture other hother
    · rw [List.mem_singleton.mp hother]
      exact hcapture

end Tree.IsRun

/-- Whether a stretch and the next one are two, and not one. -/
def Highlight.Differs (a b : Highlight) : Prop := a.span.stop = b.span.start → a.capture ≠ b.capture

/-- Whether stretches are those of a division of leaves into runs that could not be longer. -/
structure Divided (t : Tree) (leaves : List Nat) (found : List Highlight) : Prop where
  runs : ∃ runs : List (List Nat × Highlight), runs.flatMap Prod.fst = leaves ∧
    runs.map Prod.snd = found ∧ ∀ run ∈ runs, t.IsRun run.1 run.2
  maximal : found.IsChain Highlight.Differs

namespace Divided
variable {t : Tree} {leaves : List Nat} {found : List Highlight} {id : Nat} {capture : Capture}

/-- A leaf that does not belong to the last run is one of its own. -/
theorem push (h : Divided t leaves found)
    (hproper : (t.node id).span.start < (t.node id).span.stop)
    (hpresent : (t.node id).missing = false) (hcapture : t.capture? id = some capture)
    (hlast : ∀ last ∈ found.getLast?, last.Differs ⟨(t.node id).span, capture⟩) :
    Divided t (leaves ++ [id]) (found ++ [⟨(t.node id).span, capture⟩]) := by
  obtain ⟨⟨runs, rfl, rfl, hruns⟩, hmaximal⟩ := h
  refine ⟨⟨runs ++ [([id], ⟨(t.node id).span, capture⟩)], by simp, by simp, fun run hrun => ?_⟩,
    List.isChain_append.mpr ⟨hmaximal, .singleton _, fun last hlast' next hnext => ?_⟩⟩
  · rcases List.mem_append.mp hrun with hrun | hrun
    · exact hruns run hrun
    · rw [List.mem_singleton.mp hrun]
      exact .single hproper hpresent hcapture
  · cases hnext
    exact hlast last hlast'

/-- A leaf that belongs to the last run makes it longer. -/
theorem extend {last : Highlight} (h : Divided t leaves (found ++ [last]))
    (hproper : (t.node id).span.start < (t.node id).span.stop)
    (hpresent : (t.node id).missing = false) (hcapture : t.capture? id = some last.capture)
    (htouch : last.span.stop = (t.node id).span.start) :
    Divided t (leaves ++ [id])
      (found ++ [{ last with span := last.span.merge (t.node id).span }]) := by
  obtain ⟨⟨runs, rfl, hfound, hruns⟩, hmaximal⟩ := h
  obtain ⟨before, _, rfl, rfl, hrun⟩ := List.map_eq_append_iff.mp hfound
  obtain ⟨⟨run, final⟩, rfl, rfl⟩ := List.map_eq_singleton_iff.mp hrun
  have hlonger := (hruns _ (List.mem_append_right _ (List.mem_singleton_self _))).snoc htouch hproper
    hpresent hcapture
  refine ⟨⟨before ++ [(run ++ [id], _)], by simp, by simp; rfl, fun other hother => ?_⟩, ?_⟩
  · rcases List.mem_append.mp hother with hother | hother
    · exact hruns other (List.mem_append_left _ hother)
    · rw [List.mem_singleton.mp hother]
      exact hlonger
  · -- The longer run starts where the last one did.
    obtain ⟨hbefore, _, hdiffers⟩ := List.isChain_append.mp hmaximal
    refine List.isChain_append.mpr ⟨hbefore, .singleton _, fun previous hprevious next hnext => ?_⟩
    cases hnext
    have hle : final.span.start ≤ final.span.stop :=
      (hruns _ (List.mem_append_right _ (List.mem_singleton_self _))).tiles.laid.le
    have hstart : (final.span.merge (t.node id).span).start = final.span.start :=
      Nat.min_eq_left (hle.trans htouch.le)
    exact fun htouches => hdiffers previous hprevious final rfl (htouches.trans hstart)

/-- Adding a leaf keeps the division. -/
theorem add {found : Array Highlight} (h : Divided t leaves found.toList)
    (hproper : (t.node id).span.start < (t.node id).span.stop)
    (hpresent : (t.node id).missing = false) (hcapture : t.capture? id = some capture) :
    Divided t (leaves ++ [id]) (Highlight.add found ⟨(t.node id).span, capture⟩).toList := by
  rw [Highlight.add]
  split
  · rename_i last hback
    obtain ⟨rest, rfl⟩ := Array.back?_eq_some_iff.mp hback
    rw [Array.toList_push] at h
    split
    · rename_i hjoins
      rw [Bool.and_eq_true, decide_eq_true_eq, decide_eq_true_eq] at hjoins
      obtain ⟨rfl, htouch⟩ := hjoins
      rw [Array.pop_push, Array.toList_push]
      exact h.extend hproper hpresent hcapture htouch
    · rename_i hdiffers
      rw [Array.toList_push, Array.toList_push]
      refine h.push hproper hpresent hcapture fun other hother => ?_
      rw [List.getLast?_concat] at hother
      cases hother
      intro htouch hsame
      simp [htouch, hsame] at hdiffers
  · rename_i hnone
    rw [Array.back?_eq_none_iff] at hnone
    rw [Array.toList_push]
    refine h.push hproper hpresent hcapture ?_
    rw [hnone]
    nofun

/-- The division of leaves that are added one by one. -/
theorem foldl_add (hleaves : ∀ id ∈ leaves, (t.node id).span.start < (t.node id).span.stop ∧
      (t.node id).missing = false) :
    Divided t (leaves.filter fun id => (t.capture? id).isSome)
      ((leaves.filterMap fun id => (t.capture? id).map (⟨(t.node id).span, ·⟩)).foldl
        Highlight.add #[]).toList := by
  induction leaves using List.reverseRecOn with
  | nil => exact ⟨⟨[], rfl, rfl, nofun⟩, .nil⟩
  | append_singleton leaves id ih =>
    have hrest := ih fun other hother => hleaves other (List.mem_append_left _ hother)
    obtain ⟨hproper, hpresent⟩ := hleaves id (List.mem_append_right _ (List.mem_singleton_self _))
    rw [List.filter_append, List.filterMap_append, List.foldl_append]
    cases hcapture : t.capture? id with
    | none => simpa [hcapture] using hrest
    | some capture => simpa [hcapture] using hrest.add hproper hpresent hcapture

end Divided

/-! ### Stretches of leaves that follow one another -/

theorem Tree.IsRun.ends {t : Tree} {leaves : List Nat} {h : Highlight} (hrun : t.IsRun leaves h) :
    (∃ first ∈ leaves, (t.node first).span.start = h.span.start) ∧
      ∃ last ∈ leaves, (t.node last).span.stop = h.span.stop := by
  obtain ⟨hnonempty, htiles, -⟩ := hrun
  refine ⟨?_, leaves.getLast hnonempty, List.getLast_mem hnonempty, ?_⟩
  · obtain ⟨first, rest, rfl⟩ := List.exists_cons_of_ne_nil hnonempty
    rw [List.map_cons] at htiles
    refine ⟨first, List.mem_cons_self .., ?_⟩
    generalize h.span.start = start at htiles
    cases htiles
    rfl
  · rw [← htiles.laid.getLast_stop (by simpa using hnonempty), List.getLast_map]

section Ordered
variable {t : Tree} {found : List Highlight}

/-- Of stretches that follow one another, only one can hold what is not empty. -/
theorem filter_contains (hfollow : found.Pairwise fun a b => a.span.stop ≤ b.span.start)
    {h : Highlight} (hh : h ∈ found) {span : Span} (hproper : span.start < span.stop)
    (hcontains : h.span.contains span = true) :
    found.filter (·.span.contains span) = [h] := by
  obtain ⟨before, after, rfl⟩ := List.append_of_mem hh
  obtain ⟨-, hafter, hbefore⟩ := List.pairwise_append.mp hfollow
  have hin := Span.contains_iff.mp hcontains
  have hfront : before.filter (·.span.contains span) = [] := by
    refine List.filter_eq_nil_iff.mpr fun other hother hholds => ?_
    have := hbefore other hother h (List.mem_cons_self ..)
    have := Span.contains_iff.mp hholds
    omega
  have hback : after.filter (·.span.contains span) = [] := by
    refine List.filter_eq_nil_iff.mpr fun other hother hholds => ?_
    have := List.rel_of_pairwise_cons hafter hother
    have := Span.contains_iff.mp hholds
    omega
  rw [List.filter_append, List.filter_cons, if_pos hcontains, hfront, hback, List.nil_append]

theorem Tree.proper_of_visible {id : Nat} (hid : id ∈ t.visibleLeaves) :
    (t.node id).span.start < (t.node id).span.stop ∧ (t.node id).missing = false := by
  obtain ⟨-, hvisible⟩ := List.mem_filter.mp hid
  simp only [Bool.and_eq_true, Bool.not_eq_true', Span.isEmpty, Span.length, beq_eq_false_iff_ne]
    at hvisible
  exact ⟨by omega, hvisible.1.2⟩

theorem Divided.canonical
    (hordered : t.visibleLeaves.Pairwise fun a b => Precedes (t.node a) (t.node b))
    (h : Divided t (t.visibleLeaves.filter fun id => (t.capture? id).isSome) found) :
    Canonical t found := by
  obtain ⟨⟨runs, hleaves, rfl, hruns⟩, hmaximal⟩ := h
  have hsublist : ∀ run ∈ runs, run.1.Sublist t.visibleLeaves := fun run hrun => by
    have hin : run.1.Sublist (runs.flatMap Prod.fst) :=
      List.sublist_flatten_of_mem (List.mem_map_of_mem hrun)
    rw [hleaves] at hin
    exact hin.trans List.filter_sublist
  have hproper : ∀ run ∈ runs, run.2.span.start < run.2.span.stop := fun run hrun => by
    obtain ⟨first, hfirst, hstart⟩ := (hruns run hrun).ends.1
    rw [← hstart]
    exact (Tree.proper_of_visible ((hsublist run hrun).subset hfirst)).1.trans_le
      ((hruns run hrun).tiles.laid.mem (List.mem_map_of_mem hfirst)).2.2
  have hfollow : (runs.map Prod.snd).Pairwise fun a b => a.span.stop ≤ b.span.start := by
    have hall := hordered.sublist (hleaves ▸ List.filter_sublist)
    rw [List.pairwise_flatMap] at hall
    rw [List.pairwise_map]
    refine hall.2.imp_of_mem fun {a b} ha hb hab => ?_
    obtain ⟨last, hlast, hstop⟩ := (hruns a ha).ends.2
    obtain ⟨first, hfirst, hstart⟩ := (hruns b hb).ends.1
    rw [← hstop, ← hstart]
    exact hab last hlast first hfirst
  refine ⟨fun h hh => ?_, hfollow, fun h hh => ?_, hmaximal, fun id hid capture hcapture => ?_⟩
  · obtain ⟨run, hrun, rfl⟩ := List.mem_map.mp hh
    exact hproper run hrun
  · obtain ⟨run, hrun, rfl⟩ := List.mem_map.mp hh
    exact ⟨run.1, infix_of_tiles (hsublist run hrun) (hruns run hrun).tiles hordered
      fun id hid => (Tree.proper_of_visible hid).1, hruns run hrun⟩
  · have hmem : id ∈ runs.flatMap Prod.fst := by
      rw [hleaves]
      exact List.mem_filter.mpr ⟨hid, by rw [hcapture]; rfl⟩
    obtain ⟨run, hrun, hin⟩ := List.mem_flatMap.mp hmem
    have hcontains := (hruns run hrun).tiles.contains (List.mem_map_of_mem hin)
    have hsame := (hruns run hrun).capture id hin
    exact ⟨run.2, filter_contains hfollow (List.mem_map_of_mem hrun)
      (Tree.proper_of_visible hid).1 hcontains, Option.some.inj (hsame.symm.trans hcapture)⟩

end Ordered

/-! ### Parses -/

section Root
variable {root : Node} {source : String} {problems : List Problem}

theorem visibleLeaves_pairwise (h : Fitting source root) :
    (Tree.ofRoot source root problems).visibleLeaves.Pairwise fun a b =>
      Precedes ((Tree.ofRoot source root problems).node a)
        ((Tree.ofRoot source root problems).node b) := by
  cases hchildren : root.children with
  | nil =>
    -- The only node is the root.
    have hcount : (Tree.ofRoot source root problems).nodeCount = 1 := by
      rw [nodeCount_ofRoot, Node.count_eq, hchildren]
      rfl
    refine .sublist List.filter_sublist ?_
    rw [hcount]
    exact List.pairwise_singleton _ _
  | cons n nodes =>
    have hleaves : ((Tree.ofRoot source root problems).textLeaves).Pairwise fun a b =>
        Precedes ((Tree.ofRoot source root problems).node a)
          ((Tree.ofRoot source root problems).node b) := by
      rw [← List.pairwise_map, map_textLeaves]
      exact h.encloses.pairwise_leaves.filter _
    have hroot : ((Tree.ofRoot source root problems).children 0).isEmpty = false := by
      rw [Sits.root.isEmpty_children, hchildren]
      rfl
    have hrange : List.range (Tree.ofRoot source root problems).nodeCount =
        0 :: List.range' 1 ((Tree.ofRoot source root problems).nodeCount - 1) := by
      rw [nodeCount_ofRoot, Node.count_eq, Nat.add_comm, Nat.add_sub_cancel_left,
        List.range_eq_range', Nat.add_comm, List.range'_succ]
    refine hleaves.sublist ?_
    rw [Tree.visibleLeaves, hrange, List.filter_cons_of_neg (by simp [hroot])]
    exact List.monotone_filter_right _ fun id hid => by
      rw [Bool.and_eq_true] at hid
      exact hid.1

theorem highlights_eq : (Tree.ofRoot source root problems).highlights =
    ((Tree.ofRoot source root problems).visibleLeaves.filterMap fun id =>
      ((Tree.ofRoot source root problems).capture? id).map
        (⟨((Tree.ofRoot source root problems).node id).span, ·⟩)).foldl Highlight.add #[] := by
  rw [Tree.highlights, Tree.visibleLeaves, List.filterMap_filter]
  refine congrArg (List.foldl _ _) (List.filterMap_congr fun id hid => ?_)
  rw [List.mem_range, nodeCount_ofRoot] at hid
  obtain ⟨parent, n, hn⟩ := Sits.exists_of_lt hid
  rw [Highlight.ofNode?, hn.isEmpty_children, hn.node_eq]

theorem Fitting.canonical (h : Fitting source root) :
    Canonical (Tree.ofRoot source root problems)
      (Tree.ofRoot source root problems).highlights.toList := by
  rw [highlights_eq]
  exact (Divided.foldl_add fun id hid => Tree.proper_of_visible hid).canonical
    (visibleLeaves_pairwise h)

end Root

/-- Every parse gives a tree whose classified stretches are canonical. -/
theorem parse_canonical (source : String) (options : ParseOptions) :
    Canonical (parse source options) (parse source options).highlights.toList := by
  rcases parse_cases source options with h | ⟨problems, h⟩
  · rw [h]
    exact (dressedRoot_fitting source options.maxDepth).canonical
  · rw [h]
    exact (emptyRoot_fitting source).canonical

end ScriptTree
