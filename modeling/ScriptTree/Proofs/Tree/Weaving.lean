import Mathlib
import ScriptTree.Proofs.Tree.Attachment

/-! What putting all comments into a tree does.

`Woven comments before after` says how the leaves change: comment by comment, each goes behind all
leaves that end in front of it and in front of all that start behind it. Leaves that touch each other
stay next to each other (`Woven.infix_touching`), and the comments are all that is new
(`Woven.filter_extra`). -/
namespace ScriptTree

/-- What a node that stands for a comment is like. -/
structure IsComment (c : Node) : Prop where
  proper : c.span.start < c.span.stop
  present : c.missing = false
  extra : c.extra = true
  leaf : c.children = []

inductive Woven : List Node → List Node → List Node → Prop
  | nil {leaves} : Woven [] leaves leaves
  | cons {c comments before after leaves} (hbefore : ∀ m ∈ before, Precedes m c)
      (hafter : ∀ m ∈ after, Precedes c m) (rest : Woven comments (before ++ c :: after) leaves) :
      Woven (c :: comments) (before ++ after) leaves

namespace Woven
variable {comments leaves leaves' : List Node}

theorem mem_iff (h : Woven comments leaves leaves') {m : Node} :
    m ∈ leaves' ↔ m ∈ leaves ∨ m ∈ comments := by
  induction h with
  | nil => simp
  | cons _ _ _ ih =>
    rw [ih]
    simp only [List.mem_append, List.mem_cons]
    tauto

/-- Comments go to the same places among some of the leaves. -/
theorem filter (h : Woven comments leaves leaves') {p : Node → Bool}
    (hp : ∀ c ∈ comments, p c = true) :
    Woven comments (leaves.filter p) (leaves'.filter p) := by
  induction h with
  | nil => exact .nil
  | @cons c comments before after leaves hbefore hafter _ ih =>
    have hrest := ih fun d hd => hp d (List.mem_cons_of_mem _ hd)
    rw [List.filter_append, List.filter_cons_of_pos (hp c (List.mem_cons_self ..))] at hrest
    rw [List.filter_append]
    exact .cons (fun m hm => hbefore m (List.mem_of_mem_filter hm))
      (fun m hm => hafter m (List.mem_of_mem_filter hm)) hrest

/-- The comments stand among the leaves in their order. -/
theorem filter_extra (h : Woven comments leaves leaves') (hcomments : ∀ c ∈ comments, IsComment c)
    (hordered : comments.Pairwise Precedes)
    (hearlier : ∀ m ∈ leaves.filter (·.extra), m.span.start < m.span.stop ∧
      ∀ c ∈ comments, Precedes m c) :
    leaves'.filter (·.extra) = leaves.filter (·.extra) ++ comments := by
  induction h with
  | nil => simp
  | @cons c comments before after leaves hbefore hafter _ ih =>
    have hc := hcomments c (List.mem_cons_self ..)
    obtain ⟨hfirst, hordered⟩ := List.pairwise_cons.mp hordered
    -- A comment that is there already stands in front of this one.
    have hnone : after.filter (·.extra) = [] := by
      rw [List.filter_eq_nil_iff]
      intro m hm hextra
      obtain ⟨hproper, hprecedes⟩ := hearlier m (by simp [hm, hextra])
      have hcm := hafter m hm
      have hmc := hprecedes c (List.mem_cons_self ..)
      unfold Precedes at hcm hmc
      have := hc.proper
      omega
    have hsplit : (before ++ c :: after).filter (·.extra) = before.filter (·.extra) ++ [c] := by
      simp [hc.extra, hnone]
    rw [ih (fun d hd => hcomments d (List.mem_cons_of_mem _ hd)) hordered, hsplit]
    · simp [hnone]
    · rw [hsplit]
      intro m hm
      rcases List.mem_append.mp hm with hm | hm
      · obtain ⟨hproper, hprecedes⟩ := hearlier m (by
          rw [List.filter_append]
          exact List.mem_append_left _ hm)
        exact ⟨hproper, fun d hd => hprecedes d (List.mem_cons_of_mem _ hd)⟩
      · rw [List.mem_singleton.mp hm]
        exact ⟨hc.proper, hfirst⟩

/-- Nothing comes between leaves that touch. -/
theorem infix_touching (h : Woven comments leaves leaves')
    (hcomments : ∀ c ∈ comments, IsComment c) {group : List Node}
    (htouching : group.IsChain fun m m' => m'.span.start ≤ m.span.stop)
    (hgroup : group <:+: leaves) : group <:+: leaves' := by
  induction h with
  | nil => exact hgroup
  | @cons c comments before after leaves hbefore hafter _ ih =>
    refine ih (fun d hd => hcomments d (List.mem_cons_of_mem _ hd)) ?_
    have hc := hcomments c (List.mem_cons_self ..)
    obtain ⟨left, right, hsplit⟩ := hgroup
    rcases List.append_eq_append_iff.mp hsplit with ⟨x, rfl, rfl⟩ | ⟨y, hleft, rfl⟩
    · exact ⟨left, x ++ c :: after, by simp⟩
    rcases List.append_eq_append_iff.mp hleft with ⟨z, rfl, rfl⟩ | ⟨z, rfl, rfl⟩
    · -- The comment would stand between two leaves of the group.
      rcases List.eq_nil_or_concat z with rfl | ⟨z, m, rfl⟩
      · exact ⟨left ++ [c], right, by simp⟩
      cases y with
      | nil => exact ⟨left, c :: right, by simp⟩
      | cons m' y =>
        have htouch := (List.isChain_append.mp htouching).2.2 m (by simp) m' rfl
        have hm := hbefore m (by simp)
        have hm' := hafter m' (by simp)
        unfold Precedes at hm hm'
        have := hc.proper
        omega
    · exact ⟨before ++ c :: z, right, by simp⟩

end Woven

/-! ### All comments -/

/-- A tree in which comments can be put. -/
structure Dressable (root : Node) (comments : List Node) : Prop where
  encloses : Encloses root
  each : ∀ c ∈ comments, IsComment c
  ordered : comments.Pairwise Precedes
  within : ∀ c ∈ comments, root.span.start ≤ c.span.start ∧ c.span.stop ≤ root.span.stop
  clear : ∀ c ∈ comments, ∀ m ∈ leavesAll root.children, Precedes m c ∨ Precedes c m

/-- What is left of a tree and what is new when comments have been put in. -/
structure Dressed (root : Node) (comments : List Node) (dressed : Node) : Prop where
  encloses : Encloses dressed
  same : ∃ children, dressed = { root with children }
  strip : dressed.strip = root.strip
  woven : Woven comments (leavesAll root.children) (leavesAll dressed.children)
  extras : (∀ m ∈ Node.preorderAll root.children, m.extra = true → m.children = []) →
    ∀ m ∈ Node.preorderAll dressed.children, m.extra = true → m.children = []

/-- When one comment has been put in, the others still can be. -/
theorem Dressable.attach {root c : Node} {comments : List Node} (h : Dressable root (c :: comments)) :
    Inserted c root (root.attach c) ∧ Dressable (root.attach c) comments := by
  have hc := h.each c (List.mem_cons_self ..)
  have hwithin := h.within c (List.mem_cons_self ..)
  obtain ⟨hfirst, hordered⟩ := List.pairwise_cons.mp h.ordered
  have hins : Inserted c root (root.attach c) :=
    attach_inserted h.encloses hwithin.1 (h.clear c (List.mem_cons_self ..))
  refine ⟨hins, hins.encloses hc.proper hc.present hc.leaf h.encloses hwithin.1 hwithin.2,
    fun d hd => h.each d (List.mem_cons_of_mem _ hd), hordered, fun d hd => ?_, fun d hd m hm => ?_⟩
  · rw [hins.span_eq]
    exact h.within d (List.mem_cons_of_mem _ hd)
  · obtain ⟨before, after, hleaves, hleaves', _⟩ := hins.leaves hc.leaf h.encloses
    have hclear := h.clear d (List.mem_cons_of_mem _ hd) m
    rw [hleaves'] at hm
    rw [hleaves] at hclear
    rcases List.mem_append.mp hm with hm | hm
    · exact hclear (List.mem_append_left _ hm)
    · rcases List.mem_cons.mp hm with rfl | hm
      · exact .inl (hfirst d hd)
      · exact hclear (List.mem_append_right _ hm)

theorem attachAll_dressed {root : Node} {comments : List Node} (h : Dressable root comments) :
    Dressed root comments (root.attachAll comments) := by
  induction comments generalizing root with
  | nil => exact ⟨h.encloses, ⟨root.children, by cases root; rfl⟩, rfl, .nil, fun h => h⟩
  | cons c comments ih =>
    have hc := h.each c (List.mem_cons_self ..)
    obtain ⟨hins, hnext⟩ := h.attach
    obtain ⟨before, after, hleaves, hleaves', hbefore, hafter⟩ := hins.leaves hc.leaf h.encloses
    have hdressed := ih hnext
    refine ⟨hdressed.encloses, ?_, ?_, ?_, fun hroot => ?_⟩
    · obtain ⟨children, hsame⟩ := hdressed.same
      obtain ⟨hattach, _⟩ := hins.eq_with
      generalize hcs : (root.attach c).children = cs at hattach
      refine ⟨children, hsame.trans ?_⟩
      rw [hattach]
    · exact hdressed.strip.trans (hins.strip_eq hc.extra)
    · have hwoven := hdressed.woven
      rw [hleaves'] at hwoven
      rw [hleaves]
      exact .cons hbefore hafter hwoven
    · exact hdressed.extras (hins.extras_leaves hc.leaf hroot)

end ScriptTree
