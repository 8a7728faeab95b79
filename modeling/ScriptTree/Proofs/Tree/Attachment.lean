import Mathlib
import ScriptTree.Proofs.Tree.Framing
import ScriptTree.Tree.Comments

/-! What putting a comment into a tree does.

`attach` goes down to a host on a path and back up. Seen from a node, it either puts the comment
among the node's children or into the first child that has room for it (`attach_below`,
`attach_here`). In a tree whose leaves the comment does not overlap, every node is in front of the
comment, behind it, or has room for it, and so the children that the comment is put behind are those
in front of it: `Inserted` says this for every node on the way, and all that is preserved is shown by
induction over it. -/
namespace ScriptTree

namespace Node

/-! ### One level -/

section Enter
variable {span : Span} {n m comment : Node} {before after : List Node}

theorem enter_here (h : ∀ m ∈ n.children, encloses span m = false) (path : List Crumb) :
    enter span n path = (n, path) := by
  have hnone : n.children.dropWhile (!encloses span ·) = [] := by
    rw [List.dropWhile_eq_nil_iff]
    exact fun m hm => by simp [h m hm]
  rw [enter.eq_def]
  split
  · rfl
  · rename_i hsome
    rw [hnone] at hsome
    cases hsome

theorem enter_below (hchildren : n.children = before ++ m :: after)
    (hbefore : ∀ x ∈ before, encloses span x = false) (hm : encloses span m = true)
    (path : List Crumb) : enter span n path = enter span m (⟨n, before, after⟩ :: path) := by
  have hdrop : n.children.dropWhile (!encloses span ·) = m :: after := by
    rw [hchildren, List.dropWhile_append_of_pos (by simpa using hbefore), List.dropWhile_cons_of_neg]
    simp [hm]
  have htake : n.children.takeWhile (!encloses span ·) = before := by
    rw [hchildren, List.takeWhile_append_of_pos (by simpa using hbefore),
      List.takeWhile_cons_of_neg (by simp [hm]), List.append_nil]
  rw [enter.eq_def]
  split
  · rename_i hnone
    rw [hdrop] at hnone
    cases hnone
  · rename_i hsome
    rw [hdrop] at hsome
    cases hsome
    rw [htake]

/-- Either no child has room for a span, or a first one has. -/
theorem encloses_cases (span : Span) (n : Node) :
    (∀ m ∈ n.children, encloses span m = false) ∨
      ∃ before m after, n.children = before ++ m :: after ∧
        (∀ x ∈ before, encloses span x = false) ∧ encloses span m = true := by
  cases hfind : n.children.find? (encloses span) with
  | none => exact .inl (by simpa using hfind)
  | some m =>
    obtain ⟨hm, before, after, hchildren, hbefore⟩ := List.find?_eq_some_iff_append.mp hfind
    exact .inr ⟨before, m, after, hchildren, by simpa using hbefore, hm⟩

/-- The path into a node does not depend on how the node was reached. -/
theorem enter_append (span : Span) (n : Node) (path : List Crumb) :
    enter span n path = ((enter span n []).1, (enter span n []).2 ++ path) := by
  induction hcount : n.count using Nat.strong_induction_on generalizing n path with
  | _ count ih =>
    rcases encloses_cases span n with hnone | ⟨before, m, after, hchildren, hbefore, hm⟩
    · simp [enter_here hnone]
    · have hlt : m.count < count := hcount ▸ count_lt_of_mem_children (by simp [hchildren])
      rw [enter_below hchildren hbefore hm, enter_below hchildren hbefore hm,
        ih _ hlt m _ rfl, ih _ hlt m [_] rfl]
      simp

theorem attach_here (h : ∀ m ∈ n.children, encloses comment.span m = false) :
    attach n comment = { n with children := insertComment comment n.children } := by
  rw [attach, enter_here h]
  rfl

theorem attach_below (hchildren : n.children = before ++ m :: after)
    (hbefore : ∀ x ∈ before, encloses comment.span x = false)
    (hm : encloses comment.span m = true) :
    attach n comment = { n with children := before ++ attach m comment :: after } := by
  rw [attach, enter_below hchildren hbefore hm, enter_append]
  simp only [List.foldl_append]
  rfl

end Enter

end Node

/-! ### In front, behind or around -/

theorem Laid.getLast_stop {a b : Nat} {ns : List Node} (h : Laid a ns b) (hne : ns ≠ []) :
    (ns.getLast hne).span.stop = b := by
  induction h with
  | nil => exact absurd rfl hne
  | @cons a b n ns after forward touches rest ih =>
    cases ns with
    | nil =>
      cases rest
      rfl
    | cons m ns => exact ih (List.cons_ne_nil _ _)

/-- A node has room for a span that it contains, unless it just covers it. -/
theorem encloses_iff {span : Span} {n : Node} : n.encloses span = true ↔
    n.children ≠ [] ∧ n.span.start ≤ span.start ∧ span.stop ≤ n.span.stop ∧
      (n.span.start < span.start ∨ span.stop < n.span.stop) := by
  have hspan : n.span = span ↔ n.span.start = span.start ∧ n.span.stop = span.stop := by
    cases n.span; cases span; simp
  simp only [Node.encloses, Span.contains, Bool.and_eq_true, bne_iff_ne, decide_eq_true_eq, ne_eq,
    hspan, Bool.not_eq_true', List.isEmpty_eq_false_iff, and_assoc]
  refine and_congr_right fun _ => and_congr_right fun _ => and_congr_right fun _ => ?_
  omega

/-! ### Siblings out of reach -/

theorem encloses_of_precedes {c m : Node} (hproper : c.span.start < c.span.stop)
    (h : Precedes c m ∨ Precedes m c) : m.encloses c.span = false := by
  rw [← Bool.not_eq_true, encloses_iff]
  unfold Precedes at h
  omega

section Siblings
variable {root root' c : Node} {others : List Node} (hproper : c.span.start < c.span.stop)
include hproper

/-- What stands behind a comment does not matter to it. -/
theorem attach_front (hchildren : root.children = root'.children ++ others)
    (hothers : ∀ m ∈ others, m.missing = false ∧ Precedes c m) :
    (root.attach c).children = (root'.attach c).children ++ others := by
  have hroom (m : Node) (hm : m ∈ others) : m.encloses c.span = false :=
    encloses_of_precedes hproper (.inl (hothers m hm).2)
  rcases Node.encloses_cases c.span root' with hnone | ⟨before, m, after, hchildren', hbefore, hm⟩
  · have hnone' : ∀ m ∈ root.children, m.encloses c.span = false := by
      rw [hchildren, List.forall_mem_append]
      exact ⟨hnone, hroom⟩
    have hstop : others.takeWhile (Node.isBefore c.span.stop) = [] := by
      cases others with
      | nil => rfl
      | cons m others =>
        obtain ⟨hpresent, hprecedes⟩ := hothers m (List.mem_cons_self ..)
        rw [List.takeWhile_cons_of_neg]
        rw [Node.isBefore, hpresent, Bool.false_or, decide_eq_true_eq]
        exact Nat.not_lt.mpr hprecedes
    have htake : (root'.children ++ others).takeWhile (Node.isBefore c.span.stop) =
        root'.children.takeWhile (Node.isBefore c.span.stop) := by
      rw [List.takeWhile_append, hstop, List.append_nil]
      split
      · exact ((List.takeWhile_prefix _).eq_of_length ‹_›).symm
      · rfl
    rw [Node.attach_here hnone, Node.attach_here hnone', hchildren]
    simp only [Node.insertComment, htake]
    rw [List.drop_append_of_le_length (List.takeWhile_prefix _).length_le, List.append_assoc,
      List.cons_append]
  · rw [hchildren', List.append_assoc, List.cons_append] at hchildren
    rw [Node.attach_below hchildren hbefore hm, Node.attach_below hchildren' hbefore hm]
    simp

/-- What stands in front of a comment does not matter to it. -/
theorem attach_behind (hchildren : root.children = others ++ root'.children)
    (hothers : ∀ m ∈ others, m.span.start ≤ m.span.stop ∧ Precedes m c) :
    (root.attach c).children = others ++ (root'.attach c).children := by
  have hroom (m : Node) (hm : m ∈ others) : m.encloses c.span = false :=
    encloses_of_precedes hproper (.inr (hothers m hm).2)
  rcases Node.encloses_cases c.span root' with hnone | ⟨before, m, after, hchildren', hbefore, hm⟩
  · have hnone' : ∀ m ∈ root.children, m.encloses c.span = false := by
      rw [hchildren, List.forall_mem_append]
      exact ⟨hroom, hnone⟩
    have hall : ∀ m ∈ others, m.isBefore c.span.stop = true := fun m hm => by
      have hm := hothers m hm
      unfold Precedes at hm
      rw [Node.isBefore, Bool.or_eq_true, decide_eq_true_eq]
      omega
    rw [Node.attach_here hnone, Node.attach_here hnone', hchildren]
    simp [Node.insertComment, List.takeWhile_append_of_pos hall, List.drop_append]
  · rw [hchildren', ← List.append_assoc] at hchildren
    have hbefore' : ∀ x ∈ others ++ before, x.encloses c.span = false := by
      rw [List.forall_mem_append]
      exact ⟨hroom, hbefore⟩
    rw [Node.attach_below hchildren hbefore' hm, Node.attach_below hchildren' hbefore hm]
    exact List.append_assoc ..

omit hproper

theorem attachAll_front {cs : List Node} (hproper : ∀ c ∈ cs, c.span.start < c.span.stop)
    (hchildren : root.children = root'.children ++ others)
    (hothers : ∀ c ∈ cs, ∀ m ∈ others, m.missing = false ∧ Precedes c m) :
    (root.attachAll cs).children = (root'.attachAll cs).children ++ others := by
  induction cs generalizing root root' with
  | nil => exact hchildren
  | cons c cs ih =>
    rw [List.forall_mem_cons] at hproper hothers
    exact ih hproper.2 (attach_front hproper.1 hchildren hothers.1) hothers.2

theorem attachAll_behind {cs : List Node} (hproper : ∀ c ∈ cs, c.span.start < c.span.stop)
    (hchildren : root.children = others ++ root'.children)
    (hothers : ∀ c ∈ cs, ∀ m ∈ others, m.span.start ≤ m.span.stop ∧ Precedes m c) :
    (root.attachAll cs).children = others ++ (root'.attachAll cs).children := by
  induction cs generalizing root root' with
  | nil => exact hchildren
  | cons c cs ih =>
    rw [List.forall_mem_cons] at hproper hothers
    exact ih hproper.2 (attach_behind hproper.1 hchildren hothers.1) hothers.2

end Siblings

section Comment
variable {c : Node}

/-- A comment that overlaps no leaf of a node is in front of the node, behind it, or the node has
room for it. -/
theorem Framed.cases_comment {n : Node} (h : Framed n)
    (hclear : ∀ m ∈ leavesAll [n], Precedes m c ∨ Precedes c m) :
    Precedes n c ∨ Precedes c n ∨ n.encloses c.span = true := by
  induction h with
  | leaf hchildren _ =>
    have := hclear _ (by rw [leavesAll_singleton_leaf hchildren]; exact List.mem_singleton.mpr rfl)
    exact this.elim .inl fun h => .inr (.inl h)
  | @inner n first cs hchildren start proper _ _ laid below ih =>
    have hne : n.children ≠ [] := by simp [hchildren]
    rw [leavesAll_singleton_inner hne] at hclear
    have hfirst : first ∈ n.children := by simp [hchildren]
    set last := n.children.getLast hne with hlast
    have hstop : last.span.stop = n.span.stop := laid.getLast_stop hne
    have hmem : last ∈ n.children := List.getLast_mem hne
    have hcases : ∀ m ∈ n.children, Precedes m c ∨ Precedes c m ∨ m.encloses c.span = true :=
      fun m hm => ih m hm fun x hx => hclear x (mem_leavesAll.mpr ⟨m, hm, hx⟩)
    by_cases hany : ∃ m ∈ n.children, m.encloses c.span = true
    · obtain ⟨m, hm, hroom⟩ := hany
      obtain ⟨_, hstart, hstop, hproper⟩ := encloses_iff.mp hroom
      have := laid.mem hm
      exact .inr (.inr (encloses_iff.mpr ⟨hne, by omega, by omega, by omega⟩))
    have hside : ∀ m ∈ n.children, Precedes m c ∨ Precedes c m := fun m hm =>
      (hcases m hm).imp_right fun h => h.resolve_right fun hroom => hany ⟨m, hm, hroom⟩
    -- The first child decides what is in front, the last one what is behind.
    rcases hside first hfirst with hbefore | hafter
    · rcases hside last hmem with hlastBefore | hlastAfter
      · rw [Precedes, hstop] at hlastBefore
        exact .inl hlastBefore
      · have := (laid.mem hmem).2.1
        unfold Precedes at hbefore hlastAfter
        exact .inr (.inr (encloses_iff.mpr ⟨hne, by omega, by omega, by omega⟩))
    · rw [Precedes, start] at hafter
      exact .inr (.inl hafter)

/-- Nodes side by side that a comment does not overlap stand in front of it or behind it, and it is
put in between. -/
theorem Laid.insertComment_eq {a b : Nat} {ns : List Node} (h : Laid a ns b)
    (ha : a ≤ c.span.start) (hside : ∀ m ∈ ns, Precedes m c ∨ Precedes c m) :
    ∃ before after, ns = before ++ after ∧ Node.insertComment c ns = before ++ c :: after ∧
      (∀ m ∈ before, Precedes m c) ∧ ∀ m ∈ after, Precedes c m := by
  suffices hsplit : ∃ before after, ns = before ++ after ∧
      ns.takeWhile (Node.isBefore c.span.stop) = before ∧
        (∀ m ∈ before, Precedes m c) ∧ ∀ m ∈ after, Precedes c m by
    obtain ⟨before, after, rfl, htake, hbefore, hafter⟩ := hsplit
    refine ⟨before, after, rfl, ?_, hbefore, hafter⟩
    simp only [Node.insertComment, htake, List.drop_left]
  induction h with
  | nil => exact ⟨[], [], rfl, rfl, nofun, nofun⟩
  | @cons a b n ns after forward touches rest ih =>
    have hn := hside n (List.mem_cons_self ..)
    by_cases hfront : n.isBefore c.span.stop = true
    · have hprecedes : Precedes n c := by
        rw [Node.isBefore, Bool.or_eq_true, decide_eq_true_eq] at hfront
        rcases hfront with hmissing | hstart
        · rw [Precedes, touches hmissing]
          exact ha
        · exact hn.resolve_right fun h => by unfold Precedes at h; omega
      obtain ⟨before, after, rfl, htake, hbefore, hafter⟩ :=
        ih hprecedes fun m hm => hside m (List.mem_cons_of_mem _ hm)
      refine ⟨n :: before, after, rfl, ?_, ?_, hafter⟩
      · rw [List.takeWhile_cons_of_pos hfront, htake]
      · exact List.forall_mem_cons.mpr ⟨hprecedes, hbefore⟩
    · refine ⟨[], n :: ns, rfl, List.takeWhile_cons_of_neg hfront, nofun, ?_⟩
      rw [Node.isBefore, Bool.or_eq_true, not_or, decide_eq_true_eq] at hfront
      refine List.forall_mem_cons.mpr ⟨Nat.not_lt.mp hfront.2, fun m hm => ?_⟩
      have := (rest.mem hm).1
      unfold Precedes
      omega

end Comment

/-! ### All levels -/

/-- Whether the second tree is the first one with a comment in it, put between children that it
stands between. -/
inductive Inserted (c : Node) : Node → Node → Prop
  | here {n before after} (hchildren : n.children = before ++ after)
      (hbefore : ∀ m ∈ before, Precedes m c) (hafter : ∀ m ∈ after, Precedes c m) :
      Inserted c n { n with children := before ++ c :: after }
  | inside {n m m' before after} (hchildren : n.children = before ++ m :: after)
      (hroom : m.encloses c.span = true) (h : Inserted c m m') :
      Inserted c n { n with children := before ++ m' :: after }

/-- Attaching a comment that overlaps no leaf puts it where it stands. -/
theorem attach_inserted {c n : Node} (hn : Encloses n)
    (hstart : n.span.start ≤ c.span.start)
    (hclear : ∀ m ∈ leavesAll n.children, Precedes m c ∨ Precedes c m) :
    Inserted c n (n.attach c) := by
  induction hcount : n.count using Nat.strong_induction_on generalizing n with
  | _ count ih =>
    obtain ⟨stop, _, hlaid⟩ := hn.laid
    rcases Node.encloses_cases c.span n with hnone | ⟨before, m, after, hchildren, hbefore, hroom⟩
    · have hside : ∀ m ∈ n.children, Precedes m c ∨ Precedes c m := fun m hm => by
        have := (hn.below m hm).cases_comment fun x hx => hclear x (mem_leavesAll.mpr ⟨m, hm, hx⟩)
        rw [hnone m hm] at this
        simpa using this
      obtain ⟨before, after, hchildren, hinsert, hbefore, hafter⟩ :=
        hlaid.insertComment_eq hstart hside
      rw [Node.attach_here hnone, hinsert]
      exact .here hchildren hbefore hafter
    · have hm : m ∈ n.children := by simp [hchildren]
      obtain ⟨hne, hmstart, _⟩ := encloses_iff.mp hroom
      rw [Node.attach_below hchildren hbefore hroom]
      refine .inside hchildren hroom (ih _ (hcount ▸ Node.count_lt_of_mem_children hm)
        ((hn.below m hm).encloses hne) hmstart (fun x hx => ?_) rfl)
      rw [← leavesAll_singleton_inner hne] at hx
      exact hclear x (mem_leavesAll.mpr ⟨m, hm, hx⟩)

/-! ### What is kept -/

namespace Inserted
variable {c n n' : Node}

/-- A node keeps everything but its children. -/
theorem eq_with (h : Inserted c n n') :
    n' = { n with children := n'.children } ∧ n'.children ≠ [] := by
  cases h with
  | here => exact ⟨rfl, by simp⟩
  | inside => exact ⟨rfl, by simp⟩

theorem span_eq (h : Inserted c n n') : n'.span = n.span := by
  rw [h.eq_with.1]

theorem missing_eq (h : Inserted c n n') : n'.missing = n.missing := by
  rw [h.eq_with.1]

theorem extra_eq (h : Inserted c n n') : n'.extra = n.extra := by
  rw [h.eq_with.1]

end Inserted

theorem Laid.le_of_precedes {a b : Nat} {ns : List Node} {c : Node} (h : Laid a ns b)
    (ha : a ≤ c.span.start) (hns : ∀ m ∈ ns, Precedes m c) : b ≤ c.span.start := by
  induction h with
  | nil => exact ha
  | @cons a b n ns _ _ _ _ ih =>
    exact ih (hns n (List.mem_cons_self ..)) fun m hm => hns m (List.mem_cons_of_mem _ hm)

/-- Nodes side by side stay so when a comment is put between them. -/
theorem Laid.insert {a b : Nat} {before after : List Node} {c : Node}
    (h : Laid a (before ++ after) b) (ha : a ≤ c.span.start) (hc : c.span.start < c.span.stop)
    (hpresent : c.missing = false) (hbefore : ∀ m ∈ before, Precedes m c)
    (hafter : ∀ m ∈ after, Precedes c m) :
    ∃ stop, Laid a (before ++ c :: after) stop ∧ (stop = b ∨ after = [] ∧ stop = c.span.stop) := by
  obtain ⟨middle, hfront, hback⟩ := h.split
  have hmiddle := hfront.le_of_precedes ha hbefore
  have htouches : c.missing = true → c.span = .empty middle := fun hmissing => by
    rw [hpresent] at hmissing
    cases hmissing
  cases hback with
  | nil => exact ⟨_, hfront.append (.cons hmiddle hc.le htouches .nil), .inr ⟨rfl, rfl⟩⟩
  | @cons _ _ n ns hstart forward hn rest =>
    have hprecedes : c.span.stop ≤ n.span.start := hafter n (List.mem_cons_self ..)
    refine ⟨_, hfront.append (.cons hmiddle hc.le htouches (.cons hprecedes forward ?_ rest)),
      .inl rfl⟩
    -- What is missing touches what is in front of it, so nothing comes in between.
    intro hmissing
    rw [hn hmissing] at hprecedes
    exact absurd hprecedes (by show ¬c.span.stop ≤ middle; omega)

theorem Laid.replace {a b : Nat} {before after : List Node} {m m' : Node}
    (h : Laid a (before ++ m :: after) b) (hspan : m'.span = m.span)
    (hmissing : m'.missing = m.missing) : Laid a (before ++ m' :: after) b := by
  obtain ⟨middle, hfront, hback⟩ := h.split
  cases hback with
  | cons hafter forward touches rest =>
    rw [← hspan] at hafter forward touches rest
    rw [← hmissing] at touches
    exact hfront.append (.cons hafter forward touches rest)

namespace Inserted
variable {c n n' : Node} (hc : c.span.start < c.span.stop) (hpresent : c.missing = false)
  (hleaf : c.children = [])
include hc hpresent

/-- The children of a node stay side by side. -/
theorem laid (h : Inserted c n n') (hstart : n.span.start ≤ c.span.start) {stop : Nat}
    (hlaid : Laid n.span.start n.children stop) :
    ∃ stop', Laid n'.span.start n'.children stop' ∧
      (stop' = stop ∨ stop' = c.span.stop ∧ stop ≤ c.span.start) := by
  cases h with
  | @here _ before after hchildren hbefore hafter =>
    rw [hchildren] at hlaid
    obtain ⟨stop', hlaid', hstop'⟩ := hlaid.insert hstart hc hpresent hbefore hafter
    refine ⟨stop', hlaid', hstop'.imp_right ?_⟩
    rintro ⟨rfl, rfl⟩
    rw [List.append_nil] at hlaid
    exact ⟨rfl, hlaid.le_of_precedes hstart hbefore⟩
  | inside hchildren _ h =>
    rw [hchildren] at hlaid
    exact ⟨stop, hlaid.replace h.span_eq h.missing_eq, .inl rfl⟩

/-- A comment in a framed node is neither the first nor the last child. -/
theorem framed_of_children (h : Inserted c n n') (hroom : n.encloses c.span = true) (hn : Framed n)
    (hbelow : ∀ m ∈ n'.children, Framed m) : Framed n' := by
  obtain ⟨hne, hstart, hstop, _⟩ := encloses_iff.mp hroom
  cases hn with
  | leaf hnone => exact absurd hnone hne
  | @inner _ first cs hchildren start proper hfirst hlast hlaid below =>
    obtain ⟨stop', hlaid', hstop'⟩ := h.laid hc hpresent hstart hlaid
    obtain rfl : stop' = n.span.stop := hstop'.resolve_right fun h => by omega
    have hspan := h.span_eq
    cases h with
    | @here _ before after hsplit hbefore hafter =>
      rw [hsplit] at hchildren hlast hlaid
      cases before with
      | nil =>
        rw [List.nil_append] at hchildren
        have : c.span.stop ≤ first.span.start := hafter first (by simp [hchildren])
        omega
      | cons x before =>
        obtain ⟨rfl, rfl⟩ := List.cons.inj hchildren
        cases after with
        | nil =>
          rw [List.append_nil] at hlaid
          have := hlaid.le_of_precedes hstart hbefore
          omega
        | cons y ys =>
          refine .inner rfl start proper hfirst ?_ hlaid' hbelow
          rw [List.getLast?_append] at hlast
          rw [List.getLast?_append, List.getLast?_cons_cons]
          exact hlast
    | @inside _ m m' before after hsplit hm h =>
      rw [hsplit] at hchildren hlast
      have hlast' : ∀ x ∈ (before ++ m' :: after).getLast?, x.extra = false := by
        cases after with
        | nil => simpa [h.extra_eq] using hlast
        | cons y ys =>
          rw [List.getLast?_append, List.getLast?_cons_cons] at hlast ⊢
          exact hlast
      cases before with
      | nil =>
        obtain ⟨rfl, rfl⟩ := List.cons.inj hchildren
        refine .inner rfl ?_ ?_ ?_ hlast' hlaid' hbelow
        · rwa [h.span_eq]
        · rwa [h.span_eq]
        · rwa [h.extra_eq]
      | cons x before =>
        obtain ⟨rfl, rfl⟩ := List.cons.inj hchildren
        exact .inner rfl start proper hfirst hlast' hlaid' hbelow

include hleaf

theorem framed_children (h : Inserted c n n') (hn : ∀ m ∈ n.children, Framed m) :
    ∀ m ∈ n'.children, Framed m := by
  induction h with
  | here hchildren _ _ =>
    intro m hm
    rw [hchildren] at hn
    rcases List.mem_append.mp hm with hm | hm
    · exact hn m (List.mem_append_left _ hm)
    · rcases List.mem_cons.mp hm with rfl | hm
      · exact .leaf hleaf hc.le
      · exact hn m (List.mem_append_right _ hm)
  | @inside n m m' before after hchildren hroom h ih =>
    intro x hx
    rw [hchildren] at hn
    have hm : Framed m := hn m (by simp)
    rcases List.mem_append.mp hx with hx | hx
    · exact hn x (List.mem_append_left _ hx)
    · rcases List.mem_cons.mp hx with rfl | hx
      · exact h.framed_of_children hc hpresent hroom hm (ih hm.child)
      · exact hn x (List.mem_append_right _ (List.mem_cons_of_mem _ hx))

/-- A tree with room for its children has room for them and the comment. -/
theorem encloses (h : Inserted c n n') (hn : Encloses n) (hstart : n.span.start ≤ c.span.start)
    (hstop : c.span.stop ≤ n.span.stop) : Encloses n' := by
  obtain ⟨stop, hle, hlaid⟩ := hn.laid
  obtain ⟨stop', hlaid', hstop'⟩ := h.laid hc hpresent hstart hlaid
  refine ⟨⟨stop', ?_, hlaid'⟩, h.framed_children hc hpresent hleaf hn.below⟩
  rw [h.span_eq]
  omega

omit hc hpresent

/-- The comment is one more leaf, at its place among the leaves. -/
theorem leaves (h : Inserted c n n') (hn : Encloses n) :
    ∃ before after, leavesAll n.children = before ++ after ∧
      leavesAll n'.children = before ++ c :: after ∧
        (∀ m ∈ before, Precedes m c) ∧ ∀ m ∈ after, Precedes c m := by
  induction h with
  | @here n before after hchildren hbefore hafter =>
    have hframed := hn.below
    rw [hchildren] at hframed
    refine ⟨leavesAll before, leavesAll after, ?_, ?_, fun x hx => ?_, fun x hx => ?_⟩
    · rw [hchildren, leavesAll_append]
    · rw [leavesAll_append, leavesAll_cons, leavesAll_singleton_leaf hleaf, List.singleton_append]
    · obtain ⟨m, hm, hx⟩ := mem_leavesAll.mp hx
      exact ((hframed m (List.mem_append_left _ hm)).mem_leaves hx).2.2.trans (hbefore m hm)
    · obtain ⟨m, hm, hx⟩ := mem_leavesAll.mp hx
      exact (hafter m hm).trans ((hframed m (List.mem_append_right _ hm)).mem_leaves hx).1
  | @inside n m m' before after hchildren hroom h ih =>
    have hframed := hn.below
    obtain ⟨stop, _, hlaid⟩ := hn.laid
    rw [hchildren] at hframed hlaid
    have hsides := List.pairwise_append.mp hlaid.pairwise
    have hm : Framed m := hframed m (by simp)
    obtain ⟨hne, hstart, hstop, _⟩ := encloses_iff.mp hroom
    obtain ⟨front, back, hleaves, hleaves', hfront, hback⟩ := ih (hm.encloses hne)
    have hsplit : ∀ {x : Node}, x.children ≠ [] → leavesAll (before ++ x :: after) =
        leavesAll before ++ (leavesAll x.children ++ leavesAll after) := fun hx => by
      rw [leavesAll_append, leavesAll_cons, leavesAll_singleton_inner hx]
    refine ⟨leavesAll before ++ front, back ++ leavesAll after, ?_, ?_, fun x hx => ?_,
      fun x hx => ?_⟩
    · rw [hchildren, hsplit hne, hleaves]
      simp
    · rw [hsplit h.eq_with.2, hleaves']
      simp
    · rcases List.mem_append.mp hx with hx | hx
      · obtain ⟨y, hy, hx⟩ := mem_leavesAll.mp hx
        have hxy := ((hframed y (List.mem_append_left _ hy)).mem_leaves hx).2.2
        have hym : y.span.stop ≤ m.span.start := hsides.2.2 y hy m (List.mem_cons_self ..)
        exact hxy.trans (hym.trans hstart)
      · exact hfront x hx
    · rcases List.mem_append.mp hx with hx | hx
      · exact hback x hx
      · obtain ⟨y, hy, hx⟩ := mem_leavesAll.mp hx
        have hxy := ((hframed y (by simp [hy])).mem_leaves hx).1
        have hmy : m.span.stop ≤ y.span.start := (List.pairwise_cons.mp hsides.2.1).1 y hy
        exact hstop.trans (hmy.trans hxy)

/-- Comments below a node have no children. -/
theorem extras_leaves (h : Inserted c n n')
    (hn : ∀ m ∈ Node.preorderAll n.children, m.extra = true → m.children = []) :
    ∀ m ∈ Node.preorderAll n'.children, m.extra = true → m.children = [] := by
  induction h with
  | here hchildren _ _ =>
    intro m hm
    rw [hchildren, Node.preorderAll_append] at hn
    simp only [Node.preorderAll_append, Node.preorderAll, Node.preorder_eq c, hleaf,
      List.mem_append, List.mem_cons, List.not_mem_nil, or_false] at hm
    rcases hm with hm | rfl | hm
    · exact hn m (List.mem_append_left _ hm)
    · exact fun _ => hleaf
    · exact hn m (List.mem_append_right _ hm)
  | @inside n m m' before after hchildren hroom h ih =>
    intro x hx
    rw [hchildren, Node.preorderAll_append, Node.preorderAll, Node.preorder_eq] at hn
    simp only [Node.preorderAll_append, Node.preorderAll, Node.preorder_eq m', List.mem_append,
      List.mem_cons] at hx
    rcases hx with hx | (rfl | hx) | hx
    · exact hn x (by simp [hx])
    · intro hextra
      have hm := hn m (by simp) (by rwa [← h.extra_eq])
      exact absurd hm (encloses_iff.mp hroom).1
    · exact ih (fun y hy => hn y (by simp [hy])) x hx
    · exact hn x (by simp [hx])

omit hleaf

/-- Without comments the tree is as before. -/
theorem strip_eq (hextra : c.extra = true) (h : Inserted c n n') : n'.strip = n.strip := by
  induction h with
  | here hchildren _ _ =>
    rw [Node.strip_eq, Node.strip_eq, hchildren]
    simp [Node.stripAll_append, Node.stripAll, hextra]
  | inside hchildren _ h ih =>
    rw [Node.strip_eq, Node.strip_eq, hchildren]
    simp [Node.stripAll_append, Node.stripAll, h.extra_eq, ih]

end Inserted

end ScriptTree
