import Mathlib
import ScriptTree.Proofs.Tree.Relocation
import ScriptTree.Proofs.Tree.Weaving

/-! Trees with one byte put in.

Where a byte is put in at an offset, what stands behind it moves on, and what ends or begins there may
do either (`Shifts`). A node is completed by another if they differ by such moves only, and in made-up
leaves that have come to cover something (`Completes`). Making nodes of nodes keeps them so, and so does
putting in comments that stand apart from the byte (`Completes.attachAll`). -/
namespace ScriptTree

/-! ### Lists side by side -/

section Lists
variable {α β : Type} {R : α → β → Prop} {a b : List α} {c : List β}

theorem forall₂_split (h : List.Forall₂ R (a ++ b) c) :
    ∃ a' b', c = a' ++ b' ∧ List.Forall₂ R a a' ∧ List.Forall₂ R b b' := by
  induction a generalizing c with
  | nil => exact ⟨[], c, rfl, .nil, h⟩
  | cons x a ih =>
    cases h with
    | cons hx h =>
      obtain ⟨a', b', rfl, ha, hb⟩ := ih h
      exact ⟨_ :: a', b', rfl, .cons hx ha, hb⟩

/-- Lists side by side that are cut where a property ends are cut at the same place. -/
theorem forall₂_cut {a' b' : List β} {p : α → Prop} {q : β → Prop}
    (h : List.Forall₂ R (a ++ b) (a' ++ b')) (hsame : ∀ x ∈ a ++ b, ∀ y, R x y → (p x ↔ q y))
    (ha : ∀ x ∈ a, p x) (hb : ∀ x ∈ b, ¬p x) (ha' : ∀ y ∈ a', q y) (hb' : ∀ y ∈ b', ¬q y) :
    List.Forall₂ R a a' ∧ List.Forall₂ R b b' := by
  induction a generalizing a' with
  | nil =>
    cases a' with
    | nil => exact ⟨.nil, h⟩
    | cons y a' =>
      cases b with
      | nil => cases h
      | cons x b =>
        cases h with
        | cons hxy => exact absurd ((hsame x (by simp) y hxy).mpr (ha' y (by simp))) (hb x (by simp))
  | cons x a ih =>
    rw [List.cons_append] at h hsame
    rw [List.forall_mem_cons] at hsame ha
    cases a' with
    | nil =>
      cases b' with
      | nil => cases h
      | cons y b' =>
        cases h with
        | cons hxy => exact absurd ((hsame.1 y hxy).mp ha.1) (hb' y (by simp))
    | cons y a' =>
      cases h with
      | cons hxy h =>
        obtain ⟨hfront, hback⟩ := ih h hsame.2 ha.2 (List.forall_mem_cons.mp ha').2
        exact ⟨.cons hxy hfront, hback⟩

theorem forall₂_right {p : α → Prop} {q : β → Prop} (h : List.Forall₂ R a c)
    (hR : ∀ x y, R x y → p x → q y) (ha : ∀ x ∈ a, p x) : ∀ y ∈ c, q y := by
  induction h with
  | nil => exact nofun
  | cons hxy _ ih =>
    rw [List.forall_mem_cons] at ha ⊢
    exact ⟨hR _ _ hxy ha.1, ih ha.2⟩

end Lists

/-! ### Offsets -/

/-- Whether an offset becomes another one when a byte is put in at `off`. -/
def Shifts (off a b : Nat) : Prop := b = a ∧ a ≤ off ∨ b = a + 1 ∧ off ≤ a

/-- Spans whose ends are in a relation. -/
structure Span.Rel (R : Nat → Nat → Prop) (s s' : Span) : Prop where
  start : R s.start s'.start
  stop : R s.stop s'.stop

section Shifts
variable {off a b a' b' : Nat} {s s' t t' : Span}

theorem Shifts.min (h : Shifts off a b) (h' : Shifts off a' b') : Shifts off (min a a') (min b b') := by
  unfold Shifts at *
  omega

theorem Shifts.max (h : Shifts off a b) (h' : Shifts off a' b') : Shifts off (max a a') (max b b') := by
  unfold Shifts at *
  omega

theorem Shifts.refl (h : a ≤ off) : Shifts off a a := .inl ⟨rfl, h⟩

theorem Shifts.succ (h : off ≤ a) : Shifts off a (a + 1) := .inr ⟨rfl, h⟩

theorem Span.Rel.merge (h : s.Rel (Shifts off) s') (h' : t.Rel (Shifts off) t') :
    (s.merge t).Rel (Shifts off) (s'.merge t') := ⟨h.start.min h'.start, h.stop.max h'.stop⟩

theorem Span.Rel.refl_of_le (hstart : s.start ≤ off) (hstop : s.stop ≤ off) : s.Rel (Shifts off) s :=
  ⟨.refl hstart, .refl hstop⟩

theorem Span.Rel.succ_of_le (hstart : off ≤ s.start) (hstop : off ≤ s.stop) :
    s.Rel (Shifts off) (s.relocate Nat.succ) := ⟨.succ hstart, .succ hstop⟩

end Shifts

/-! ### Nodes -/

theorem Node.forall_preorderAll_cons {p : Node → Prop} {n : Node} {nodes : List Node} :
    (∀ m ∈ preorderAll (n :: nodes), p m) ↔
      p n ∧ (∀ m ∈ preorderAll n.children, p m) ∧ ∀ m ∈ preorderAll nodes, p m := by
  simp only [mem_preorderAll_cons, or_imp, forall_and, forall_eq]

/-- Whether one node completes another: they differ in their offsets, which are in the relation `R`, and
made-up leaves may have come to be there. -/
inductive Completes (R : Nat → Nat → Prop) : Node → Node → Prop
  | intro {n n'} (symbol : n.symbol = n'.symbol) (field : n.field = n'.field)
      (extra : n.extra = n'.extra) (missing : n'.missing = true → n.missing = true)
      (span : n.span.Rel R n'.span)
      (children : List.Forall₂ (Completes R) n.children n'.children) : Completes R n n'

namespace Completes

section Nodes
variable {R : Nat → Nat → Prop} {n n' : Node} {ns ns' : List Node}

theorem symbol (h : Completes R n n') : n.symbol = n'.symbol := by
  obtain ⟨symbol⟩ := h
  exact symbol

theorem field (h : Completes R n n') : n.field = n'.field := by
  obtain ⟨_, field⟩ := h
  exact field

theorem extra (h : Completes R n n') : n.extra = n'.extra := by
  obtain ⟨_, _, extra⟩ := h
  exact extra

theorem missing (h : Completes R n n') : n'.missing = true → n.missing = true := by
  obtain ⟨_, _, _, missing⟩ := h
  exact missing

theorem span (h : Completes R n n') : n.span.Rel R n'.span := by
  obtain ⟨_, _, _, _, span⟩ := h
  exact span

theorem children (h : Completes R n n') : List.Forall₂ (Completes R) n.children n'.children := by
  obtain ⟨_, _, _, _, _, children⟩ := h
  exact children

theorem with_children (h : Completes R n n') (hns : List.Forall₂ (Completes R) ns ns') :
    Completes R { n with children := ns } { n' with children := ns' } :=
  ⟨h.symbol, h.field, h.extra, h.missing, h.span, hns⟩

theorem withField (h : Completes R n n') (field : Field) :
    Completes R (n.withField field) (n'.withField field) :=
  ⟨h.symbol, rfl, h.extra, h.missing, h.span, h.children⟩

theorem leaf (symbol : Symbol) {span span' : Span} (h : span.Rel R span') :
    Completes R (.leaf symbol span) (.leaf symbol span') := ⟨rfl, rfl, rfl, id, h, .nil⟩

theorem absent (symbol : Symbol) {offset offset' : Nat} (h : R offset offset') :
    Completes R (.absent symbol offset) (.absent symbol offset') := ⟨rfl, rfl, rfl, id, ⟨h, h⟩, .nil⟩

theorem refl_of (hR : ∀ a, R a a) (n : Node) : Completes R n n := by
  have hall (ns : List Node) : List.Forall₂ (Completes R) ns ns := by
    induction ns using Node.forest_induction with
    | nil => exact .nil
    | cons n ns ihn ih => exact .cons ⟨rfl, rfl, rfl, id, ⟨hR _, hR _⟩, ihn⟩ ih
  exact (List.forall₂_cons.mp (hall [n])).1

theorem trans_of {R' R'' : Nat → Nat → Prop} (hR : ∀ a b c, R a b → R' b c → R'' a c) {n'' : Node}
    (h : Completes R n n') (h' : Completes R' n' n'') : Completes R'' n n'' := by
  have hall {ns ns' ns'' : List Node} (h : List.Forall₂ (Completes R) ns ns')
      (h' : List.Forall₂ (Completes R') ns' ns'') : List.Forall₂ (Completes R'') ns ns'' := by
    induction ns using Node.forest_induction generalizing ns' ns'' with
    | nil =>
      cases h
      cases h'
      exact .nil
    | cons n ns ihn ih =>
      cases h with
      | cons hn h =>
      cases h' with
      | cons hn' h' =>
      exact .cons ⟨hn.symbol.trans hn'.symbol, hn.field.trans hn'.field, hn.extra.trans hn'.extra,
        hn.missing ∘ hn'.missing, ⟨hR _ _ _ hn.span.start hn'.span.start,
          hR _ _ _ hn.span.stop hn'.span.stop⟩, ihn hn.children hn'.children⟩ (ih h h')
  exact (List.forall₂_cons.mp (hall (.cons h .nil) (.cons h' .nil))).1

end Nodes

variable {off : Nat} {n n' : Node} {ns ns' : List Node}

/-! ### In front of the byte and behind it -/

/-- A made-up leaf at the offset comes to cover the byte put in. -/
theorem supplied (off : Nat) (symbol : Symbol) :
    Completes (Shifts off) (.absent symbol off) (.leaf symbol ⟨off, off + 1⟩) :=
  ⟨rfl, rfl, rfl, nofun, ⟨.refl le_rfl, .succ le_rfl⟩, .nil⟩

theorem cover (h : List.Forall₂ (Completes (Shifts off)) ns ns') (hne : ns ≠ []) :
    (Node.cover ns).Rel (Shifts off) (Node.cover ns') := by
  have hfold {ns ns' : List Node} (h : List.Forall₂ (Completes (Shifts off)) ns ns') {s s' : Span}
      (hs : s.Rel (Shifts off) s') :
      (ns.foldl (fun span child => span.merge child.span) s).Rel (Shifts off)
        (ns'.foldl (fun span child => span.merge child.span) s') := by
    induction h generalizing s s' with
    | nil => exact hs
    | cons hn _ ih => exact ih (.merge hs hn.span)
  cases h with
  | nil => exact absurd rfl hne
  | cons hn h => exact hfold h hn.span

theorem ofChildren (kind : NodeKind) (h : List.Forall₂ (Completes (Shifts off)) ns ns') (hne : ns ≠ []) :
    Completes (Shifts off) (.ofChildren kind ns) (.ofChildren kind ns') :=
  ⟨rfl, rfl, rfl, id, cover h hne, h⟩

/-- What stands in front of the byte stays. -/
theorem refl_all (h : ∀ m ∈ Node.preorderAll ns, m.span.start ≤ off ∧ m.span.stop ≤ off) :
    List.Forall₂ (Completes (Shifts off)) ns ns := by
  induction ns using Node.forest_induction with
  | nil => exact .nil
  | cons n ns ihn ih =>
    obtain ⟨⟨hstart, hstop⟩, hbelow, hrest⟩ := Node.forall_preorderAll_cons.mp h
    exact .cons ⟨rfl, rfl, rfl, id, .refl_of_le hstart hstop, ihn hbelow⟩ (ih hrest)

/-- What stands behind the byte moves on. -/
theorem succ_all (h : ∀ m ∈ Node.preorderAll ns, off ≤ m.span.start ∧ off ≤ m.span.stop) :
    List.Forall₂ (Completes (Shifts off)) ns (ns.map (Node.relocate Nat.succ)) := by
  induction ns using Node.forest_induction with
  | nil => exact .nil
  | cons n ns ihn ih =>
    obtain ⟨⟨hstart, hstop⟩, hbelow, hrest⟩ := Node.forall_preorderAll_cons.mp h
    refine .cons ⟨by simp, by simp, by simp, by simp, ?_, ?_⟩ (ih hrest)
    · rw [Node.relocate_span]
      exact .succ_of_le hstart hstop
    · rw [Node.relocate_children]
      exact ihn hbelow

theorem refl (h : ∀ m ∈ Node.preorderAll [n], m.span.start ≤ off ∧ m.span.stop ≤ off) :
    Completes (Shifts off) n n :=
  (List.forall₂_cons.mp (refl_all h)).1

theorem succ (h : ∀ m ∈ Node.preorderAll [n], off ≤ m.span.start ∧ off ≤ m.span.stop) :
    Completes (Shifts off) n (n.relocate Nat.succ) :=
  (List.forall₂_cons.mp (succ_all h)).1

/-! ### Comments -/

/-- A comment that ends in front of the byte, and the same comment, or one that begins behind it, and the
comment moved on. -/
def Apart (off : Nat) (c c' : Node) : Prop :=
  c' = c ∧ c.span.stop < off ∨ c' = c.relocate Nat.succ ∧ off ≤ c.span.start

section Comments
variable {c c' m m' : Node} (hc : IsComment c) (hapart : Apart off c c')
include hc hapart

/-- A node stands on the same side of a comment as before. -/
theorem precedes_iff (h : Completes (Shifts off) m m') :
    (Precedes m c ↔ Precedes m' c') ∧ (Precedes c m ↔ Precedes c' m') := by
  have hproper := hc.proper
  obtain ⟨hstart, hstop⟩ := h.span
  unfold Shifts at hstart hstop
  unfold Precedes
  rcases hapart with ⟨rfl, hfront⟩ | ⟨rfl, hback⟩
  · omega
  · simp only [Node.relocate_span, Span.relocate]
    omega

theorem comment : Completes (Shifts off) c c' := by
  have hproper := hc.proper
  have hleaf : ∀ m ∈ Node.preorderAll [c], m = c := by
    simp [Node.preorderAll, Node.preorder_eq, hc.leaf]
  rcases hapart with ⟨rfl, hfront⟩ | ⟨rfl, hback⟩
  · exact .refl fun m hm => by rw [hleaf m hm]; omega
  · exact .succ fun m hm => by rw [hleaf m hm]; omega

theorem proper' : c'.span.start < c'.span.stop := by
  have hproper := hc.proper
  rcases hapart with ⟨rfl, _⟩ | ⟨rfl, _⟩
  · exact hproper
  · rw [Node.relocate_span]
    exact Nat.succ_lt_succ hproper

/-- Nodes that a comment stands between still have it between them. -/
theorem insertComment {a b a' b' : Nat} (h : List.Forall₂ (Completes (Shifts off)) ns ns') (hlaid : Laid a ns b)
    (hlaid' : Laid a' ns' b') (ha : a ≤ c.span.start) (ha' : a' ≤ c'.span.start)
    (hside : ∀ m ∈ ns, Precedes m c ∨ Precedes c m) :
    List.Forall₂ (Completes (Shifts off)) (Node.insertComment c ns) (Node.insertComment c' ns') := by
  have hside' : ∀ m ∈ ns', Precedes m c' ∨ Precedes c' m := forall₂_right h
    (fun m m' hm => by
      obtain ⟨hfront, hback⟩ := precedes_iff hc hapart hm
      rw [hfront, hback]
      exact id) hside
  obtain ⟨before, after, rfl, hinsert, hbefore, hafter⟩ := hlaid.insertComment_eq ha hside
  obtain ⟨before', after', rfl, hinsert', hbefore', hafter'⟩ := hlaid'.insertComment_eq ha' hside'
  have hproper := hc.proper
  have hproper' := proper' hc hapart
  obtain ⟨hfront, hback⟩ := forall₂_cut (p := (Precedes · c)) (q := (Precedes · c')) h
    (fun m _ m' hm => (precedes_iff hc hapart hm).1) hbefore
    (fun m hm => by
      have := (hlaid.mem (List.mem_append_right _ hm)).2.1
      have := hafter m hm
      unfold Precedes at this ⊢
      omega) hbefore'
    (fun m hm => by
      have := (hlaid'.mem (List.mem_append_right _ hm)).2.1
      have := hafter' m hm
      unfold Precedes at this ⊢
      omega)
  rw [hinsert, hinsert']
  exact List.rel_append hfront (.cons (comment hc hapart) hback)

/-- A comment goes to the same place in the completed tree. -/
theorem attach (h : Completes (Shifts off) n n') (hn : Encloses n) (hn' : Encloses n')
    (hstart : n.span.start ≤ c.span.start) (hstart' : n'.span.start ≤ c'.span.start)
    (hclear : ∀ m ∈ leavesAll n.children, Precedes m c ∨ Precedes c m)
    (hclear' : ∀ m ∈ leavesAll n'.children, Precedes m c' ∨ Precedes c' m) :
    Completes (Shifts off) (n.attach c) (n'.attach c') := by
  have hproper := hc.proper
  have hproper' := proper' hc hapart
  induction hcount : n.count using Nat.strong_induction_on generalizing n n' with
  | _ count ih =>
  have hside : ∀ m ∈ n.children, Precedes m c ∨ Precedes c m ∨ m.encloses c.span = true :=
    fun m hm => (hn.below m hm).cases_comment fun x hx => hclear x (mem_leavesAll.mpr ⟨m, hm, hx⟩)
  have hside' : ∀ m ∈ n'.children, Precedes m c' ∨ Precedes c' m ∨ m.encloses c'.span = true :=
    fun m hm => (hn'.below m hm).cases_comment fun x hx => hclear' x (mem_leavesAll.mpr ⟨m, hm, hx⟩)
  -- What has no room for the comment stands on one side of it, there and here.
  have hroom {m m' : Node} (hm : m ∈ n.children) (hmm : Completes (Shifts off) m m')
      (hnone : m.encloses c.span = false) :
      (Precedes m c ∨ Precedes c m) ∧ m'.encloses c'.span = false := by
    have hsides : Precedes m c ∨ Precedes c m := by simpa [hnone] using hside m hm
    obtain ⟨hfront, hback⟩ := precedes_iff hc hapart hmm
    exact ⟨hsides, encloses_of_precedes hproper' ((hsides.imp hfront.mp hback.mp).symm)⟩
  rcases Node.encloses_cases c.span n with hnone | ⟨before, m, after, hchildren, hbefore, hm⟩
  · have hnone' : ∀ m' ∈ n'.children, m'.encloses c'.span = false :=
      forall₂_right (p := (· ∈ n.children)) h.children
        (fun m m' hmm hm => (hroom hm hmm (hnone m hm)).2) fun _ => id
    rw [Node.attach_here hnone, Node.attach_here hnone']
    obtain ⟨_, _, hlaid⟩ := hn.laid
    obtain ⟨_, _, hlaid'⟩ := hn'.laid
    exact h.with_children (insertComment hc hapart h.children hlaid hlaid' hstart hstart'
      fun m hm => by simpa [hnone m hm] using hside m hm)
  · have hall := h.children
    rw [hchildren] at hall
    obtain ⟨before', rest', hchildren', hfront, hrest⟩ := forall₂_split hall
    cases hrest with
    | @cons _ m' _ after' hmm hback =>
    have hbefore' : ∀ x' ∈ before', x'.encloses c'.span = false :=
      forall₂_right (p := (· ∈ before)) hfront
        (fun x x' hxx hx => (hroom (by simp [hchildren, hx]) hxx (hbefore x hx)).2) fun _ => id
    have hmem : m ∈ n.children := by simp [hchildren]
    have hmem' : m' ∈ n'.children := by simp [hchildren']
    have hm' : m'.encloses c'.span = true := by
      by_contra hnone
      have hsides : Precedes m' c' ∨ Precedes c' m' := by simpa [hnone] using hside' m' hmem'
      obtain ⟨hfront, hback⟩ := precedes_iff hc hapart hmm
      rw [encloses_of_precedes hproper ((hsides.imp hfront.mpr hback.mpr).symm)] at hm
      cases hm
    obtain ⟨hne, hstart, _⟩ := encloses_iff.mp hm
    obtain ⟨hne', hstart', _⟩ := encloses_iff.mp hm'
    rw [Node.attach_below hchildren hbefore hm, Node.attach_below hchildren' hbefore' hm']
    refine h.with_children (List.rel_append hfront (.cons (ih _
      (hcount ▸ Node.count_lt_of_mem_children hmem) hmm ((hn.below m hmem).encloses hne)
      ((hn'.below m' hmem').encloses hne') hstart hstart' (fun x hx => ?_) (fun x hx => ?_) rfl) hback))
    · rw [← leavesAll_singleton_inner hne] at hx
      exact hclear x (mem_leavesAll.mpr ⟨m, hmem, hx⟩)
    · rw [← leavesAll_singleton_inner hne'] at hx
      exact hclear' x (mem_leavesAll.mpr ⟨m', hmem', hx⟩)

end Comments

/-- All comments go to the same places. -/
theorem attachAll {cs cs' : List Node} (h : Completes (Shifts off) n n') (hcs : List.Forall₂ (Apart off) cs cs')
    (hn : Dressable n cs) (hn' : Dressable n' cs') :
    Completes (Shifts off) (n.attachAll cs) (n'.attachAll cs') := by
  induction hcs generalizing n n' with
  | nil => exact h
  | @cons c c' cs cs' hapart _ ih =>
    have hc := hn.each c (List.mem_cons_self ..)
    refine ih (attach hc hapart h hn.encloses hn'.encloses ?_ ?_ ?_ ?_) hn.attach.2 hn'.attach.2
    · exact (hn.within c (List.mem_cons_self ..)).1
    · exact (hn'.within c' (List.mem_cons_self ..)).1
    · exact hn.clear c (List.mem_cons_self ..)
    · exact hn'.clear c' (List.mem_cons_self ..)

end Completes

end ScriptTree
