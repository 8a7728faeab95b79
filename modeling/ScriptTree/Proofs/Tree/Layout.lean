import Mathlib
import ScriptTree.Tree.Node

/-! Nodes side by side.

`Laid a nodes b` says that nodes stand one behind the other from the offset `a` on, where gaps are
allowed, and that the last one ends at `b`. Missing nodes have no width and touch what stands in
front of them. `Tiles a nodes b` says that there are no gaps. -/
namespace ScriptTree

inductive Laid : Nat → List Node → Nat → Prop
  | nil {a} : Laid a [] a
  | cons {a b n ns} (after : a ≤ n.span.start) (forward : n.span.start ≤ n.span.stop)
      (touches : n.missing = true → n.span = .empty a) (rest : Laid n.span.stop ns b) :
      Laid a (n :: ns) b

inductive Tiles : Nat → List Node → Nat → Prop
  | nil {a} : Tiles a [] a
  | cons {b n ns} (forward : n.span.start ≤ n.span.stop)
      (width : n.missing = true → n.span = .empty n.span.start) (rest : Tiles n.span.stop ns b) :
      Tiles n.span.start (n :: ns) b

namespace Laid
variable {a b c : Nat} {n : Node} {ns ms : List Node}

theorem le (h : Laid a ns b) : a ≤ b := by
  induction h with
  | nil => exact Nat.le_refl _
  | cons after forward _ _ ih => exact after.trans (forward.trans ih)

theorem append (h : Laid a ns b) (h' : Laid b ms c) : Laid a (ns ++ ms) c := by
  induction h with
  | nil => exact h'
  | cons after forward touches _ ih => exact .cons after forward touches (ih h')

theorem stop_eq (h : Laid a [n] b) : n.span.stop = b := by
  cases h with
  | cons _ _ _ rest =>
    generalize n.span.stop = stop at rest
    cases rest with
    | nil => rfl

/-- Only a missing first node holds on to the offset where the nodes begin. -/
theorem weaken (h : Laid b (n :: ns) c) (hab : a ≤ b) (hpresent : n.missing = false) :
    Laid a (n :: ns) c := by
  cases h with
  | cons after forward _ rest =>
    refine .cons (hab.trans after) forward (fun hmissing => ?_) rest
    rw [hpresent] at hmissing
    cases hmissing

theorem foldl_merge (h : Laid a ns b) {start : Nat} (hle : start ≤ a) :
    ns.foldl (fun span child => Span.merge span child.span) ⟨start, a⟩ = ⟨start, b⟩ := by
  induction h generalizing start with
  | nil => rfl
  | @cons a b n ns after forward _ rest ih =>
    rw [List.foldl_cons]
    have hmerge : Span.merge ⟨start, a⟩ n.span = ⟨start, n.span.stop⟩ := by
      simp only [Span.merge, Span.mk.injEq]
      omega
    rw [hmerge]
    exact ih (by omega)

/-- Nodes side by side are covered from the start of the first one to the end of the last. -/
theorem cover_eq (h : Laid a (n :: ns) b) : Node.cover (n :: ns) = ⟨n.span.start, b⟩ := by
  cases h with
  | cons _ forward _ rest => exact rest.foldl_merge forward

end Laid

namespace Tiles
variable {a b stop : Nat} {n : Node} {ns : List Node}

theorem present (hspan : n.span = ⟨a, stop⟩) (hle : a ≤ stop) (hpresent : n.missing = false)
    (rest : Tiles stop ns b) : Tiles a (n :: ns) b := by
  obtain rfl : n.span.start = a := by rw [hspan]
  obtain rfl : n.span.stop = stop := by rw [hspan]
  refine .cons hle (fun hmissing => ?_) rest
  rw [hpresent] at hmissing
  cases hmissing

theorem empty (hspan : n.span = .empty a) (rest : Tiles a ns b) : Tiles a (n :: ns) b := by
  obtain rfl : n.span.start = a := by rw [hspan]; rfl
  have hstop : n.span.stop = n.span.start := by rw [hspan]; rfl
  exact .cons hstop.ge (fun _ => hspan) (hstop ▸ rest)

theorem laid (h : Tiles a ns b) : Laid a ns b := by
  induction h with
  | nil => exact .nil
  | cons forward width _ ih => exact .cons (Nat.le_refl _) forward width ih

end Tiles

end ScriptTree
