import Mathlib
import ScriptTree.Proofs.Parsing.Comments
import ScriptTree.Proofs.Parsing.Grouping
import ScriptTree.Proofs.Tree.Walking

/-! What can be told of a subtree without searching it.

Whether it holds damage is known at its top (`parse_flags_damage`): reports of damage have reached it
from everything below when the tree is built. The smallest node that covers a span is found by going
down into the first child that covers it and never back (`parse_lookup`). Siblings do not overlap and
no child reaches out of its parent, so all nodes that cover the span are on the way down
(`Descends.mem_of_covers`), and the last of them is the smallest. -/
namespace ScriptTree

namespace Tree

/-- Whether a node is on the path from one node down to another. -/
def Between (t : Tree) (top bottom id : Nat) : Prop := t.Below top id ∧ t.Below id bottom

/-- Whether lookups of a span from a node on down find the smallest nodes. -/
structure FindsSmallest (t : Tree) (id : Nat) (span : Span) : Prop where
  /-- A node is found if the span is in the one at the top. -/
  defined : (t.descendantForRange? id span).isSome = (t.node id).span.contains span
  /-- It covers the span, and all others that do are above it. -/
  smallest : ∀ found ∈ t.descendantForRange? id span, t.Below id found ∧
    (t.node found).span.contains span = true ∧
      ∀ other, t.Below id other → (t.node other).span.contains span = true → t.Below other found
  /-- A lookup for a named node finds one in the same cases. -/
  named_defined : (t.namedDescendantForRange? id span).isSome = (t.node id).span.contains span
  /-- It finds the deepest named node on the path to the smallest node, and the top without one. -/
  named_deepest : ∀ bottom ∈ t.descendantForRange? id span,
    ∀ found ∈ t.namedDescendantForRange? id span,
      (t.isNamed found = true ∧ t.Between id bottom found ∧
        ∀ other, t.Between id bottom other → t.isNamed other = true → t.Below other found) ∨
      (found = id ∧ ∀ other, t.Between id bottom other → t.isNamed other = false)

/-- The child into which a lookup goes. -/
def covering? (t : Tree) (span : Span) (id : Nat) : Option Nat :=
  (t.children id).find? fun c => (t.node c).span.contains span && !(t.node c).missing

/-- The last accepted node on a way, and where the way begins without one. -/
def lastAccepted (accept : Nat → Bool) (id : Nat) (way : List Nat) : Nat :=
  (way.filter accept).getLast?.getD id

/-- The nodes below `id` into which a lookup goes. -/
inductive Descends (t : Tree) (span : Span) : Nat → List Nat → Prop
  | stop {id : Nat} (none : t.covering? span id = none) : Descends t span id []
  | enter {id child : Nat} {way : List Nat} (into : t.covering? span id = some child)
      (rest : Descends t span child way) : Descends t span id (child :: way)

end Tree

/-! ### Subtrees -/

section Tree
variable {root n : Node} {source : String} {problems : List Problem} {t : Tree} {id : Nat}
  {parent : Option Nat}

/-- What is below a node in the tree is below it as it was built. -/
theorem Sits.of_below (h : Sits root id parent n) {below : Nat}
    (hbelow : (Tree.ofRoot source root problems).Below id below) :
    ∃ above, ∃ m ∈ n.preorder, Sits root below above m := by
  induction hbelow using Relation.ReflTransGen.head_induction_on generalizing parent n with
  | refl =>
    rw [Node.preorder_eq]
    exact ⟨parent, n, List.mem_cons_self .., h⟩
  | head hchild _ ih =>
    obtain ⟨c, hc, hsits⟩ := h.of_mem_children hchild
    obtain ⟨above, m, hm, hsits⟩ := ih hsits
    rw [Node.preorder_eq]
    exact ⟨above, m, List.mem_cons_of_mem _ (Node.mem_preorderAll.mpr ⟨c, hc, hm⟩), hsits⟩

theorem Sits.nodeHasError_iff (h : Sits root id parent n) :
    (Tree.ofRoot source root problems).nodeHasError id = true ↔
      ∃ below, (Tree.ofRoot source root problems).Below id below ∧
        (((Tree.ofRoot source root problems).node below).missing = true ∨
          ((Tree.ofRoot source root problems).node below).symbol = .named .error) := by
  have hdamaged (m : Node) : m.isDamaged = true ↔ m.missing = true ∨ m.symbol = .named .error := by
    rw [Node.isDamaged, Bool.or_eq_true, Node.isError, beq_iff_eq]
  rw [h.nodeHasError_eq, Node.holdsDamage, List.any_eq_true]
  constructor
  · rintro ⟨m, hm, hdamage⟩
    obtain ⟨below, above, hsits, hbelow⟩ := h.exists_below hm
    exact ⟨below, hbelow, by rwa [hsits.node_eq, ← hdamaged]⟩
  · rintro ⟨below, hbelow, hdamage⟩
    obtain ⟨above, m, hm, hsits⟩ := h.of_below hbelow
    rw [hsits.node_eq, ← hdamaged] at hdamage
    exact ⟨m, hm, hdamage⟩

/-- A subtree lies in its top. -/
theorem Geometry.contains_of_below (h : Geometry source t) {top id : Nat} (hbelow : t.Below top id)
    (htop : top < t.nodeCount) :
    id < t.nodeCount ∧ (t.node top).span.contains (t.node id).span = true := by
  induction hbelow with
  | refl => exact ⟨htop, by simp [Span.contains_iff]⟩
  | tail _ hchild ih =>
    obtain ⟨hid, hspan⟩ := ih
    have hinside := h.inside _ hid _ hchild
    rw [Span.contains_iff] at hspan hinside ⊢
    exact ⟨(h.parent _ hid _ hchild).1, hspan.1.trans hinside.1, hinside.2.trans hspan.2⟩

/-! ### The way of a lookup -/

theorem Laid.empty_of_missing {a b : Nat} {ns : List Node} (h : Laid a ns b) {m : Node}
    (hm : m ∈ ns) (hmissing : m.missing = true) : m.span.start = m.span.stop := by
  induction h with
  | nil => cases hm
  | cons _ _ touches _ ih =>
    rcases List.mem_cons.mp hm with rfl | hm
    · rw [touches hmissing]
      rfl
    · exact ih hm

namespace Tree.Descends
variable {span : Span} {way : List Nat}

theorem descendTo_eq (h : t.Descends span id way) (accept : Nat → Bool) {fuel : Nat}
    (hfuel : way.length ≤ fuel) (best : Nat) :
    t.descendTo accept span fuel id best = lastAccepted accept best way := by
  induction h generalizing fuel best with
  | stop none =>
    cases fuel with
    | zero => rfl
    | succ fuel =>
      rw [covering?] at none
      rw [descendTo, none]
      rfl
  | @enter id child way into rest ih =>
    obtain ⟨fuel, rfl⟩ : ∃ k, fuel = k + 1 := ⟨fuel - 1, by simp at hfuel; omega⟩
    rw [covering?] at into
    rw [descendTo, into]
    dsimp only
    rw [ih (Nat.le_of_succ_le_succ hfuel), lastAccepted, lastAccepted, List.filter_cons]
    split <;> simp [List.getLast?_cons]

/-- A lookup answers with the last accepted node on its way. -/
theorem descendantFor?_eq (h : t.Descends span id way) (hlength : way.length ≤ t.descendantCount id)
    (accept : Nat → Bool) : t.descendantFor? accept id span =
      if (t.node id).span.contains span then some (lastAccepted accept id way) else none := by
  rw [descendantFor?, h.descendTo_eq accept hlength]

theorem pairwise (h : t.Descends span id way) : (id :: way).Pairwise t.Below := by
  induction h with
  | stop => exact List.pairwise_singleton _ _
  | enter into rest ih =>
    have hchild : t.Below _ _ := .single (Array.mem_of_find?_eq_some into)
    refine List.pairwise_cons.mpr ⟨fun k hk => ?_, ih⟩
    rcases List.mem_cons.mp hk with rfl | hk
    · exact hchild
    · exact hchild.trans ((List.pairwise_cons.mp ih).1 k hk)

theorem below_of_mem (h : t.Descends span id way) {k : Nat} (hk : k ∈ id :: way) : t.Below id k := by
  rcases List.mem_cons.mp hk with rfl | hk
  · exact .refl
  · exact (List.pairwise_cons.mp h.pairwise).1 k hk

theorem covers (h : t.Descends span id way) {k : Nat} (hk : k ∈ way) :
    (t.node k).span.contains span = true := by
  induction h with
  | stop => cases hk
  | enter into _ ih =>
    rcases List.mem_cons.mp hk with rfl | hk
    · have := Array.find?_some into
      rw [Bool.and_eq_true] at this
      exact this.1
    · exact ih hk

theorem lastAccepted_cases (accept : Nat → Bool) (id : Nat) (way : List Nat) :
    (way.filter accept = [] ∧ lastAccepted accept id way = id) ∨
      lastAccepted accept id way ∈ way.filter accept := by
  rw [lastAccepted]
  cases hlast : (way.filter accept).getLast? with
  | none => exact .inl ⟨List.getLast?_eq_none_iff.mp hlast, rfl⟩
  | some last => exact .inr (List.mem_of_getLast? hlast)

/-- The last accepted node is below all others. -/
theorem below_lastAccepted (h : t.Descends span id way) {accept : Nat → Bool} {k : Nat}
    (hk : k ∈ id :: way.filter accept) : t.Below k (lastAccepted accept id way) := by
  have hordered : (id :: way.filter accept).Pairwise t.Below :=
    h.pairwise.sublist (List.filter_sublist.cons_cons id)
  obtain ⟨front, hfront⟩ := List.getLast?_eq_some_iff.mp (List.getLast?_cons (a := id)
    (l := way.filter accept))
  rw [hfront] at hk hordered
  rcases List.mem_append.mp hk with hk | hk
  · exact (List.pairwise_append.mp hordered).2.2 k hk _ (List.mem_singleton_self _)
  · rw [List.mem_singleton.mp hk]
    exact .refl

end Tree.Descends

section Lookup
variable {span : Span} (ht : t = .ofRoot source root problems) (hfitting : Fitting source root)
include ht hfitting

/-- Only one child can cover a span, and a lookup goes there. -/
theorem covering?_eq (hproper : span.start < span.stop) (hid : id < t.nodeCount) {c : Nat}
    (hc : c ∈ t.children id) (hcovers : (t.node c).span.contains span = true) :
    t.covering? span id = some c := by
  have hgeometry : Geometry source t := ht ▸ hfitting.geometry
  have hspan := Span.contains_iff.mp hcovers
  have hpresent : (t.node c).missing = false := by
    by_contra hmissing
    rw [Bool.not_eq_false] at hmissing
    subst ht
    rw [nodeCount_ofRoot] at hid
    obtain ⟨parent, n, hn⟩ := Sits.exists_of_lt hid
    obtain ⟨m, hm, hsits⟩ := hn.of_mem_children hc
    obtain ⟨_, _, hlaid⟩ := (hfitting.node_encloses hn (List.ne_nil_of_mem hm)).laid
    rw [hsits.node_eq] at hmissing hspan
    have := hlaid.empty_of_missing hm hmissing
    omega
  obtain ⟨d, hd⟩ : ∃ d, t.covering? span id = some d :=
    Option.isSome_iff_exists.mp (Array.find?_isSome.mpr ⟨c, hc, by rw [hcovers, hpresent]; rfl⟩)
  have hdcovers := Array.find?_some hd
  rw [Bool.and_eq_true, Span.contains_iff] at hdcovers
  by_contra hne
  rw [hd, Option.some.injEq] at hne
  have := hgeometry.siblings_apart hid (Array.mem_of_find?_eq_some hd) hc hne
  unfold Precedes at this
  omega

/-- All nodes that cover a span are on the way to it. -/
theorem Tree.Descends.mem_of_covers {way : List Nat} (h : t.Descends span id way)
    (hproper : span.start < span.stop) (hid : id < t.nodeCount) {k : Nat} (hk : t.Below id k)
    (hcovers : (t.node k).span.contains span = true) : k ∈ id :: way := by
  have hgeometry : Geometry source t := ht ▸ hfitting.geometry
  have hchild {id : Nat} (hid : id < t.nodeCount) (hk : t.Below id k) :
      k = id ∨ ∃ c, c < t.nodeCount ∧ t.Below c k ∧ t.covering? span id = some c := by
    rcases hk.cases_head with rfl | ⟨c, hc, hk⟩
    · exact .inl rfl
    have hclt := (hgeometry.parent id hid c hc).1
    have hinside := Span.contains_iff.mp (hgeometry.contains_of_below hk hclt).2
    refine .inr ⟨c, hclt, hk, covering?_eq ht hfitting hproper hid hc ?_⟩
    rw [Span.contains_iff] at hcovers ⊢
    omega
  induction h with
  | stop none =>
    rcases hchild hid hk with rfl | ⟨c, _, _, hc⟩
    · exact List.mem_cons_self ..
    · rw [none] at hc
      cases hc
  | enter into _ ih =>
    rcases hchild hid hk with rfl | ⟨c, hclt, hk, hc⟩
    · exact List.mem_cons_self ..
    · obtain rfl := Option.some.inj (into.symm.trans hc)
      exact List.mem_cons_of_mem _ (ih hclt hk)

omit hfitting in
/-- A lookup comes to an end, and goes through fewer nodes than there are. -/
theorem exists_descends (span : Span) (hid : id < t.nodeCount) :
    ∃ way, t.Descends span id way ∧ way.length < t.descendantCount id := by
  subst ht
  rw [nodeCount_ofRoot] at hid
  obtain ⟨parent, n, hn⟩ := Sits.exists_of_lt hid
  rw [hn.descendantCount_eq]
  clear hid
  induction hcount : n.count using Nat.strong_induction_on generalizing id parent n with
  | _ count ih =>
    cases hc : (Tree.ofRoot source root problems).covering? span id with
    | none => exact ⟨[], .stop hc, by rw [← hcount, Node.count_eq]; exact Nat.succ_pos _⟩
    | some child =>
      obtain ⟨c, hmem, hsits⟩ := hn.of_mem_children (Array.mem_of_find?_eq_some hc)
      have hlt := Node.count_lt_of_mem_children hmem
      obtain ⟨way, hway, hlength⟩ := ih c.count (hcount ▸ hlt) _ _ hsits rfl
      exact ⟨child :: way, .enter hc hway, by rw [List.length_cons]; omega⟩

section Way
variable {way : List Nat} (h : t.Descends span id way) (hid : id < t.nodeCount)
  (hproper : span.start < span.stop) (hcovers : (t.node id).span.contains span = true)
include h hid hproper hcovers

/-- The last node on the way to a span is the smallest one that covers it. -/
theorem Tree.Descends.last_smallest :
    t.Below id (Tree.lastAccepted (fun _ => true) id way) ∧
      (t.node (Tree.lastAccepted (fun _ => true) id way)).span.contains span = true ∧
      ∀ other, t.Below id other → (t.node other).span.contains span = true →
        t.Below other (Tree.lastAccepted (fun _ => true) id way) := by
  refine ⟨?_, ?_, fun other hother hcovers' => ?_⟩
  · exact h.below_lastAccepted (List.mem_cons_self ..)
  · rcases lastAccepted_cases (fun _ => true) id way with ⟨_, hsame⟩ | hmem
    · rwa [hsame]
    · exact h.covers (List.mem_of_mem_filter hmem)
  · refine h.below_lastAccepted ?_
    rw [List.filter_true]
    exact h.mem_of_covers ht hfitting hproper hid hother hcovers'

/-- The last named node on the way to a span is the deepest one above the smallest node. -/
theorem Tree.Descends.last_named {bottom found : Nat}
    (hbottom : Tree.lastAccepted (fun _ => true) id way = bottom)
    (hfound : Tree.lastAccepted t.isNamed id way = found) :
    (t.isNamed found = true ∧ t.Between id bottom found ∧
      ∀ other, t.Between id bottom other → t.isNamed other = true → t.Below other found) ∨
    (found = id ∧ ∀ other, t.Between id bottom other → t.isNamed other = false) := by
  have hgeometry : Geometry source t := ht ▸ hfitting.geometry
  have hway {other : Nat} (hother : t.Between id bottom other) : other ∈ id :: way := by
    have hlt := (hgeometry.contains_of_below hother.1 hid).1
    have hinside := Span.contains_iff.mp (hgeometry.contains_of_below hother.2 hlt).2
    have hspan := Span.contains_iff.mp
      (hbottom ▸ (h.last_smallest ht hfitting hid hproper hcovers).2.1)
    refine h.mem_of_covers ht hfitting hproper hid hother.1 (Span.contains_iff.mpr ?_)
    omega
  have hbelow {other : Nat} (hother : t.Between id bottom other) (hnamed : t.isNamed other = true) :
      t.Below other found := by
    rw [← hfound]
    refine h.below_lastAccepted ?_
    rcases List.mem_cons.mp (hway hother) with rfl | hother
    · exact List.mem_cons_self ..
    · exact List.mem_cons_of_mem _ (List.mem_filter.mpr ⟨hother, hnamed⟩)
  have hpath {other : Nat} (hother : other ∈ id :: way) : t.Between id bottom other :=
    ⟨h.below_of_mem hother, hbottom ▸ h.below_lastAccepted (by rwa [List.filter_true])⟩
  rcases lastAccepted_cases t.isNamed id way with ⟨hnone, hsame⟩ | hmem
  · obtain rfl : id = found := hsame.symm.trans hfound
    by_cases hnamed : t.isNamed id = true
    · exact .inl ⟨hnamed, hpath (List.mem_cons_self ..), fun other => hbelow⟩
    · refine .inr ⟨rfl, fun other hother => Bool.eq_false_iff.mpr fun hnamed' => ?_⟩
      rcases List.mem_cons.mp (hway hother) with rfl | hother
      · exact hnamed hnamed'
      · exact List.filter_eq_nil_iff.mp hnone other hother hnamed'
  · rw [hfound, List.mem_filter] at hmem
    exact .inl ⟨hmem.2, hpath (List.mem_cons_of_mem _ hmem.1), fun other => hbelow⟩

end Way

/-- Lookups in a tree with the geometry of a source find the smallest nodes. -/
theorem ofRoot_findsSmallest (hid : id < t.nodeCount) (hproper : span.start < span.stop) :
    t.FindsSmallest id span := by
  obtain ⟨way, hway, hlength⟩ := exists_descends ht span hid
  have hlookup := hway.descendantFor?_eq hlength.le
  cases hcovers : (t.node id).span.contains span with
  | false =>
    have hnone (accept : Nat → Bool) : t.descendantFor? accept id span = none := by
      rw [hlookup, hcovers]
      rfl
    refine ⟨?_, ?_, ?_, ?_⟩ <;>
      simp [Tree.descendantForRange?, Tree.namedDescendantForRange?, hnone, hcovers]
  | true =>
    have hsome (accept : Nat → Bool) : t.descendantFor? accept id span =
        some (Tree.lastAccepted accept id way) := by
      rw [hlookup, hcovers]
      rfl
    refine ⟨?_, fun found hfound => ?_, ?_, fun bottom hbottom found hfound => ?_⟩
    · rw [Tree.descendantForRange?, hsome, hcovers]
      rfl
    · rw [Tree.descendantForRange?, hsome] at hfound
      obtain rfl := Option.some.inj hfound
      exact hway.last_smallest ht hfitting hid hproper hcovers
    · rw [Tree.namedDescendantForRange?, hsome, hcovers]
      rfl
    · rw [Tree.descendantForRange?, hsome] at hbottom
      rw [Tree.namedDescendantForRange?, hsome] at hfound
      exact hway.last_named ht hfitting hid hproper hcovers (Option.some.inj hbottom)
        (Option.some.inj hfound)

end Lookup

end Tree

/-! ### Parses -/

/-- **Damage is known above it.** In every parse, a node is flagged if and only if a missing node or an
error is in its subtree. -/
theorem parse_flags_damage (source : String) (options : ParseOptions) {id : Nat}
    (hid : id < (parse source options).nodeCount) :
    (parse source options).nodeHasError id = true ↔
      ∃ below, (parse source options).Below id below ∧
        (((parse source options).node below).missing = true ∨
          ((parse source options).node below).symbol = .named .error) := by
  rcases parse_cases source options with h | ⟨limit, h⟩ <;>
  · rw [h, nodeCount_ofRoot] at hid
    obtain ⟨parent, n, hn⟩ := Sits.exists_of_lt hid
    rw [h]
    exact hn.nodeHasError_iff

/-- A block with an error inside, and without its end. -/
theorem parse_flags_damage_unclosed : 1 < (parse "\x7b f(a); g(" {}).nodeCount ∧
    ((parse "\x7b f(a); g(" {}).nodeHasError 1 = true ↔
      ∃ below, (parse "\x7b f(a); g(" {}).Below 1 below ∧
        (((parse "\x7b f(a); g(" {}).node below).missing = true ∨
          ((parse "\x7b f(a); g(" {}).node below).symbol = .named .error)) := by
  have hid : 1 < (parse "\x7b f(a); g(" {}).nodeCount := by decide +kernel
  exact ⟨hid, parse_flags_damage "\x7b f(a); g(" {} hid⟩

/-- **Lookups by range find the smallest nodes.** In every parse, from every node and for every span
that is not empty. -/
theorem parse_lookup (source : String) (options : ParseOptions) {id : Nat} {span : Span}
    (hid : id < (parse source options).nodeCount) (hproper : span.start < span.stop) :
    (parse source options).FindsSmallest id span := by
  rcases parse_cases source options with h | ⟨limit, h⟩ <;> rw [h] at hid ⊢
  · exact ofRoot_findsSmallest rfl (dressedRoot_fitting source options.maxDepth) hid hproper
  · exact ofRoot_findsSmallest rfl (emptyRoot_fitting source) hid hproper

/-- A parenthesis is the smallest node there, and its list the smallest that is named. -/
theorem parse_lookup_parenthesis : 1 < (parse "f(a) /* */;" {}).nodeCount ∧ 1 < 2 ∧
    (parse "f(a) /* */;" {}).FindsSmallest 1 ⟨1, 2⟩ ∧
    (parse "f(a) /* */;" {}).descendantForRange? 1 ⟨1, 2⟩ = some 6 ∧
    (parse "f(a) /* */;" {}).namedDescendantForRange? 1 ⟨1, 2⟩ = some 5 := by
  have hid : 1 < (parse "f(a) /* */;" {}).nodeCount := by decide +kernel
  have hproper : 1 < 2 := by decide
  exact ⟨hid, hproper, parse_lookup "f(a) /* */;" {} hid hproper, by decide +kernel,
    by decide +kernel⟩

end ScriptTree
