import Mathlib
import ScriptTree.Building.Arena

/-! Nodes where they stand in the arena.

A node stands at a place behind everything below it, and the nodes of a list stand one behind the other
(`Grove`), so that a list of nodes fills a stretch of the arena. Only a primary expression whose content
was taken out of it stays in between (`Gap`). What has been made and not been taken up yet is a `Stack` of
this kind, whose fields are known but not filled in. Taking all of it up under a new node gives a grove
again (`Stack.grove`), and `keep` does the same when it finds the nodes again (`Stack.keep_eq`), since each
of them is the last of its kind in front of the next. -/
namespace ScriptTree

open Parsing

/-- Whether an entry is what is kept of a node, apart from its field and its children. -/
structure Parsing.Built.Shows (b : Built) (n : Node) : Prop where
  symbol : b.symbol = n.symbol
  span : b.span = n.span
  missing : b.missing = n.missing
  extra : b.extra = n.extra

namespace Parsing

theorem size_adopts (made : Array Built) (taken : List (Nat × Node)) :
    (taken.foldl adopt made).size = made.size := by
  induction taken generalizing made with
  | nil => rfl
  | cons first taken ih => rw [List.foldl_cons, ih, adopt, Array.size_modify]

theorem size_keep (made : Array Built) (n : Node) : (keep made n).size = made.size + 1 := by
  rw [keep, Array.size_push, size_adopts]

end Parsing

namespace Building

/-- Whether only primary expressions without their content stand between a node and the next, and none
behind a primary expression. -/
def Gap (made : Array Built) (id behind : Nat) (n : Node) : Prop :=
  ∀ j, id < j → j < behind → n.symbol ≠ .named .primaryExpression ∧
    ∃ b, made[j]? = some b ∧ b.symbol = .named .primaryExpression

/-- Whether nodes and all below them stand in the arena from a place up to another, one behind the
other. -/
inductive Grove (made : Array Built) : Nat → Nat → List Nat → List Node → Prop
  | nil {lo} : Grove made lo lo [] []
  | cons {lo id mid hi b n ids ns} (kept : made[id]? = some b) (shows : b.Shows n)
      (field : b.field = n.field) (below : Grove made lo id b.children n.children) (lt : id < mid)
      (gap : Gap made id mid n) (rest : Grove made mid hi ids ns) :
      Grove made lo hi (id :: ids) (n :: ns)

/-- Whether a node stands at a place, from `lo` up to `hi` with everything below it. -/
structure Stands (made : Array Built) (lo hi id : Nat) (n : Node) : Prop where
  kept : ∃ b, made[id]? = some b ∧ b.Shows n ∧ Grove made lo id b.children n.children
  lt : id < hi
  gap : Gap made id hi n

/-- Whether a node that has not been taken up stands at a place. It is known in which field it will be;
and what a primary expression holds fills no field. -/
structure Pending (made : Array Built) (lo hi : Nat) (child : Child) (n : Node) : Prop where
  stands : Stands made lo hi child.id.index n
  field : child.field = n.field
  plain : n.symbol = .named .primaryExpression → ∀ c ∈ n.children, c.field = none

/-- Whether nodes that have not been taken up stand in the arena from a place up to another, one behind
the other. -/
inductive Stack (made : Array Built) : Nat → Nat → List (Child × Node) → Prop
  | nil {lo} : Stack made lo lo []
  | cons {lo mid hi child n pending} (first : Pending made lo mid child n)
      (rest : Stack made mid hi pending) : Stack made lo hi ((child, n) :: pending)

variable {made made' : Array Built} {lo mid hi id : Nat} {ids : List Nat} {n : Node} {ns : List Node}
  {child : Child} {pending : List (Child × Node)}

/-! ### Stretches of the arena -/

theorem Grove.le (h : Grove made lo hi ids ns) : lo ≤ hi := by
  induction h with
  | nil => exact Nat.le_refl _
  | cons _ _ _ _ lt _ _ ihBelow ihRest => omega

theorem Stands.le (h : Stands made lo hi id n) : lo ≤ id := by
  obtain ⟨_, _, _, hbelow⟩ := h.kept
  exact hbelow.le

theorem Stack.le (h : Stack made lo hi pending) : lo ≤ hi := by
  induction h with
  | nil => exact Nat.le_refl _
  | cons first _ ih =>
    have := first.stands.le
    have := first.stands.lt
    omega

theorem Gap.congr (h : Gap made id hi n) (hsame : ∀ j, id < j → j < hi → made'[j]? = made[j]?) :
    Gap made' id hi n := by
  intro j hid hhi
  rw [hsame j hid hhi]
  exact h j hid hhi

/-- What stands in a stretch of the arena depends on nothing outside. -/
theorem Grove.congr (h : Grove made lo hi ids ns)
    (hsame : ∀ j, lo ≤ j → j < hi → made'[j]? = made[j]?) : Grove made' lo hi ids ns := by
  induction h with
  | nil => exact .nil
  | cons kept shows field below lt gap rest ihBelow ihRest =>
    have hlo := below.le
    have hhi := rest.le
    exact .cons ((hsame _ hlo (by omega)).trans kept) shows field
      (ihBelow fun j hj hj' => hsame j hj (by omega)) lt
      (gap.congr fun j hj hj' => hsame j (by omega) (by omega))
      (ihRest fun j hj hj' => hsame j (by omega) hj')

theorem Stands.congr (h : Stands made lo hi id n)
    (hsame : ∀ j, lo ≤ j → j < hi → made'[j]? = made[j]?) : Stands made' lo hi id n where
  kept := by
    obtain ⟨b, hkept, hshows, hbelow⟩ := h.kept
    have hlt := h.lt
    exact ⟨b, (hsame id hbelow.le hlt).trans hkept, hshows,
      hbelow.congr fun j hj hj' => hsame j hj (by omega)⟩
  lt := h.lt
  gap := h.gap.congr fun j hj hj' => hsame j (by have := h.le; omega) hj'

theorem Stack.congr (h : Stack made lo hi pending)
    (hsame : ∀ j, lo ≤ j → j < hi → made'[j]? = made[j]?) : Stack made' lo hi pending := by
  induction h with
  | nil => exact .nil
  | cons first rest ih =>
    have hmid := rest.le
    have hlo := first.stands.le
    have hlt := first.stands.lt
    exact .cons ⟨first.stands.congr fun j hj hj' => hsame j hj (by omega), first.field, first.plain⟩
      (ih fun j hj hj' => hsame j (by omega) hj')

theorem Stack.append {above : List (Child × Node)} (h : Stack made lo mid pending)
    (h' : Stack made mid hi above) : Stack made lo hi (pending ++ above) := by
  induction h with
  | nil => exact h'
  | cons first _ ih => exact .cons first (ih h')

theorem Stack.single (h : Pending made lo hi child n) : Stack made lo hi [(child, n)] :=
  .cons h .nil

theorem Stack.first (h : Stack made lo hi [(child, n)]) : Pending made lo hi child n := by
  cases h with
  | cons first rest =>
    cases rest
    exact first

/-! ### Finding nodes again -/

theorem Stands.isOf (h : Stands made lo hi id n) : made[id]?.any (·.isOf n) = true := by
  obtain ⟨b, hkept, hshows, _⟩ := h.kept
  simp [hkept, Built.isOf, hshows.span, hshows.symbol, hshows.missing]

theorem Gap.not_isOf (h : Gap made id hi n) {j : Nat} (hid : id < j) (hhi : j < hi) :
    made[j]?.any (·.isOf n) = false := by
  obtain ⟨hother, b, hkept, hsymbol⟩ := h j hid hhi
  simp [hkept, Built.isOf, hsymbol, hother.symm]

/-- Up to where a node reaches, it is the last one that is kept of it. -/
theorem Stands.lastIndex?_eq (h : Stands made lo hi id n) : lastIndex? made n hi = some id := by
  obtain ⟨k, rfl⟩ : ∃ k, hi = id + 1 + k := ⟨hi - (id + 1), by have := h.lt; omega⟩
  have hgap := h.gap
  induction k with
  | zero => exact if_pos h.isOf
  | succ k ih =>
    have hshort : Gap made id (id + 1 + k) n := fun j hid hhi => hgap j hid (by omega)
    have hnot := hgap.not_isOf (j := id + 1 + k) (by omega) (by omega)
    rw [← Nat.add_assoc, lastIndex?, hnot, if_neg Bool.false_ne_true]
    exact ih ⟨h.kept, by omega, hshort⟩ hshort

theorem Grove.eq_of_nil (h : Grove made lo hi [] ns) : lo = hi ∧ ns = [] := by
  cases h
  exact ⟨rfl, rfl⟩

theorem Grove.head_lt (h : Grove made lo hi (id :: ids) ns) : id < hi := by
  cases h with
  | cons _ _ _ _ lt _ rest =>
    have := rest.le
    omega

/-- The first index below an entry is that of its first child, if it has one. -/
theorem firstIndex_of_kept {b : Built} (hkept : made[id]? = some b) (hbelow : Grove made lo id b.children ns)
    (hfirst : ∀ c ∈ b.children.head?, ∀ steps, c ≤ steps → firstIndex made steps c = lo) {steps : Nat}
    (hsteps : id ≤ steps) : firstIndex made steps id = lo := by
  cases hchildren : b.children with
  | nil =>
    obtain rfl := (hchildren ▸ hbelow).eq_of_nil.1
    cases steps <;> simp [firstIndex, hkept, hchildren]
  | cons c cs =>
    have hlt := (hchildren ▸ hbelow).head_lt
    cases steps with
    | zero => omega
    | succ steps =>
      rw [firstIndex, hkept, Option.bind_some, hchildren]
      exact hfirst c (by rw [hchildren]; rfl) steps (by omega)

theorem Grove.firstIndex_eq (h : Grove made lo hi ids ns) :
    ∀ id ∈ ids.head?, ∀ steps, id ≤ steps → firstIndex made steps id = lo := by
  induction h with
  | nil => nofun
  | cons kept _ _ below _ _ _ ihBelow =>
    intro id hid steps hsteps
    obtain rfl := Option.some.inj hid
    exact firstIndex_of_kept kept below ihBelow hsteps

theorem Stands.firstIndex_eq (h : Stands made lo hi id n) : firstIndex made id id = lo := by
  obtain ⟨b, hkept, _, hbelow⟩ := h.kept
  exact firstIndex_of_kept hkept hbelow hbelow.firstIndex_eq (Nat.le_refl _)

/-- The places of nodes that have been made last are found again. -/
theorem Stack.indicesBelow_eq (h : Stack made lo hi pending) :
    indicesBelow made hi (pending.map Prod.snd) = (lo, pending.map (·.1.id.index)) := by
  induction h with
  | nil => rfl
  | cons first rest ih =>
    simp only [List.map_cons, indicesBelow, ih, first.stands.lastIndex?_eq,
      first.stands.firstIndex_eq]

/-! ### Taking up nodes -/

/-- The arena with the field of a child filled in. -/
def filled (made : Array Built) (child : Child) : Array Built :=
  made.modify child.id.index fun b => { b with field := child.field }

theorem size_fills (made : Array Built) (children : List Child) :
    (children.foldl filled made).size = made.size := by
  induction children generalizing made with
  | nil => rfl
  | cons c children ih => rw [List.foldl_cons, ih, filled, Array.size_modify]

theorem filled_of_ne {j : Nat} (h : child.id.index ≠ j) : (filled made child)[j]? = made[j]? := by
  rw [filled, Array.getElem?_modify, if_neg h]

/-- Filling in fields changes nothing where none of the children stands. -/
theorem fills_of_ne {children : List Child} {j : Nat} (h : ∀ c ∈ children, c.id.index ≠ j) :
    (children.foldl filled made)[j]? = made[j]? := by
  induction children generalizing made with
  | nil => rfl
  | cons c children ih =>
    obtain ⟨hc, hchildren⟩ := List.forall_mem_cons.mp h
    rw [List.foldl_cons, ih hchildren, filled_of_ne hc]

/-- Filling in no field changes nothing where none has been filled in. -/
theorem fills_none {children : List Child} (hplain : ∀ c ∈ children, c.field = none)
    (hnone : ∀ c ∈ children, ∀ b ∈ made[c.id.index]?, b.field = none) :
    children.foldl filled made = made := by
  induction children with
  | nil => rfl
  | cons c children ih =>
    obtain ⟨hc, hplain⟩ := List.forall_mem_cons.mp hplain
    obtain ⟨hnonec, hnone⟩ := List.forall_mem_cons.mp hnone
    have hsame : filled made c = made := by
      refine Array.ext_getElem? fun i => ?_
      rw [filled, Array.getElem?_modify, hc]
      split
      case isFalse => rfl
      case isTrue heq =>
        subst heq
        cases hkept : made[c.id.index]? with
        | none => rfl
        | some b =>
          have := hnonec b hkept
          cases b
          cases this
          rfl
    rw [List.foldl_cons, hsame, ih hplain hnone]

theorem Stack.within (h : Stack made lo hi pending) :
    ∀ c ∈ pending.map Prod.fst, lo ≤ c.id.index ∧ c.id.index < hi := by
  induction h with
  | nil => nofun
  | cons first rest ih =>
    have hlo := first.stands.le
    have hlt := first.stands.lt
    have hmid := rest.le
    refine List.forall_mem_cons.mpr ⟨⟨hlo, by dsimp only; omega⟩, fun c hc => ?_⟩
    obtain ⟨hc, hc'⟩ := ih c hc
    exact ⟨by omega, hc'⟩

theorem Stack.fills_below (h : Stack made lo hi pending) {j : Nat} (hj : j < lo) :
    ((pending.map Prod.fst).foldl filled made)[j]? = made[j]? :=
  fills_of_ne fun c hc => by
    have := h.within c hc
    omega

/-- A node whose field is filled in stands where it stood. -/
theorem Stands.filled (h : Stands made lo hi child.id.index n) :
    Stands (filled made child) lo hi child.id.index n where
  kept := by
    obtain ⟨b, hkept, hshows, hbelow⟩ := h.kept
    refine ⟨{ b with field := child.field }, ?_, ⟨hshows.symbol, hshows.span, hshows.missing,
      hshows.extra⟩, hbelow.congr fun j _ hj => filled_of_ne hj.ne'⟩
    rw [Building.filled, Array.getElem?_modify, if_pos rfl, hkept]
    rfl
  lt := h.lt
  gap := h.gap.congr fun j hj _ => filled_of_ne hj.ne

theorem Stands.kept_filled (h : Stands made lo hi child.id.index n) :
    ∃ b, (Building.filled made child)[child.id.index]? = some b ∧ b.field = child.field := by
  obtain ⟨b, hkept, _⟩ := h.kept
  refine ⟨{ b with field := child.field }, ?_, rfl⟩
  rw [Building.filled, Array.getElem?_modify, if_pos rfl, hkept]
  rfl

/-- A node that stands somewhere with its field filled in, and a grove behind it. -/
theorem Stands.grove (h : Stands made lo mid id n)
    (hfield : ∃ b, made[id]? = some b ∧ b.field = n.field) (hrest : Grove made mid hi ids ns) :
    Grove made lo hi (id :: ids) (n :: ns) := by
  obtain ⟨b, hkept, hshows, hbelow⟩ := h.kept
  obtain ⟨b', hkept', hfield⟩ := hfield
  obtain rfl := Option.some.inj (hkept.symm.trans hkept')
  exact .cons hkept hshows hfield hbelow h.lt h.gap hrest

/-- Taking up all pending nodes fills in all fields. -/
theorem Stack.grove (h : Stack made lo hi pending) :
    Grove ((pending.map Prod.fst).foldl Building.filled made) lo hi (pending.map (·.1.id.index))
      (pending.map Prod.snd) := by
  induction pending generalizing made lo with
  | nil =>
    cases h
    exact .nil
  | cons taken pending ih =>
    cases h with
    | @cons _ mid _ child n _ first rest =>
      have hlt := first.stands.lt
      have hrest : Stack (Building.filled made child) mid hi pending :=
        rest.congr fun j hj _ => filled_of_ne (by omega)
      -- What is filled in behind the first node leaves it alone.
      have hsame (j : Nat) (hj : j < mid) :
          ((pending.map Prod.fst).foldl Building.filled (Building.filled made child))[j]? =
            (Building.filled made child)[j]? := hrest.fills_below hj
      obtain ⟨b, hkept, hfield⟩ := first.stands.kept_filled
      refine Stands.grove (first.stands.filled.congr fun j _ hj => hsame j hj)
        ⟨b, (hsame _ hlt).trans hkept, hfield.trans first.field⟩ (ih hrest)

/-! ### Making a node -/

theorem adopts_eq (made : Array Built) (pending : List (Child × Node))
    (hfields : ∀ taken ∈ pending, taken.1.field = taken.2.field) :
    ((pending.map (·.1.id.index)).zip (pending.map Prod.snd)).foldl adopt made =
      (pending.map Prod.fst).foldl Building.filled made := by
  induction pending generalizing made with
  | nil => rfl
  | cons taken pending ih =>
    obtain ⟨hfield, hfields⟩ := List.forall_mem_cons.mp hfields
    have hadopt : adopt made (taken.1.id.index, taken.2) = Building.filled made taken.1 := by
      rw [adopt, Building.filled, hfield]
    rw [List.map_cons, List.map_cons, List.zip_cons_cons, List.foldl_cons, hadopt, ih _ hfields]
    rfl

theorem Stack.fields (h : Stack made lo hi pending) :
    ∀ taken ∈ pending, taken.1.field = taken.2.field := by
  induction h with
  | nil => nofun
  | cons first _ ih => exact List.forall_mem_cons.mpr ⟨first.field, ih⟩

/-- Keeping a node of pending ones takes them up where they stand. -/
theorem Stack.keep_eq (h : Stack made lo made.size pending) (hn : n.children = pending.map Prod.snd) :
    keep made n = ((pending.map Prod.fst).foldl filled made).push
      ⟨n.symbol, n.span, none, n.missing, n.extra, pending.map (·.1.id.index)⟩ := by
  have hindices : indicesOf made n.children = pending.map (·.1.id.index) := by
    rw [indicesOf, hn, h.indicesBelow_eq]
  rw [keep, hindices, hn]
  rw [adopts_eq _ _ h.fields]

theorem Stack.kept_keep (h : Stack made lo made.size pending) (hn : n.children = pending.map Prod.snd) :
    (keep made n)[made.size]? =
      some ⟨n.symbol, n.span, none, n.missing, n.extra, pending.map (·.1.id.index)⟩ := by
  rw [h.keep_eq hn, Array.getElem?_push, if_pos (size_fills made (pending.map Prod.fst)).symm]

/-- Behind the nodes that it has taken up, a new node is pending in their place. -/
theorem Stack.pending_keep (h : Stack made lo made.size pending) (hn : n.children = pending.map Prod.snd)
    (hfield : n.field = none)
    (hplain : n.symbol = .named .primaryExpression → ∀ c ∈ n.children, c.field = none) :
    Pending (keep made n) lo (keep made n).size ⟨⟨made.size⟩, none⟩ n := by
  have hsize := size_fills made (pending.map Prod.fst)
  refine ⟨⟨⟨_, h.kept_keep hn, ⟨rfl, rfl, rfl, rfl⟩, ?_⟩, ?_, fun j hj hj' => ?_⟩, hfield.symm, hplain⟩
  · dsimp only
    rw [hn]
    refine h.grove.congr fun j _ hj => ?_
    rw [h.keep_eq hn, Array.getElem?_push, if_neg (by omega)]
  · rw [size_keep]
    exact Nat.lt_succ_self _
  · rw [size_keep] at hj'
    dsimp only at hj
    omega

/-- Below the nodes that it takes up, making a node changes nothing. -/
theorem Stack.keep_below (h : Stack made lo made.size pending) (hn : n.children = pending.map Prod.snd)
    {j : Nat} (hj : j < lo) : (keep made n)[j]? = made[j]? := by
  have hle := h.le
  rw [h.keep_eq hn, Array.getElem?_push, if_neg (by rw [size_fills]; omega), h.fills_below hj]

/-! ### Taking the content out of a primary expression -/

/-- What a primary expression holds is pending in its place. -/
theorem Pending.content {inner : Node} {b : Built} {i : Nat} (h : Pending made lo hi child n)
    (hkept : made[child.id.index]? = some b) (hids : b.children = [i])
    (hsymbol : n.symbol = .named .primaryExpression) (hchildren : n.children = [inner])
    (hinner : inner.symbol ≠ .named .primaryExpression) : Pending made lo hi (NodeId.mk i).plain inner := by
  obtain ⟨b', hkept', hshows, hbelow⟩ := h.stands.kept
  obtain rfl := Option.some.inj (hkept.symm.trans hkept')
  rw [hchildren, hids] at hbelow
  cases hbelow with
  | @cons _ _ mid _ b' _ _ _ kept shows field below lt gap rest =>
    cases rest
    refine ⟨⟨⟨b', kept, shows, below⟩, lt.trans h.stands.lt, ?_⟩,
      (h.plain hsymbol inner (by simp [hchildren])).symm, fun hprimary => absurd hprimary hinner⟩
    intro j hj hhi
    refine ⟨hinner, ?_⟩
    rcases Nat.lt_trichotomy j child.id.index with hlt | rfl | hgt
    · exact (gap j hj hlt).2
    · exact ⟨b, hkept, hshows.symbol.trans hsymbol⟩
    · exact absurd hsymbol (h.stands.gap j hgt hhi).1

end Building

end ScriptTree
