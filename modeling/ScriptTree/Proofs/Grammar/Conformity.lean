import Mathlib
import ScriptTree.Proofs.Grammar.Shape

/-! Rows of children against the exported slots.

`Conforms` says what the exported description promises about the children of a node: each one that
has a field or a name is allowed by a slot of the kind, and each slot holds as many children as it
says. A row is compared with the slots of its kind once and for all (`row_fits`); children that
match a row which fits then conform (`Matches.conforms`). -/
namespace ScriptTree

namespace Slot

/-- Whether a symbol is among the types of the slot, a supertype standing for the kinds it
groups. -/
def allows (slot : Slot) (s : Symbol) : Bool :=
  slot.types.any fun t => t == s || t.kind?.any fun kind => (kinds kind.subtypes).contains s

/-- Whether children in a role belong in the slot: those with its field, or the named ones
without a field. -/
def takes (slot : Slot) (role : Role) : Bool :=
  slot.field == role.1 && (role.1.isSome || role.2.isNamed)

/-- The children that belong in the slot. -/
def held (slot : Slot) (children : List Node) : List Node := children.filter fun c => slot.takes c.role

end Slot

/-- What the exported description says of the children of a kind. -/
structure Conforms (kind : NodeKind) (children : List Node) : Prop where
  labelled : ∀ c ∈ children, ∀ field, c.field = some field →
    ∃ slot, Slot.find? kind (some field) = some slot ∧ slot.allows c.symbol
  unlabelled : ∀ c ∈ children, c.field = none → c.isNamed →
    ∃ slot, Slot.find? kind none = some slot ∧ slot.allows c.symbol
  required : ∀ slot ∈ Slot.all, slot.kind = kind → slot.required → slot.held children ≠ []
  single : ∀ slot ∈ Slot.all, slot.kind = kind → slot.multiple = false →
    (slot.held children).length ≤ 1

/-! ### Comparing rows with slots -/

/-- Whether a role needs no slot: damage, and tokens without a field. -/
def Role.isFree (role : Role) : Bool :=
  role.2 == .named .error || (role.1.isNone && !role.2.isNamed)

/-- How many children an item can put into a slot; two stands for any number. -/
def Item.most (slot : Slot) (item : Item) : Nat :=
  if item.roles.any slot.takes then
    match item with
    | .many _ => 2
    | _ => 1
  else 0

/-- Whether an item always puts a child that is no damage into a slot. -/
def Item.fills (slot : Slot) : Item → Bool
  | .one roles => roles.all fun role => slot.takes role && role.2 != .named .error
  | _ => false

/-- Whether a slot holds as many children as it says, whatever matches the row. -/
def Slot.suits (slot : Slot) (row : List Item) : Bool :=
  (!slot.required || row.any (Item.fills slot)) &&
    (slot.multiple || (row.map (Item.most slot)).sum ≤ 1)

/-- Whether everything that matches a row fits the slots of a kind. -/
def rowFits (kind : NodeKind) (row : List Item) : Bool :=
  (row.all fun item => item.roles.all fun role =>
    role.isFree || (Slot.find? kind role.1).any (·.allows role.2)) &&
  (Slot.all.filter (·.kind == kind)).all (·.suits row)

/-- The rows that the productions follow fit the exported slots. -/
theorem row_fits (kind : NodeKind) : rowFits kind kind.row = true := by
  cases kind <;> decide +kernel

/-! ### What matches a row conforms -/

/-- The children but for the damage among them. -/
def undamaged (children : List Node) : List Node := children.filter (!·.isError)

theorem Matches.exists_held {row : List Item} {cs : List Node} (h : Matches row cs) (slot : Slot)
    (hfills : row.any (Item.fills slot) = true) :
    ∃ c ∈ cs, slot.takes c.role = true ∧ c.isError = false := by
  induction h with
  | nil => cases hfills
  | @one roles row c cs hrole _ ih =>
    rw [List.any_cons, Bool.or_eq_true] at hfills
    rcases hfills with hfills | hfills
    · have := List.all_eq_true.mp hfills _ hrole
      rw [Bool.and_eq_true] at this
      exact ⟨c, List.mem_cons_self .., this.1, by simpa [Node.isError, Node.role] using this.2⟩
    · obtain ⟨c', hc, hheld⟩ := ih hfills
      exact ⟨c', List.mem_cons_of_mem _ hc, hheld⟩
  | absent _ ih => exact ih (by simpa [Item.fills] using hfills)
  | present _ _ ih =>
    obtain ⟨c', hc, hheld⟩ := ih (by simpa [Item.fills] using hfills)
    exact ⟨c', List.mem_cons_of_mem _ hc, hheld⟩
  | many _ _ ih =>
    obtain ⟨c', hc, hheld⟩ := ih (by simpa [Item.fills] using hfills)
    exact ⟨c', List.mem_append_right _ hc, hheld⟩

/-- A child that a slot takes counts for the item it fills. -/
theorem Item.most_pos {slot : Slot} {item : Item} {role : Role} (hrole : role ∈ item.roles)
    (htakes : slot.takes role = true) : 1 ≤ item.most slot := by
  have hany : item.roles.any slot.takes = true := List.any_eq_true.mpr ⟨role, hrole, htakes⟩
  simp only [Item.most, hany, if_true]
  split <;> decide

theorem Matches.length_held_le {row : List Item} {cs : List Node} (h : Matches row cs)
    (slot : Slot) (hmost : (row.map (Item.most slot)).sum ≤ 1) :
    (slot.held cs).length ≤ (row.map (Item.most slot)).sum := by
  induction h with
  | nil => exact Nat.le_refl _
  | @one roles row c cs hrole _ ih =>
    rw [List.map_cons, List.sum_cons] at hmost ⊢
    have := ih (by omega)
    simp only [Slot.held, List.filter_cons] at this ⊢
    split
    · rename_i htakes
      have : 1 ≤ (Item.one roles).most slot := Item.most_pos hrole htakes
      rw [List.length_cons]
      omega
    · omega
  | absent _ ih =>
    rw [List.map_cons, List.sum_cons] at hmost ⊢
    have := ih (by omega)
    omega
  | @present roles row c cs hrole _ ih =>
    rw [List.map_cons, List.sum_cons] at hmost ⊢
    have := ih (by omega)
    simp only [Slot.held, List.filter_cons] at this ⊢
    split
    · rename_i htakes
      have : 1 ≤ (Item.optional roles).most slot := Item.most_pos hrole htakes
      rw [List.length_cons]
      omega
    · omega
  | @many roles row here cs hroles _ ih =>
    rw [List.map_cons, List.sum_cons] at hmost ⊢
    have hrest := ih (by omega)
    have hnone : roles.any slot.takes = false := by
      by_contra hsome
      rw [Bool.not_eq_false] at hsome
      simp only [Item.most, Item.roles, hsome, if_true] at hmost
      omega
    have hhere : here.filter (fun c => slot.takes c.role) = [] := by
      rw [List.filter_eq_nil_iff]
      intro c hc htakes
      rw [List.any_eq_true.mpr ⟨_, hroles c hc, htakes⟩] at hnone
      cases hnone
    simp only [Slot.held, List.filter_append, hhere, List.nil_append] at hrest ⊢
    omega

/-- A child that matches the row of a kind is allowed by a slot, unless it needs none. -/
theorem Matches.allowed {kind : NodeKind} {cs : List Node} (h : Matches kind.row cs) {c : Node}
    (hc : c ∈ cs) (hfree : Role.isFree c.role = false) :
    ∃ slot, Slot.find? kind c.field = some slot ∧ slot.allows c.symbol := by
  obtain ⟨item, hitem, hrole⟩ := h.role_mem c hc
  have hfits := (Bool.and_eq_true _ _ ▸ row_fits kind : _ ∧ _).1
  have := List.all_eq_true.mp (List.all_eq_true.mp hfits item hitem) c.role hrole
  rw [hfree, Bool.false_or, Option.any_eq_true] at this
  exact this

theorem Matches.suits {kind : NodeKind} {cs : List Node} (_ : Matches kind.row cs) {slot : Slot}
    (hslot : slot ∈ Slot.all) (hkind : slot.kind = kind) : slot.suits kind.row = true := by
  have hfits := (Bool.and_eq_true _ _ ▸ row_fits kind : _ ∧ _).2
  exact List.all_eq_true.mp hfits slot (List.mem_filter.mpr ⟨hslot, by simpa using hkind⟩)

/-- Children that match the row of a kind are what the exported description says, damage among them
left aside. -/
theorem Matches.conforms {kind : NodeKind} {cs : List Node} (h : Matches kind.row cs) :
    Conforms kind (undamaged cs) where
  labelled c hc field hfield := by
    obtain ⟨hmem, herror⟩ := List.mem_filter.mp hc
    rw [← hfield]
    refine h.allowed hmem ?_
    simp [Role.isFree, Node.role, hfield]
    simpa [Node.isError] using herror
  unlabelled c hc hfield hnamed := by
    obtain ⟨hmem, herror⟩ := List.mem_filter.mp hc
    rw [← hfield]
    refine h.allowed hmem ?_
    have hsymbol : c.symbol.isNamed = true := hnamed
    simp [Role.isFree, Node.role, hfield, hsymbol]
    simpa [Node.isError] using herror
  required slot hslot hkind hrequired := by
    have hsuits := h.suits hslot hkind
    rw [Slot.suits, Bool.and_eq_true, hrequired] at hsuits
    obtain ⟨c, hc, htakes, herror⟩ := h.exists_held slot (by simpa using hsuits.1)
    refine List.ne_nil_of_mem (a := c) ?_
    exact List.mem_filter.mpr ⟨List.mem_filter.mpr ⟨hc, by simpa using herror⟩, htakes⟩
  single slot hslot hkind hsingle := by
    have hsuits := h.suits hslot hkind
    rw [Slot.suits, Bool.and_eq_true, hsingle] at hsuits
    have hmost : (kind.row.map (Item.most slot)).sum ≤ 1 := by simpa using hsuits.2
    calc (slot.held (undamaged cs)).length
        ≤ (slot.held cs).length := (List.filter_sublist.filter _).length_le
      _ ≤ (kind.row.map (Item.most slot)).sum := h.length_held_le slot hmost
      _ ≤ 1 := hmost

end ScriptTree
