import Mathlib
import ScriptTree.Proofs.Parsing.Framing

/-! The shape of the nodes of a forest, all the way down.

A lawful node has children that match the row of its kind, fit its operator if it has one and are
lawful themselves, or it is damage over leaves. Where damage and signed numbers can stand can then be
read off the rows (`Lawful.parent_of_error`, `Lawful.parent_of_condition`). -/
namespace ScriptTree

/-- Whether a leaf of damage may have a symbol: that of a token. -/
def Parsing.IsSkipped (symbol : Symbol) : Prop := ∃ kind ≠ .endOfFile, symbol = symbolOf kind

theorem Parsing.IsSkipped.not_mem {symbol : Symbol} (h : IsSkipped symbol) :
    symbol ∉ [.named .error, .named .binaryExpression, .named .unaryExpression] := by
  obtain ⟨kind, hreal, rfl⟩ := h
  cases kind <;> first | exact absurd rfl hreal | simp [symbolOf]

theorem Parsing.IsSkipped.ne_error {symbol : Symbol} (h : IsSkipped symbol) :
    symbol ≠ .named .error :=
  fun herror => h.not_mem (herror ▸ List.mem_cons_self ..)

inductive Lawful : Node → Prop
  | regular {n} (sound : n.symbol ≠ .named .error) (row : Matches n.symbol.row n.children)
      (fits : ∀ kind, n.symbol = .named kind → FitsOperator kind n.children)
      (below : ∀ c ∈ n.children, Lawful c)
      (sheltered : n.symbol = .named .blockStatement → ∀ c ∈ n.children, Parsing.Sheltered c) :
      Lawful n
  | damage {n} (symbol : n.symbol = .named .error)
      (leaves : ∀ c ∈ n.children, c.children = [] ∧ Parsing.IsSkipped c.symbol ∧ c.field = none) :
      Lawful n

/-! ### Rows that have room for a role -/

/-- Damage has a place only among statements. -/
theorem error_rows (kind : NodeKind) : ∀ item ∈ kind.row, ∀ role ∈ item.roles,
    role.2 = .named .error → kind = .program ∨ kind = .blockStatement := by
  cases kind <;> decide +kernel

/-- What stands around a number that is a condition. -/
def conditionKind : Field → NodeKind
  | .condition => .matchCase
  | _ => .matchRange

theorem condition_rows (kind : NodeKind) : ∀ field ∈ Parsing.conditionFields, ∀ item ∈ kind.row,
    (some field, .named .number) ∈ item.roles → kind = conditionKind field := by
  cases kind <;> decide +kernel

namespace Lawful
variable {n c : Node}

theorem row (h : Lawful n) (hsound : n.symbol ≠ .named .error) :
    Matches n.symbol.row n.children := by
  cases h with
  | regular _ row => exact row
  | damage symbol => exact absurd symbol hsound

theorem child (h : Lawful n) (hsound : n.symbol ≠ .named .error) : ∀ c ∈ n.children, Lawful c := by
  cases h with
  | regular _ _ _ below => exact below
  | damage symbol => exact absurd symbol hsound

theorem fits (h : Lawful n) {kind : NodeKind} (hsymbol : n.symbol = .named kind)
    (hsound : kind ≠ .error) : FitsOperator kind n.children := by
  cases h with
  | regular _ _ fits => exact fits kind hsymbol
  | damage symbol => exact absurd (Symbol.named.inj (hsymbol.symm.trans symbol)) hsound

/-- Damage in a block does not start with the brace that closes the block. -/
theorem sheltered (h : Lawful n) (hsymbol : n.symbol = .named .blockStatement) :
    ∀ c ∈ n.children, Parsing.Sheltered c := by
  cases h with
  | regular _ _ _ _ sheltered => exact sheltered hsymbol
  | damage symbol => cases hsymbol.symm.trans symbol

theorem leaves (h : Lawful n) (hsymbol : n.symbol = .named .error) :
    ∀ c ∈ n.children, c.children = [] ∧ Parsing.IsSkipped c.symbol ∧ c.field = none := by
  cases h with
  | regular sound => exact absurd hsymbol sound
  | damage _ leaves => exact leaves

/-- A child has its role in the row of the kind of its parent. -/
theorem role_mem (h : Lawful n) (hsound : n.symbol ≠ .named .error) (hc : c ∈ n.children) :
    ∃ kind, n.symbol = .named kind ∧ ∃ item ∈ kind.row, c.role ∈ item.roles := by
  obtain ⟨item, hitem, hrole⟩ := (h.row hsound).role_mem c hc
  cases hsymbol : n.symbol with
  | named kind =>
    rw [hsymbol] at hitem
    exact ⟨kind, rfl, item, hitem, hrole⟩
  | _ =>
    rw [hsymbol] at hitem
    cases hitem

theorem parent_of_error (h : Lawful n) (hc : c ∈ n.children) (hsymbol : c.symbol = .named .error) :
    n.symbol = .named .program ∨ n.symbol = .named .blockStatement := by
  have hsound : n.symbol ≠ .named .error := by
    intro herror
    cases h with
    | regular sound => exact sound herror
    | damage _ leaves => exact (leaves c hc).2.1.ne_error hsymbol
  obtain ⟨kind, hkind, item, hitem, hrole⟩ := h.role_mem hsound hc
  rw [hkind]
  exact (error_rows kind item hitem _ hrole hsymbol).imp (congrArg _) (congrArg _)

theorem parent_of_condition (h : Lawful n) (hc : c ∈ n.children) {field : Field}
    (hfield : field ∈ Parsing.conditionFields) (hrole : c.role = (some field, .named .number)) :
    n.symbol = .named (conditionKind field) := by
  have hsound : n.symbol ≠ .named .error := by
    intro herror
    cases h with
    | regular sound => exact sound herror
    | damage _ leaves =>
      have hlabel : c.field = some field := congrArg Prod.fst hrole
      rw [(leaves c hc).2.2] at hlabel
      cases hlabel
  obtain ⟨kind, hkind, item, hitem, hmem⟩ := h.role_mem hsound hc
  rw [hrole] at hmem
  rw [hkind, condition_rows kind field hfield item hitem hmem]

end Lawful

namespace Parsing
variable {tokens : Array Token}

theorem lawful_leaf {n : Node} (hchildren : n.children = []) (hsound : n.symbol ≠ .named .error)
    (hrow : Matches n.symbol.row []) : Lawful n := by
  refine .regular hsound (hchildren ▸ hrow) (fun kind hkind => ?_) (by simp [hchildren])
    (by simp [hchildren])
  rw [hkind] at hrow
  cases kind <;> first | exact trivial | cases hrow

/-- The parts of a string or regular expression are tokens, or kinds without children. -/
theorem literal_parts : ∀ kind ∈ [NodeKind.string, .regex], ∀ item ∈ kind.row,
    ∀ role ∈ item.roles, role.2 ≠ .named .error ∧ role.2.row = [] := by
  decide

theorem literal_kind {token : Token} {n : Node} (h : literalNode? token = some n) :
    ∃ kind ∈ [NodeKind.string, .regex], n.symbol = .named kind := by
  rw [literalNode?] at h
  split at h <;> cases h
  · exact ⟨.string, by decide, rfl⟩
  · exact ⟨.regex, by decide, rfl⟩

theorem literal_lawful (hs : IsStream tokens) {i : Nat} {n : Node} (field : Option Field)
    (h : literalNode? (tokenAt tokens i) = some n) : Lawful { n with field } := by
  have hrow := hs.matched i n h
  obtain ⟨kind, hkind, hsymbol⟩ := literal_kind h
  refine .regular ?_ hrow (fun kind' hkind' => ?_) (fun c hc => ?_) fun hblock => ?_
  · rw [hsymbol]
    rintro ⟨⟩
    exact absurd hkind (by decide)
  · cases hsymbol.symm.trans hkind'
    rcases List.mem_pair.mp hkind with rfl | rfl <;> exact trivial
  · obtain ⟨item, hitem, hrole⟩ := hrow.role_mem c hc
    rw [hsymbol] at hitem
    obtain ⟨hsound, hnone⟩ := literal_parts kind hkind item hitem _ hrole
    exact lawful_leaf (literal_leaves h c hc).1 hsound (hnone ▸ .nil)
  · obtain rfl := Symbol.named.inj (hsymbol.symm.trans hblock)
    exact absurd hkind (by decide)

theorem Forest.lawful (hs : IsStream tokens) {p q : Nat} {ps : List Problem} {ns : List Node}
    (h : Forest tokens p q ps ns) : ∀ n ∈ ns, Lawful n := by
  induction h with
  | nil => nofun
  | token _ reads _ ih =>
    have hleaf := row_of_readsAs reads
    rintro n (_ | ⟨_, hn⟩)
    · exact lawful_leaf rfl hleaf.2 hleaf.1
    · exact ih n hn
  | signed _ _ _ _ _ _ ih =>
    rintro n (_ | ⟨_, hn⟩)
    · exact lawful_leaf rfl nofun .nil
    · exact ih n hn
  | literal field made _ ih =>
    rintro n (_ | ⟨_, hn⟩)
    · exact literal_lawful hs field made
    · exact ih n hn
  | absent _ _ _ ih =>
    rintro n (_ | ⟨_, hn⟩)
    · exact lawful_leaf rfl nofun .nil
    · exact ih n hn
  | @inner p m q ps ps' kind cs ns field children row nonempty orderly _ ihc ih =>
    rintro n (_ | ⟨_, hn⟩)
    · refine .regular (fun herror => ?_) row (fun kind' hkind' => ?_) ihc
        fun hblock => orderly.sheltered (Symbol.named.inj hblock)
      · obtain rfl : kind = .error := Symbol.named.inj herror
        cases row
        exact nonempty rfl
      · cases hkind'
        exact orderly.fits
    · exact ih n hn
  | damage field lt real _ _ ih =>
    rintro n (_ | ⟨_, hn⟩)
    · refine .damage rfl fun c hc => ?_
      obtain ⟨token, htoken, rfl⟩ := List.mem_map.mp hc
      obtain ⟨i, hpi, him, rfl⟩ := mem_extract htoken
      exact ⟨rfl, ⟨_, real i hpi him, rfl⟩, rfl⟩
    · exact ih n hn

end Parsing

end ScriptTree
