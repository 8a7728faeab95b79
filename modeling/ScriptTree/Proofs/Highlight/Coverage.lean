import Mathlib
import ScriptTree.Proofs.Highlight.Runs
import ScriptTree.Proofs.Parsing.Arena

/-! Which leaves are in a stretch.

A leaf that has no class is in no stretch (`Canonical.uncovered`), so all depends on which leaves have
one. Where a leaf stands as the grammar says, the row of its parent only has room for symbols with a
class (`classified_rows`). In damage every token is a leaf, also a whole string or regular expression,
and these have none: `parse_coverage` says that nothing else is left out. -/
namespace ScriptTree

open Parsing

/-- Whether leaves of a kind have a class. -/
def NodeKind.isClassified (kind : NodeKind) : Bool :=
  kind ∈ [.comment, .htmlComment, .number, .stringFragment, .escapeSequence, .regexPattern,
    .regexFlags, .trueLiteral, .falseLiteral, .undefinedLiteral, .constMark, .letMark,
    .typeIdentifier, .optionalChain, .shorthandPropertyIdentifier,
    .shorthandPropertyIdentifierPattern, .propertyIdentifier, .identifier]

/-- Whether leaves with a symbol have a class, those of a primitive type apart. -/
def Symbol.isClassified : Symbol → Bool
  | .named kind => kind.isClassified
  | _ => true

/-- Whether a symbol is that of a literal that is taken apart wherever it is read. -/
def Symbol.isLiteral (symbol : Symbol) : Bool := symbol ∈ [.named .string, .named .regex]

/-- Whether the stretches of a tree cover its leaves, the literals in damage apart. -/
structure Coverage (t : Tree) : Prop where
  covered : ∀ id ∈ t.visibleLeaves, id ≠ 0 →
    ((∃ h ∈ t.highlights, h.span.contains (t.node id).span) ↔ (t.node id).symbol.isLiteral = false)
  /-- A literal is a leaf only where it was skipped. -/
  skipped : ∀ id ∈ t.visibleLeaves, id ≠ 0 → (t.node id).symbol.isLiteral →
    t.parentKind? id = some .error

/-! ### Symbols with a class -/

theorem isSome_namedCapture? (t : Tree) (id : Nat) (kind : NodeKind) :
    (t.namedCapture? id kind).isSome = kind.isClassified := by
  cases kind <;> rfl

theorem isSome_capture? {t : Tree} {id : Nat} (h : t.parentKind? id ≠ some .primitiveType) :
    (t.capture? id).isSome = (t.node id).symbol.isClassified := by
  rw [Tree.capture?, if_neg h]
  cases (t.node id).symbol with
  | named kind => exact isSome_namedCapture? t id kind
  | _ => rfl

theorem isSome_capture?_of_classified {t : Tree} {id : Nat}
    (h : (t.node id).symbol.isClassified = true) : (t.capture? id).isSome = true := by
  by_cases hparent : t.parentKind? id = some .primitiveType
  · rw [Tree.capture?, if_pos hparent]
    rfl
  · rw [isSome_capture? hparent, h]

/-- Whether children may do without an item. -/
def Item.isOptional : Item → Bool
  | .one _ => false
  | .optional _ | .many _ => true

theorem Matches.isOptional {row : List Item} {nodes : List Node} (h : Matches row nodes)
    (hnone : nodes = []) : row.all Item.isOptional = true := by
  induction h with
  | nil => rfl
  | one | present => cases hnone
  | absent _ ih => exact ih hnone
  | many _ _ ih => exact ih (List.append_eq_nil_iff.mp hnone).2

/-- What can be a leaf in its place has a class, or is damage. -/
theorem classified_rows (kind : NodeKind) : ∀ item ∈ kind.row, ∀ role ∈ item.roles,
    role.2.row.all Item.isOptional = true → role.2 = .named .error ∨
      role.2.isClassified = true ∧ role.2.isLiteral = false := by
  cases kind <;> decide +kernel

/-- Of the tokens that were skipped, all have a class but the literals. -/
theorem Parsing.IsSkipped.isClassified {symbol : Symbol} (h : IsSkipped symbol) :
    symbol.isClassified = !symbol.isLiteral := by
  obtain ⟨kind, hreal, rfl⟩ := h
  cases kind <;> first | rfl | exact absurd rfl hreal

theorem commentNode_classified (c : Comment) :
    (commentNode c).symbol.isClassified = true ∧ (commentNode c).symbol.isLiteral = false := by
  rw [commentNode]
  cases c.kind <;> exact ⟨rfl, rfl⟩

/-! ### Leaves and stretches -/

section Stretches
variable {t : Tree} {found : List Highlight} {id : Nat}

/-- A leaf without a class is in no stretch: there are other leaves wherever there is one. -/
theorem Canonical.uncovered (h : Canonical t found)
    (hordered : t.visibleLeaves.Pairwise fun a b => Precedes (t.node a) (t.node b))
    (hid : id ∈ t.visibleLeaves) (hnone : t.capture? id = none) :
    ∀ h ∈ found, h.span.contains (t.node id).span = false := by
  intro stretch hstretch
  rw [Bool.eq_false_iff]
  intro hcontains
  obtain ⟨hstart, hstop⟩ := Span.contains_iff.mp hcontains
  have hproper := (Tree.proper_of_visible hid).1
  obtain ⟨leaves, hleaves, hrun⟩ := h.runs stretch hstretch
  obtain ⟨n, hn, hfrom, hto⟩ := hrun.tiles.exists_covers hstart (hproper.trans_le hstop)
  obtain ⟨other, hother, rfl⟩ := List.mem_map.mp hn
  have hne : other ≠ id := by
    rintro rfl
    rw [hrun.capture other hother] at hnone
    cases hnone
  have hapart : Precedes (t.node other) (t.node id) ∨ Precedes (t.node id) (t.node other) := by
    obtain ⟨before, after, hsplit⟩ := List.append_of_mem hid
    have hmem := hleaves.subset hother
    rw [hsplit, List.pairwise_append, List.pairwise_cons] at hordered
    rw [hsplit, List.mem_append, List.mem_cons] at hmem
    rcases hmem with hbefore | hsame | hafter
    · exact .inl (hordered.2.2 other hbefore id List.mem_cons_self)
    · exact absurd hsame hne
    · exact .inr (hordered.2.1.1 other hafter)
  have := (Tree.proper_of_visible (hleaves.subset hother)).1
  unfold Precedes at hapart
  omega

end Stretches

/-! ### Parses -/

section Dressed
variable {source : String} {maxDepth : Nat} {problems : List Problem}

/-- Damage is no leaf: it holds the tokens that were skipped. -/
theorem Sits.ne_error_of_leaf {id : Nat} {parent : Option Nat} {n : Node}
    (h : Sits (dressedRoot source maxDepth) id parent n) (hleaf : n.children = []) :
    n.symbol ≠ .named .error := by
  intro herror
  obtain ⟨p, m, hlt, hm, hchildren, _⟩ := h.skipped herror
  have hlength := congrArg List.length hchildren
  simp only [hleaf, List.filter_nil, List.length_nil, List.length_map, Array.length_toList,
    Array.size_extract] at hlength
  omega

/-- A leaf of a tree has a class, or it is a literal that was skipped. -/
theorem Sits.classified {id : Nat} {parent : Option Nat} {n : Node}
    (h : Sits (dressedRoot source maxDepth) id parent n) (hid : id ≠ 0) (hleaf : n.children = []) :
    n.symbol.isClassified = !n.symbol.isLiteral ∧ (n.symbol.isLiteral = true →
      ∃ above grand m, parent = some above ∧ Sits (dressedRoot source maxDepth) above grand m ∧
        m.symbol = .named .error) := by
  rcases dressed_cases (h.mem_below hid) with ⟨c, _, rfl⟩ | ⟨hplain, _⟩
  · obtain ⟨hclass, hliteral⟩ := commentNode_classified c
    exact ⟨by rw [hclass, hliteral]; rfl, fun h => by rw [hliteral] at h; cases h⟩
  obtain ⟨above, grand, m, before, after, rfl, hm, hchildren, rfl⟩ := h.parent_of_ne_zero hid
  have hmem : n ∈ m.children := by simp [hchildren]
  obtain ⟨hlawful, hstrip⟩ := hm.strip_child hmem hplain
  have hsymbol (n : Node) : n.strip.symbol = n.symbol := by rw [Node.strip_eq]
  by_cases herror : m.symbol = .named .error
  · obtain ⟨-, hskipped, -⟩ := hlawful.leaves ((hsymbol m).trans herror) _ hstrip
    rw [hsymbol] at hskipped
    exact ⟨hskipped.isClassified, fun _ => ⟨above, grand, m, rfl, hm, herror⟩⟩
  · -- The row of the parent has room for the leaf.
    have hsound : m.strip.symbol ≠ .named .error := by rwa [hsymbol]
    obtain ⟨kind, -, item, hitem, hrole⟩ := hlawful.role_mem hsound hstrip
    have hrow : n.symbol.row.all Item.isOptional = true := by
      have hmatches := (hlawful.child hsound _ hstrip).row
        (by rw [hsymbol]; exact h.ne_error_of_leaf hleaf)
      rw [hsymbol] at hmatches
      exact hmatches.isOptional (by rw [Node.strip_eq, hleaf]; rfl)
    have hrow' : n.strip.role.2.row.all Item.isOptional = true := by rwa [Node.role, hsymbol]
    rcases classified_rows kind item hitem _ hrole hrow' with hdamage | ⟨hclass, hliteral⟩
    · exact absurd ((hsymbol n).symm.trans hdamage) (h.ne_error_of_leaf hleaf)
    · rw [Node.role, hsymbol] at hclass hliteral
      exact ⟨by rw [hclass, hliteral]; rfl, fun h => by rw [hliteral] at h; cases h⟩

/-- A literal that was skipped has no class. -/
theorem capture?_of_skipped {t : Tree} {id : Nat} (hparent : t.parentKind? id = some .error)
    (hclass : (t.node id).symbol.isClassified = false) : t.capture? id = none := by
  rw [← Option.not_isSome_iff_eq_none, isSome_capture? (by rw [hparent]; nofun), hclass]
  exact Bool.false_ne_true

theorem dressed_coverage (source : String) (maxDepth : Nat) (problems : List Problem) :
    Coverage (.ofRoot source (dressedRoot source maxDepth) problems) := by
  generalize ht : Tree.ofRoot source (dressedRoot source maxDepth) problems = t
  have hcanonical : Canonical t t.highlights.toList := ht ▸ (dressedRoot_fitting ..).canonical
  have hordered : t.visibleLeaves.Pairwise fun a b => Precedes (t.node a) (t.node b) :=
    ht ▸ visibleLeaves_pairwise (dressedRoot_fitting ..)
  have hclass : ∀ id ∈ t.visibleLeaves, id ≠ 0 →
      (t.node id).symbol.isClassified = !(t.node id).symbol.isLiteral ∧
        ((t.node id).symbol.isLiteral = true → t.parentKind? id = some .error) := by
    intro id hid hne
    subst ht
    obtain ⟨hlt, hvisible⟩ := List.mem_filter.mp hid
    rw [List.mem_range, nodeCount_ofRoot] at hlt
    obtain ⟨parent, n, hn⟩ := Sits.exists_of_lt hlt
    rw [hn.isEmpty_children] at hvisible
    obtain ⟨hclass, hskipped⟩ := hn.classified hne (by simp_all)
    rw [hn.node_eq]
    refine ⟨hclass, fun hliteral => ?_⟩
    obtain ⟨above, grand, m, rfl, hm, herror⟩ := hskipped hliteral
    rw [Tree.parentKind?, hn.parent_eq, Option.bind_some, hm.node_eq, Node.kind?, herror]
    rfl
  refine ⟨fun id hid hne => ?_, fun id hid hne => (hclass id hid hne).2⟩
  obtain ⟨hclassified, hskipped⟩ := hclass id hid hne
  cases hliteral : (t.node id).symbol.isLiteral with
  | false =>
    rw [hliteral] at hclassified
    obtain ⟨capture, hcapture⟩ :=
      Option.isSome_iff_exists.mp (isSome_capture?_of_classified hclassified)
    obtain ⟨h, hfilter, -⟩ := hcanonical.covered id hid capture hcapture
    have hmem : h ∈ t.highlights.toList.filter (·.span.contains (t.node id).span) :=
      hfilter ▸ List.mem_singleton_self h
    obtain ⟨hin, hcontains⟩ := List.mem_filter.mp hmem
    exact iff_of_true ⟨h, Array.mem_toList_iff.mp hin, hcontains⟩ rfl
  | true =>
    rw [hliteral] at hclassified
    have hnone := capture?_of_skipped (hskipped hliteral) hclassified
    refine iff_of_false ?_ Bool.noConfusion
    rintro ⟨h, hin, hcontains⟩
    rw [hcanonical.uncovered hordered hid hnone h (Array.mem_toList_iff.mpr hin)] at hcontains
    cases hcontains

end Dressed

/-- **Every leaf is in a stretch**, but for the strings and regular expressions that were skipped. -/
theorem parse_coverage (source : String) (options : ParseOptions) :
    Coverage (parse source options) := by
  rcases parse_cases source options with h | ⟨problems, h⟩
  · rw [h]
    exact dressed_coverage ..
  · -- A source that was refused has a root and nothing else.
    have honly : ∀ id ∈ (parse source options).visibleLeaves, id = 0 := by
      intro id hid
      rw [h] at hid
      have hlt := List.mem_range.mp (List.mem_filter.mp hid).1
      rw [nodeCount_ofRoot] at hlt
      exact Nat.lt_one_iff.mp hlt
    exact ⟨fun id hid hne => absurd (honly id hid) hne, fun id hid hne => absurd (honly id hid) hne⟩

/-- A string that is no statement is in no stretch. -/
theorem parse_uncovered_string : 2 ∈ (parse "\"s\";").visibleLeaves ∧
    ¬∃ h ∈ (parse "\"s\";").highlights,
      h.span.contains ((parse "\"s\";").node 2).span := by
  decide +kernel

end ScriptTree
