import Mathlib
import ScriptTree.Proofs.Parsing.Comments
import ScriptTree.Proofs.Parsing.Conformance
import ScriptTree.Proofs.Tree.Walking

/-! The nodes that a parse leaves behind.

An attempt that fails and a primary expression that turns out to be assigned to are read before it is
known what they are. `parse_compact` says that nothing stays of them. All nodes are made in an arena; what
an attempt that failed had made there is cut off, and what can be reached from the root gets the numbers of
its preorder (`Building.Arena.Numbers`). All the rest are the primary expressions whose content was taken
out. So a damaged statement holds the tokens that were skipped and none of the nodes that had been made of
them, no token has been made into two nodes, and what is assigned to stands there without a primary
expression around it. -/
namespace ScriptTree

open Parsing

/-- Whether a child with a field of a node of a kind is assigned to. -/
def isAssignedTo : NodeKind → Option Field → Bool
  | .pattern, _ | .restPattern, _ => true
  | .assignmentExpression, field | .augmentedAssignmentExpression, field => field == some .left
  | _, _ => false

/-- Whether the nodes of a tree are those of the arena of a source that can be reached from the root, and
none is left there but primary expressions whose content was taken out. -/
def MadeOf (source : String) (options : ParseOptions) (t : Tree) : Prop :=
  ∃ a order, arena? source options = some a ∧ a.Numbers order t ∧
    ∀ place < a.made.size, place ∉ order → Building.IsWrapper a.made place

/-- Whether a tree has the nodes that are made of a source, numbered in preorder, and no others. -/
structure Compact (source : String) (options : ParseOptions) (t : Tree) : Prop where
  numbered : t.Numbered
  made : MadeOf source options t
  /-- Of two nodes, one is above the other or ends before the other starts. -/
  apart : ∀ a < t.nodeCount, ∀ b < t.nodeCount, t.IsAbove a b ∨ t.IsAbove b a ∨
    Precedes (t.node a) (t.node b) ∨ Precedes (t.node b) (t.node a)
  /-- Damage is over the tokens that were skipped, one leaf each. -/
  skipped : ∀ id < t.nodeCount, (t.node id).symbol = .named .error → ∃ p m, p < m ∧
    m ≤ (lex source).tokens.size ∧
    t.plainChildren id = ((lex source).tokens.extract p m).toList.map skippedLeaf
  /-- What is assigned to is not wrapped. -/
  unwrapped : ∀ id < t.nodeCount, ∀ child ∈ t.children id, ∀ kind,
    (t.node id).symbol = .named kind → isAssignedTo kind (t.node child).field = true →
      (t.node child).symbol ≠ .named .primaryExpression

/-- No row has room for a wrapped expression where something is assigned to. -/
theorem assigned_rows (kind : NodeKind) : ∀ item ∈ kind.row, ∀ role ∈ item.roles,
    isAssignedTo kind role.1 = true → role.2 ≠ .named .primaryExpression := by
  cases kind <;> decide +kernel

theorem Lawful.unwrapped {n c : Node} (h : Lawful n) (hc : c ∈ n.children) {kind : NodeKind}
    (hkind : n.symbol = .named kind) (hassigned : isAssignedTo kind c.field = true) :
    c.symbol ≠ .named .primaryExpression := by
  have hsound : n.symbol ≠ .named .error := by
    intro herror
    obtain rfl := Symbol.named.inj (hkind.symm.trans herror)
    cases hassigned
  obtain ⟨other, hother, item, hitem, hrole⟩ := h.role_mem hsound hc
  obtain rfl := Symbol.named.inj (hkind.symm.trans hother)
  exact assigned_rows kind item hitem _ hrole hassigned

namespace Parsing
variable {tokens : Array Token}

/-- Whether a node that is damage is over tokens that were skipped, one leaf each, for a problem that
explains it. -/
def SkipsTokens (tokens : Array Token) (n : Node) : Prop :=
  n.symbol = .named .error → ∃ p m, p < m ∧ m < tokens.size ∧
    n.children = (tokens.extract p m).toList.map skippedLeaf ∧ ∃ problem, Explains tokens p m problem

/-- The parts of a string or regular expression are no damage. -/
theorem literal_sound (hs : IsStream tokens) {i : Nat} {n : Node}
    (made : literalNode? (tokenAt tokens i) = some n) :
    n.symbol ≠ .named .error ∧ ∀ c ∈ n.children, c.symbol ≠ .named .error := by
  obtain ⟨kind, hkind, hsymbol⟩ := literal_kind made
  rw [hsymbol]
  refine ⟨?_, fun c hc => ?_⟩
  · rintro ⟨⟩
    exact absurd hkind (by decide)
  · obtain ⟨item, hitem, hrole⟩ := (hs.matched i n made).role_mem c hc
    rw [hsymbol] at hitem
    exact (literal_parts kind hkind item hitem _ hrole).1

theorem Forest.skipsTokens (hs : IsStream tokens) {p q : Nat} {ps : List Problem} {ns : List Node}
    (h : Forest tokens p q ps ns) : ∀ n ∈ Node.preorderAll ns, SkipsTokens tokens n := by
  induction h with
  | nil => nofun
  | token _ reads _ ih =>
    intro n hn
    rcases Node.mem_preorderAll_cons.mp hn with rfl | hn | hn
    · exact fun herror => absurd herror (row_of_readsAs reads).2
    · cases hn
    · exact ih n hn
  | signed _ _ _ _ _ _ ih | absent _ _ _ ih =>
    intro n hn
    rcases Node.mem_preorderAll_cons.mp hn with rfl | hn | hn
    · exact nofun
    · cases hn
    · exact ih n hn
  | literal _ made _ ih =>
    obtain ⟨hsound, hparts⟩ := literal_sound hs made
    intro n hn
    rcases Node.mem_preorderAll_cons.mp hn with rfl | hn | hn
    · exact fun herror => absurd herror hsound
    · rw [Node.mem_preorderAll_leaves fun c hc => (literal_leaves made c hc).1] at hn
      exact fun herror => absurd herror (hparts n hn)
    · exact ih n hn
  | inner _ _ row nonempty _ _ ihc ih =>
    intro n hn
    rcases Node.mem_preorderAll_cons.mp hn with rfl | hn | hn
    · intro herror
      obtain rfl := Symbol.named.inj herror
      cases row
      exact absurd rfl nonempty
    · exact ihc n hn
    · exact ih n hn
  | @damage p m q _ problem _ _ _ lt real explains _ ih =>
    have hm := hs.succ_lt_of_real (real (m - 1) (by omega) (by omega))
    intro n hn
    rcases Node.mem_preorderAll_cons.mp hn with rfl | hn | hn
    · exact fun _ => ⟨p, m, lt, by omega, rfl, problem, explains⟩
    · rw [Node.mem_preorderAll_leaves fun c hc => ?_] at hn
      · obtain ⟨token, htoken, rfl⟩ := List.mem_map.mp hn
        obtain ⟨i, hpi, him, rfl⟩ := mem_extract htoken
        exact fun herror => absurd herror (IsSkipped.ne_error ⟨_, real i hpi him, rfl⟩)
      · obtain ⟨token, _, rfl⟩ := List.mem_map.mp hc
        rfl
    · exact ih n hn

end Parsing

section Tree
variable {source : String} {maxDepth : Nat} {options : ParseOptions} {problems : List Problem}

theorem Sits.child_below {root n c : Node} {id : Nat} {parent : Option Nat}
    (h : Sits root id parent n) (hc : c ∈ n.children) : c ∈ Node.preorderAll root.children := by
  obtain ⟨before, after, hsplit⟩ := List.append_of_mem hc
  exact (h.child hsplit).mem_below (by omega)

/-- Below damage there are comments and the tokens that were skipped. -/
theorem Sits.skipped {id : Nat} {parent : Option Nat} {n : Node}
    (h : Sits (dressedRoot source maxDepth) id parent n) (herror : n.symbol = .named .error) :
    ∃ p m, p < m ∧ m < (lex source).tokens.size ∧
      n.children.filter (!·.extra) = ((lex source).tokens.extract p m).toList.map skippedLeaf ∧
      ∃ problem, Explains (lex source).tokens p m problem := by
  have hne : id ≠ 0 := by
    rintro rfl
    obtain ⟨_, hsame⟩ := (dressedRoot_dressed source maxDepth).same
    rw [h.eq_root, hsame] at herror
    cases herror
  have hbelow := h.mem_below hne
  rcases dressed_cases hbelow with ⟨comment, _, rfl⟩ | ⟨_, hbare⟩
  · exact absurd herror (commentNode_symbol comment)
  · obtain ⟨p, m, hlt, hm, hchildren, hexplains⟩ := (bareRoot_forest source maxDepth).1.skipsTokens
      (lex_isStream source) _ hbare (by rw [Node.strip_eq, herror])
    refine ⟨p, m, hlt, hm, ?_, hexplains⟩
    rw [Node.strip_eq, Node.stripAll_eq] at hchildren
    rw [← hchildren]
    -- The skipped tokens are leaves, so they are the same without comments.
    refine (List.map_id _).symm.trans (List.map_congr_left fun c hc => ?_)
    have hmem : c.strip ∈ ((lex source).tokens.extract p m).toList.map skippedLeaf :=
      hchildren ▸ List.mem_map_of_mem hc
    obtain ⟨token, _, htoken⟩ := List.mem_map.mp hmem
    have hleaf := (dressed_framed (h.child_below (List.mem_of_mem_filter hc))).children_of_strip
      (by rw [← htoken]; rfl)
    rw [Node.strip_eq, hleaf, Node.stripAll]
    cases c
    cases hleaf
    rfl

/-- Nothing that is assigned to is wrapped. -/
theorem Sits.unwrapped {id : Nat} {parent : Option Nat} {n c : Node} {kind : NodeKind}
    (h : Sits (dressedRoot source maxDepth) id parent n) (hc : c ∈ n.children)
    (hkind : n.symbol = .named kind) (hassigned : isAssignedTo kind c.field = true) :
    c.symbol ≠ .named .primaryExpression := by
  cases hextra : c.extra with
  | false =>
    obtain ⟨hlawful, hstrip⟩ := h.strip_child hc hextra
    have := hlawful.unwrapped hstrip (by rw [Node.strip_eq, hkind])
      (by rw [Node.strip_eq c, hassigned])
    rwa [Node.strip_eq] at this
  | true =>
    rcases dressed_cases (h.child_below hc) with ⟨comment, _, rfl⟩ | ⟨hplain, _⟩
    · rw [commentNode]
      cases comment.kind <;> simp [Node.comment]
    · rw [hextra] at hplain
      cases hplain

theorem dressed_compact
    (h : MadeOf source options (.ofRoot source (dressedRoot source maxDepth) problems)) :
    Compact source options (.ofRoot source (dressedRoot source maxDepth) problems) := by
  have hgeometry : Geometry source (.ofRoot source (dressedRoot source maxDepth) problems) :=
    (dressedRoot_fitting source maxDepth).geometry
  refine ⟨ofRoot_numbered .., h, fun a ha b hb => above_or_apart rfl hgeometry ha hb,
    fun id hid herror => ?_, fun id hid child hchild kind hkind hassigned => ?_⟩
  all_goals
    rw [nodeCount_ofRoot] at hid
    obtain ⟨parent, n, hn⟩ := Sits.exists_of_lt hid
  · rw [hn.node_eq] at herror
    rw [Tree.plainChildren, hn.map_children]
    obtain ⟨p, m, hlt, hm, hchildren, _⟩ := hn.skipped herror
    exact ⟨p, m, hlt, hm.le, hchildren⟩
  · obtain ⟨c, hc, hsits⟩ := hn.of_mem_children hchild
    rw [hsits.node_eq] at hassigned ⊢
    rw [hn.node_eq] at hkind
    exact hn.unwrapped hc hkind hassigned

theorem refused_compact
    (h : MadeOf source options (.ofRoot source (rootNode source.utf8ByteSize []) problems)) :
    Compact source options (.ofRoot source (rootNode source.utf8ByteSize []) problems) := by
  have hroot : Sits (rootNode source.utf8ByteSize []) 0 none _ := .root
  have hzero : ∀ id < (Tree.ofRoot source (rootNode source.utf8ByteSize []) problems).nodeCount,
      id = 0 := by
    intro id hid
    rw [nodeCount_ofRoot] at hid
    exact Nat.lt_one_iff.mp hid
  refine ⟨ofRoot_numbered .., h, fun a ha b hb => ?_, fun id hid herror => ?_,
    fun id hid child hchild => ?_⟩
  · obtain rfl := hzero a ha
    obtain rfl := hzero b hb
    exact .inl .refl
  · obtain rfl := hzero id hid
    rw [hroot.node_eq] at herror
    cases herror
  · obtain rfl := hzero id hid
    rw [hroot.children_eq] at hchild
    cases List.mem_toArray.mp hchild

end Tree

/-- The nodes of every parse are those of the arena that is made of the source. -/
theorem parse_madeOf (source : String) (options : ParseOptions) :
    MadeOf source options (parse source options) := by
  obtain ⟨a, n, order, harena, hholds, hparse⟩ := parse_arena source options
  rw [hparse]
  exact ⟨a, order, harena, hholds.numbers source,
    fun place hplace hmem => (hholds.left place hplace).resolve_left hmem⟩

/-- Every parse gives a tree that is numbered in preorder and has no nodes left over. -/
theorem parse_compact (source : String) (options : ParseOptions) :
    Compact source options (parse source options) := by
  have hmade := parse_madeOf source options
  rcases parse_cases source options with h | ⟨problems, h⟩
  · rw [h] at hmade ⊢
    exact dressed_compact hmade
  · rw [h] at hmade ⊢
    exact refused_compact hmade

end ScriptTree
