import Mathlib
import ScriptTree.Proofs.Parsing.Outcome

/-! Precedence and grouping in trees.

The forest of a source says of the children of every expression with an operator that they fit it
(`Orderly.fits`, which `Lawful.fits` passes on). Here this is read off the tree: its comments stand
between the operands and have no field, so looking for a child by its field finds the operand
(`Sits.childWithField_eq`). -/
namespace ScriptTree

open Parsing

namespace Tree

def kind? (t : Tree) (id : Nat) : Option NodeKind := (t.node id).kind?

/-- Whether a node is in the subtree of another. -/
def Below (t : Tree) : Nat → Nat → Prop :=
  Relation.ReflTransGen fun id child => child ∈ t.children id

/-- The operator of an expression that has one. -/
def operator? (t : Tree) (id : Nat) : Option Operator :=
  (t.childWithField? id .operator).bind fun sign => (t.node sign).symbol.operator?

/-- Precedence and grouping of the operator of a binary expression. -/
def binding? (t : Tree) (id : Nat) : Option (Nat × Associativity) :=
  (t.operator? id).bind Operator.binding?

/-- Whether the left operand of a binary expression is a private name. -/
def namesPrivate (t : Tree) (id : Nat) : Bool :=
  (t.childWithField? id .left).any fun left => t.kind? left = some .privatePropertyIdentifier

/-- Whether an operand, if it is a binary expression, binds in a certain way. -/
def Binds (t : Tree) (id : Nat) (p : Nat × Associativity → Prop) : Prop :=
  t.kind? id = some .binaryExpression → ∃ binding, t.binding? id = some binding ∧ p binding

end Tree

/-- Whether the operands in a tree fit their operators. -/
structure Grouping (t : Tree) : Prop where
  /-- Both operands of a binary expression fit its operator, unless an assignment inside ends a
  chain early. On the right the test for a private member may follow any operator. -/
  binary : ∀ id < t.nodeCount, t.kind? id = some .binaryExpression →
    (∀ below, t.Below id below → t.kind? below ≠ some .assignmentExpression) →
      ∃ own left right, t.binding? id = some own ∧ t.childWithField? id .left = some left ∧
        t.childWithField? id .right = some right ∧ t.Binds left (LeftFits own) ∧
        (t.namesPrivate right = false → t.Binds right (RightFits own))
  /-- A unary operator does not reach over a binary one, but for the test for a private member. -/
  unary : ∀ id < t.nodeCount, t.kind? id = some .unaryExpression →
    ∃ argument, t.childWithField? id .argument = some argument ∧
      (t.kind? argument = some .binaryExpression →
        t.namesPrivate argument = true ∧ t.operator? argument = some .membership)

section Tree
variable {source : String} {maxDepth : Nat} {problems : List Problem} {root : Node}
  {id : Nat} {parent : Option Nat} {n : Node}

/-! ### Children by field -/

theorem kind?_strip (n : Node) : n.strip.kind? = n.kind? := by
  rw [Node.strip_eq]
  rfl

theorem mem_children_of_field {t : Tree} {field : Field} {child : Nat}
    (h : t.childWithField? id field = some child) : child ∈ t.children id :=
  Array.mem_of_mem_filter (Array.mem_of_getElem? h)

theorem Sits.childWithField_eq (h : Sits root id parent n) (source : String)
    (problems : List Problem) (field : Field) :
    ((Tree.ofRoot source root problems).childWithField? id field).map
      (Tree.ofRoot source root problems).node = n.childAt? field := by
  have hchildren : ((Tree.ofRoot source root problems).children id).toList.map
      (Tree.ofRoot source root problems).node = n.children := h.map_children
  rw [Node.childAt?, ← hchildren, List.find?_map, Tree.childWithField?, Tree.childrenWithField,
    ← Array.getElem?_toList, Array.toList_filter, ← List.head?_eq_getElem?, List.head?_filter]
  rfl

theorem Sits.exists_childWithField (h : Sits root id parent n) {field : Field} {c : Node}
    (hc : n.childAt? field = some c) : ∃ child,
      (Tree.ofRoot source root problems).childWithField? id field = some child ∧
        Sits root child (some id) c := by
  rw [← h.childWithField_eq source problems] at hc
  obtain ⟨child, hchild, hnode⟩ := Option.map_eq_some_iff.mp hc
  refine ⟨child, hchild, ?_⟩
  obtain ⟨c', _, hsits⟩ := h.of_mem_children (mem_children_of_field hchild)
  rwa [← hnode, hsits.node_eq]

theorem strip_childAt? (hextra : ∀ c ∈ n.children, c.extra = true → c.field = none)
    (field : Field) : n.strip.childAt? field = (n.childAt? field).map Node.strip := by
  have hfield : (fun c : Node => c.field == some field) ∘ Node.strip =
      fun c => c.field == some field := by
    funext c
    rw [Function.comp_apply, Node.strip_eq]
  rw [Node.childAt?, Node.childAt?, Node.strip_eq, Node.stripAll_eq, List.find?_map, hfield,
    List.find?_filter]
  congr 1
  refine List.find?_congr fun c hc => ?_
  cases hc' : c.extra with
  | false => simp [Bool.beq_eq_decide_eq]
  | true => simp [hextra c hc hc']

/-! ### Subtrees -/

theorem Sits.exists_below (h : Sits root id parent n) {m : Node} (hm : m ∈ n.preorder) :
    ∃ below above, Sits root below above m ∧
      (Tree.ofRoot source root problems).Below id below := by
  rw [Node.preorder_eq] at hm
  rcases List.mem_cons.mp hm with rfl | hm
  · exact ⟨id, parent, h, .refl⟩
  -- Below the children behind those in `before`, by induction on the children left.
  suffices hall : ∀ (nodes before : List Node) (id : Nat) (parent : Option Nat) (n : Node),
      Sits root id parent n → n.children = before ++ nodes → m ∈ Node.preorderAll nodes →
        ∃ below above, Sits root below above m ∧
          (Tree.ofRoot source root problems).Below id below from
    hall n.children [] id parent n h rfl hm
  intro nodes
  induction nodes using Node.forest_induction with
  | nil => nofun
  | cons c nodes ihc ih =>
    intro before id parent n h hchildren hm
    have hc := h.child hchildren
    have hlisted : id + 1 + Node.countAll before ∈
        (Tree.ofRoot source root problems).children id := h.mem_children hchildren
    rcases Node.mem_preorderAll_cons.mp hm with rfl | hm | hm
    · exact ⟨_, _, hc, .single hlisted⟩
    · obtain ⟨below, above, hsits, hbelow⟩ := ihc [] _ _ c hc rfl hm
      exact ⟨below, above, hsits, .head hlisted hbelow⟩
    · exact ih (before ++ [c]) id parent n h (by simp [hchildren]) hm

/-! ### Trees of sources -/

variable (h : Sits (dressedRoot source maxDepth) id parent n)
include h

/-- Comments have no field. -/
theorem Sits.field_of_extra : ∀ c ∈ n.children, c.extra = true → c.field = none := by
  intro c hc hextra
  obtain ⟨before, after, hchildren⟩ := List.append_of_mem hc
  rcases dressed_cases ((h.child hchildren).mem_below (by omega)) with
    ⟨comment, _, rfl⟩ | ⟨hplain, _⟩
  · rw [commentNode]
    cases comment.kind <;> rfl
  · rw [hextra] at hplain
    cases hplain

theorem Sits.operator_eq :
    (Tree.ofRoot source (dressedRoot source maxDepth) problems).operator? id =
      n.strip.operator? := by
  rw [Node.operator?, strip_childAt? h.field_of_extra,
    ← h.childWithField_eq source problems, Tree.operator?]
  simp [Option.bind_map, Function.comp_def, Node.strip_eq]

theorem Sits.namesPrivate_eq :
    (Tree.ofRoot source (dressedRoot source maxDepth) problems).namesPrivate id =
      n.strip.namesPrivate := by
  rw [Node.namesPrivate, strip_childAt? h.field_of_extra,
    ← h.childWithField_eq source problems, Tree.namesPrivate]
  simp only [Option.any_map, kind?_strip]
  rfl

theorem Sits.kind_eq : (Tree.ofRoot source (dressedRoot source maxDepth) problems).kind? id =
    n.strip.kind? := by
  rw [Tree.kind?, h.node_eq, kind?_strip]

theorem Sits.binds {p : Nat × Associativity → Prop} (hbinds : n.strip.Binds p) :
    (Tree.ofRoot source (dressedRoot source maxDepth) problems).Binds id p := by
  intro hkind
  rw [h.kind_eq] at hkind
  rw [Tree.binding?, h.operator_eq]
  exact hbinds hkind

/-- An operand of a node without its comments is an operand of the node. -/
theorem Sits.exists_operand (problems : List Problem) (field : Field) {c : Node}
    (hc : n.strip.childAt? field = some c) :
    ∃ child m,
      (Tree.ofRoot source (dressedRoot source maxDepth) problems).childWithField? id field =
        some child ∧ Sits (dressedRoot source maxDepth) child (some id) m ∧ m.strip = c := by
  rw [strip_childAt? h.field_of_extra] at hc
  obtain ⟨m, hm, rfl⟩ := Option.map_eq_some_iff.mp hc
  obtain ⟨child, hchild, hsits⟩ := h.exists_childWithField hm
  exact ⟨child, m, hchild, hsits, rfl⟩

/-- What assigns without its comments has an assignment in its subtree. -/
theorem Sits.exists_assignment (hassigns : n.strip.Assigns) :
    ∃ below, (Tree.ofRoot source (dressedRoot source maxDepth) problems).Below id below ∧
      (Tree.ofRoot source (dressedRoot source maxDepth) problems).kind? below =
        some .assignmentExpression := by
  obtain ⟨m, hm, hkind⟩ := hassigns
  have hbelow : ∃ m' ∈ n.preorder, m'.strip = m := by
    rw [Node.preorder_eq] at hm
    rw [Node.preorder_eq]
    rcases List.mem_cons.mp hm with rfl | hm
    · exact ⟨n, List.mem_cons_self .., rfl⟩
    · rw [Node.strip_eq] at hm
      obtain ⟨m', hm', hstrip⟩ := Node.exists_of_mem_stripAll hm
      exact ⟨m', List.mem_cons_of_mem _ hm', hstrip⟩
  obtain ⟨m', hm', rfl⟩ := hbelow
  obtain ⟨below, above, hsits, hreach⟩ := h.exists_below hm'
  exact ⟨below, hreach, by rw [hsits.kind_eq, hkind]⟩

/-- An expression with an operator fits it. -/
theorem Sits.fits {kind : NodeKind} (hkind : n.strip.kind? = some kind)
    (hoperation : kind = .binaryExpression ∨ kind = .unaryExpression) :
    FitsOperator kind n.strip.children ∧ Matches kind.row n.strip.children := by
  rw [kind?_strip] at hkind
  have hsymbol : n.symbol = .named kind := by
    rw [Node.kind?, Symbol.kind?.eq_def] at hkind
    split at hkind <;> cases hkind
    assumption
  have hother : n.symbol ≠ .named .error := by
    rw [hsymbol]
    rcases hoperation with rfl | rfl <;> simp
  have hlawful : Lawful n.strip := by
    rcases h.lawful with hextra | hlawful | ⟨⟨_, hskipped⟩, _⟩
    · rcases Nat.eq_zero_or_pos id with rfl | hpos
      · rw [h.eq_root, strip_dressedRoot]
        exact bareRoot_lawful source maxDepth
      · rcases dressed_cases (h.mem_below hpos.ne') with ⟨c, _, rfl⟩ | ⟨hplain, _⟩
        · rw [commentNode] at hsymbol
          split at hsymbol <;> cases hsymbol <;> cases hoperation <;> contradiction
        · rw [hextra] at hplain
          cases hplain
    · exact hlawful
    · refine absurd ?_ hskipped.not_mem
      rcases hoperation with rfl | rfl <;> simp [hsymbol]
  have hstrip : n.strip.symbol = .named kind := by rwa [Node.strip_eq]
  have hrow := hlawful.row (by rwa [Node.strip_eq])
  rw [hstrip] at hrow
  refine ⟨hlawful.fits hstrip ?_, hrow⟩
  rintro rfl
  exact hother hsymbol

end Tree

/-! ### The result -/

theorem dressed_grouping (source : String) (maxDepth : Nat) (problems : List Problem) :
    Grouping (.ofRoot source (dressedRoot source maxDepth) problems) := by
  refine ⟨fun id hid hkind hfree => ?_, fun id hid hkind => ?_⟩
  all_goals
    rw [nodeCount_ofRoot] at hid
    obtain ⟨parent, n, hn⟩ := Sits.exists_of_lt hid
    rw [hn.kind_eq] at hkind
  · obtain ⟨⟨left, sign, right, own, hchildren, hown, hgrouped⟩, hrow⟩ := hn.fits hkind (.inl rfl)
    rw [hchildren] at hrow
    obtain ⟨hl, hrow⟩ := hrow.uncons
    obtain ⟨ho, hrow⟩ := hrow.uncons
    have hl := Role.field_of_mem_labelled hl
    have ho := Role.field_of_mem_labelled ho
    have hr := Role.field_of_mem_labelled hrow.uncons.1
    have hsign : n.strip.childAt? .operator = some sign := by
      simp [Node.childAt?, hchildren, hl, ho]
    obtain ⟨leftId, l, hleftId, hlsits, rfl⟩ := hn.exists_operand problems .left
      (c := left) (by simp [Node.childAt?, hchildren, hl])
    obtain ⟨rightId, r, hrightId, hrsits, rfl⟩ := hn.exists_operand problems .right
      (c := right) (by simp [Node.childAt?, hchildren, hl, ho, hr])
    have hnone {child : Nat} {c : Node}
        (hsits : Sits (dressedRoot source maxDepth) child (some id) c)
        (hlisted : child ∈
          (Tree.ofRoot source (dressedRoot source maxDepth) problems).children id) :
        ¬c.strip.Assigns := fun hassigns => by
      obtain ⟨below, hbelow, hassignment⟩ := hsits.exists_assignment hassigns
      exact hfree below (.head hlisted hbelow) hassignment
    have hfits := hgrouped (hnone hlsits (mem_children_of_field hleftId))
      (hnone hrsits (mem_children_of_field hrightId))
    refine ⟨own, leftId, rightId, ?_, hleftId, hrightId, hlsits.binds hfits.left,
      fun hprivate => ?_⟩
    · rw [Tree.binding?, hn.operator_eq, Node.operator?, hsign]
      exact hown
    · rw [hrsits.namesPrivate_eq] at hprivate
      exact hrsits.binds (hfits.right (by simp [Node.testsPrivate, hprivate]))
  · obtain ⟨⟨sign, argument, hchildren, htests⟩, hrow⟩ := hn.fits hkind (.inr rfl)
    rw [hchildren] at hrow
    obtain ⟨ho, hrow⟩ := hrow.uncons
    have ho := Role.field_of_mem_labelled ho
    have ha := Role.field_of_mem_labelled hrow.uncons.1
    obtain ⟨argumentId, a, hargumentId, hasits, rfl⟩ := hn.exists_operand problems .argument
      (c := argument) (by simp [Node.childAt?, hchildren, ho, ha])
    refine ⟨argumentId, hargumentId, fun hbinary => ?_⟩
    rw [hasits.kind_eq] at hbinary
    have := htests hbinary
    rw [Node.testsPrivate, Bool.and_eq_true, decide_eq_true_eq] at this
    rw [hasits.namesPrivate_eq, hasits.operator_eq]
    exact this

theorem refused_grouping (source : String) (problems : List Problem) :
    Grouping (.ofRoot source (rootNode source.utf8ByteSize []) problems) := by
  have hroot : Sits (rootNode source.utf8ByteSize []) 0 none _ := .root
  refine ⟨fun id hid hkind => ?_, fun id hid hkind => ?_⟩
  all_goals
    rw [nodeCount_ofRoot] at hid
    obtain rfl := Nat.lt_one_iff.mp hid
    rw [Tree.kind?, hroot.node_eq] at hkind
    cases hkind

/-- In every parse, operands fit their operators. -/
theorem parse_grouping (source : String) (options : ParseOptions) :
    Grouping (parse source options) := by
  rcases parse_cases source options with h | ⟨problems, h⟩
  · rw [h]
    exact dressed_grouping ..
  · rw [h]
    exact refused_grouping ..

end ScriptTree
