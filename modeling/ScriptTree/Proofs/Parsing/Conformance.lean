import Mathlib
import ScriptTree.Proofs.Grammar.Conformity
import ScriptTree.Proofs.Parsing.Outcome

/-! Trees against the exported description of node types.

The productions and the table of slots are written independently of each other. `parse_conforming`
says that they agree on every tree that a parse can give, damage included: each node that is not part
of damage holds what the slots of its kind promise (`Conforms`). -/
namespace ScriptTree

open Parsing

/-- The children of a node that are no comments. -/
def Tree.plainChildren (t : Tree) (id : Nat) : List Node :=
  ((t.children id).toList.map t.node).filter (!·.extra)

/-- Whether the nodes of a tree are what the exported description says. -/
structure Conforming (t : Tree) : Prop where
  /-- Outside damage, children fit the slots of the kind. -/
  slots : ∀ id < t.nodeCount, ∀ kind, (t.node id).symbol = .named kind → kind ≠ .error →
    (∀ p, t.parent? id = some p → (t.node p).symbol ≠ .named .error) →
      Conforms kind (undamaged (t.plainChildren id))
  /-- Tokens have no children. -/
  tokens : ∀ id < t.nodeCount, t.isNamed id = false → t.children id = #[]
  /-- Damage stands among the statements of a program or block. -/
  place : ∀ id < t.nodeCount, ∀ child ∈ t.children id, (t.node child).symbol = .named .error →
    (t.node id).symbol = .named .program ∨ (t.node id).symbol = .named .blockStatement
  /-- Damage is over leaves. -/
  leaves : ∀ id < t.nodeCount, (t.node id).symbol = .named .error → ∀ child ∈ t.children id,
    (t.node child).extra = false → t.children child = #[]

/-- Only the roles of children decide whether they match a row. -/
theorem Matches.of_map {row : List Item} {cs : List Node} {f : Node → Node}
    (hf : ∀ n, (f n).role = n.role) (h : Matches row (cs.map f)) : Matches row cs := by
  generalize hl : cs.map f = nodes at h
  induction h generalizing cs with
  | nil =>
    obtain rfl := List.map_eq_nil_iff.mp hl
    exact .nil
  | one hrole _ ih =>
    obtain ⟨c, cs, rfl, rfl, hcs⟩ := List.map_eq_cons_iff.mp hl
    exact .one (hf c ▸ hrole) (ih hcs)
  | absent _ ih => exact .absent (ih hl)
  | present hrole _ ih =>
    obtain ⟨c, cs, rfl, rfl, hcs⟩ := List.map_eq_cons_iff.mp hl
    exact .present (hf c ▸ hrole) (ih hcs)
  | many hroles _ ih =>
    obtain ⟨here, cs, rfl, rfl, hcs⟩ := List.map_eq_append_iff.mp hl
    refine .many (fun c hc => ?_) (ih hcs)
    rw [← hf c]
    exact hroles _ (List.mem_map_of_mem hc)

section Tree
variable {source : String} {maxDepth : Nat} {problems : List Problem} {t : Tree}
  {id : Nat} {parent : Option Nat} {n : Node}

theorem role_strip (n : Node) : n.strip.role = n.role := by
  rw [Node.strip_eq]
  rfl

/-- The row of a node that is lawful without its comments. -/
theorem Lawful.matches_plain (h : Lawful n.strip) (hsound : n.symbol ≠ .named .error) :
    Matches n.symbol.row (n.children.filter (!·.extra)) := by
  have hrow := h.row (by rwa [Node.strip_eq])
  rw [Node.strip_eq, Node.stripAll_eq] at hrow
  exact hrow.of_map role_strip

theorem commentNode_symbol (c : Comment) : (commentNode c).symbol ≠ .named .error := by
  rw [commentNode]
  cases c.kind <;> simp [Node.comment]

/-- A comment has no children, and its kind has no slots. -/
theorem comment_lawful {c : Comment} : Lawful (commentNode c).strip := by
  rw [commentNode]
  cases c.kind <;>
    exact .regular (by simp [Node.strip_eq, Node.comment]) (by exact .nil) (by rintro _ ⟨⟩; trivial)
      (by simp [Node.strip_eq, Node.comment, Node.stripAll])
      (by simp [Node.strip_eq, Node.comment])

theorem Sits.lawful_of_sound (h : Sits (dressedRoot source maxDepth) id parent n)
    (hparent : ∀ pid above p, parent = some pid → Sits (dressedRoot source maxDepth) pid above p →
      p.symbol ≠ .named .error) : Lawful n.strip := by
  rcases h.lawful with hextra | hlawful | ⟨_, pid, above, p, hpid, hp, herror⟩
  · rcases Nat.eq_zero_or_pos id with rfl | hpos
    · rw [h.eq_root, strip_dressedRoot]
      exact bareRoot_lawful source maxDepth
    · rcases dressed_cases (h.mem_below hpos.ne') with ⟨c, _, rfl⟩ | ⟨hplain, _⟩
      · exact comment_lawful
      · rw [hextra] at hplain
        cases hplain
  · exact hlawful
  · exact absurd herror (hparent pid above p hpid hp)

theorem Sits.children_empty (h : Sits (dressedRoot source maxDepth) id parent n)
    (hleaf : n.children = []) :
    (Tree.ofRoot source (dressedRoot source maxDepth) problems).children id = #[] := by
  rw [h.children_eq, hleaf]
  rfl

theorem Sits.token_leaf (h : Sits (dressedRoot source maxDepth) id parent n)
    (htoken : n.isNamed = false) : n.children = [] := by
  rcases h.lawful with hextra | hlawful | ⟨⟨hleaf, _⟩, _⟩
  · exact h.leaf_of_extra hextra
  · have hsymbol : n.symbol.row = [] ∧ n.symbol ≠ .named .error := by
      cases hsymbol : n.symbol with
      | named kind =>
        rw [Node.isNamed, hsymbol] at htoken
        cases htoken
      | _ => exact ⟨rfl, nofun⟩
    have hpos : id ≠ 0 := by
      rintro rfl
      obtain ⟨_, hsame⟩ := (dressedRoot_dressed source maxDepth).same
      rw [h.eq_root, hsame] at htoken
      cases htoken
    have hrow := hlawful.row (by rw [Node.strip_eq]; exact hsymbol.2)
    rw [show n.strip.symbol = n.symbol by rw [Node.strip_eq], hsymbol.1] at hrow
    refine (dressed_framed (h.mem_below hpos)).children_of_strip ?_
    generalize n.strip.children = cs at hrow
    cases hrow
    rfl
  · exact hleaf

end Tree

theorem dressed_conforming (source : String) (maxDepth : Nat) (problems : List Problem) :
    Conforming (.ofRoot source (dressedRoot source maxDepth) problems) := by
  refine ⟨fun id hid kind hkind hsound hparent => ?_, fun id hid htoken => ?_,
    fun id hid child hchild herror => ?_, fun id hid herror child hchild hplain => ?_⟩
  all_goals
    rw [nodeCount_ofRoot] at hid
    obtain ⟨parent, n, hn⟩ := Sits.exists_of_lt hid
  · rw [hn.node_eq] at hkind
    rw [hn.parent_eq] at hparent
    have hlawful : Lawful n.strip := hn.lawful_of_sound fun pid above p hpid hp => by
      have := hparent pid hpid
      rwa [hp.node_eq] at this
    have hrow := hlawful.matches_plain (by rw [hkind]; exact fun h => hsound (Symbol.named.inj h))
    rw [hkind] at hrow
    rw [Tree.plainChildren, hn.map_children]
    exact hrow.conforms
  · rw [Tree.isNamed, hn.node_eq] at htoken
    exact hn.children_empty (hn.token_leaf htoken)
  · obtain ⟨c, hc, hsits⟩ := hn.of_mem_children hchild
    rw [hsits.node_eq] at herror
    rw [hn.node_eq]
    have hplain : c.extra = false := by
      rcases dressed_cases (hsits.mem_below hsits.ne_zero) with ⟨comment, _, rfl⟩ | ⟨hplain, _⟩
      · exact absurd herror (commentNode_symbol comment)
      · exact hplain
    obtain ⟨hlawful, hstrip⟩ := hn.strip_child hc hplain
    have := hlawful.parent_of_error hstrip (by rw [Node.strip_eq, herror])
    rwa [Node.strip_eq] at this
  · obtain ⟨c, hc, hsits⟩ := hn.of_mem_children hchild
    rw [hn.node_eq] at herror
    rw [hsits.node_eq] at hplain
    obtain ⟨hlawful, hstrip⟩ := hn.strip_child hc hplain
    obtain ⟨hleaf, _⟩ := hlawful.leaves (by rw [Node.strip_eq, herror]) _ hstrip
    exact hsits.children_empty ((dressed_framed (hsits.mem_below hsits.ne_zero)).children_of_strip hleaf)

theorem refused_conforming (source : String) (problems : List Problem) :
    Conforming (.ofRoot source (rootNode source.utf8ByteSize []) problems) := by
  have hrow : Matches NodeKind.program.row [] := by
    have hnone : ∀ c ∈ ([] : List Node), c.role ∈ Role.recovered := nofun
    exact .many hnone .nil
  have hroot : Sits (rootNode source.utf8ByteSize []) 0 none _ := .root
  have hzero : ∀ id < (Tree.ofRoot source (rootNode source.utf8ByteSize []) problems).nodeCount,
      id = 0 := by
    intro id hid
    rw [nodeCount_ofRoot] at hid
    exact Nat.lt_one_iff.mp hid
  refine ⟨fun id hid kind hkind _ _ => ?_, fun id hid _ => ?_, fun id hid child hchild => ?_,
    fun id hid _ child hchild => ?_⟩
  all_goals
    obtain rfl := hzero id hid
  · rw [hroot.node_eq] at hkind
    cases hkind
    rw [Tree.plainChildren, hroot.map_children]
    exact hrow.conforms
  · exact hroot.children_eq
  · rw [hroot.children_eq] at hchild
    cases List.mem_toArray.mp hchild
  · rw [hroot.children_eq] at hchild
    cases List.mem_toArray.mp hchild

/-- Every parse gives a tree that conforms to the exported description. -/
theorem parse_conforming (source : String) (options : ParseOptions) :
    Conforming (parse source options) := by
  rcases parse_cases source options with h | ⟨problems, h⟩
  · rw [h]
    exact dressed_conforming ..
  · rw [h]
    exact refused_conforming ..

end ScriptTree
