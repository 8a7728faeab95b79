import Mathlib
import ScriptTree.Proofs.Parsing.Arena

/-! What damage may take.

Damage is over the tokens of a statement that failed and those that were skipped behind it. It ends at a
boundary, and it has closed no brace that was open in front of it: each closing brace in it closes one
that opens in it. Only where no brace can be open, among the statements of the program, may damage start
with one that closes nothing; that one does not count (`parse_confined`). -/
namespace ScriptTree

open Parsing

/-! ### Braces among leaves -/

def Node.opensBrace (n : Node) : Bool :=
  n.symbol = .punctuation .leftBrace || n.symbol = .punctuation .dollarBrace

def Node.closesBrace (n : Node) : Bool := n.symbol = .punctuation .rightBrace

/-- Whether more braces are opened than closed in front of each leaf that closes one. -/
def Guarded (leaves : List Node) : Prop :=
  ∀ front n back, leaves = front ++ n :: back → n.closesBrace = true →
    front.countP Node.closesBrace < front.countP Node.opensBrace

namespace Parsing

theorem opensBrace_skippedLeaf :
    Node.opensBrace ∘ skippedLeaf = (brace? · == some .opening) ∘ Token.kind := by
  funext ⟨kind, span⟩
  cases kind with
  | punctuation mark => cases mark <;> rfl
  | _ => rfl

theorem closesBrace_skippedLeaf :
    Node.closesBrace ∘ skippedLeaf = (brace? · == some .closing) ∘ Token.kind := by
  funext ⟨kind, span⟩
  cases kind with
  | punctuation mark => cases mark <;> rfl
  | _ => rfl

theorem closesBrace_iff {token : Token} :
    (skippedLeaf token).closesBrace = true ↔ token.kind = .punctuation .rightBrace := by
  rw [show (skippedLeaf token).closesBrace = _ from congrFun closesBrace_skippedLeaf token]
  exact beq_iff_eq.trans brace?_eq_closing

theorem count_of_depthBehind {depth depth' : Nat} {brackets : List Bracket}
    (h : depthBehind depth brackets = some depth') :
    depth' + brackets.count .closing = depth + brackets.count .opening := by
  induction brackets generalizing depth with
  | nil =>
    obtain rfl := Option.some.inj h
    rfl
  | cons bracket brackets ih =>
    match bracket, depth with
    | .opening, depth =>
      have := ih h
      simp only [List.count_cons, reduceCtorEq, beq_iff_eq, if_true, if_false]
      omega
    | .closing, 0 => cases h
    | .closing, depth + 1 =>
      rw [depthBehind] at h
      have := ih h
      simp only [List.count_cons, reduceCtorEq, beq_iff_eq, if_true, if_false]
      omega

/-- Tokens that close no brace that was open in front of them, as leaves. -/
theorem guarded_of_depthBehind {l : List Token} {depth : Nat}
    (h : depthBehind 0 ((l.map Token.kind).filterMap brace?) = some depth) :
    Guarded (l.map skippedLeaf) := by
  intro front n back hsplit hcloses
  obtain ⟨a, rest, rfl, rfl, hrest⟩ := List.map_eq_append_iff.mp hsplit
  obtain ⟨token, b, rfl, rfl, rfl⟩ := List.map_eq_cons_iff.mp hrest
  rw [List.map_append, List.filterMap_append, depthBehind_append, List.map_cons,
    List.filterMap_cons_some (brace?_eq_closing.mpr (closesBrace_iff.mp hcloses))] at h
  obtain ⟨open_, hopen, hrest⟩ := Option.bind_eq_some_iff.mp h
  have hcount := count_of_depthBehind hopen
  rw [List.count_filterMap, List.count_filterMap, List.countP_map, List.countP_map,
    ← opensBrace_skippedLeaf, ← closesBrace_skippedLeaf] at hcount
  rw [List.countP_map, List.countP_map]
  cases open_ with
  | zero => cases hrest
  | succ => omega

section Tokens
variable {tokens : Array Token} {k k' p m : Nat}

theorem Affords.guarded (h : Affords tokens 0 p k m) :
    Guarded ((tokens.extract p m).toList.map skippedLeaf) := by
  obtain ⟨_, d, hd, _⟩ := h
  exact guarded_of_depthBehind hd

/-! ### Damage -/

/-- Damage closes no brace that was open in front of it, but for one that it may start with. -/
theorem Explains.affords {problem : Problem} (h : Explains tokens p m problem) (hp : p < m)
    (hm : m < tokens.size) : Affords tokens 0 p 0 m ∨
      kindAt tokens p = .punctuation .rightBrace ∧ Affords tokens 0 (p + 1) 0 m := by
  obtain ⟨failed, hfailed, rfl⟩ := h.resumed
  by_cases hclose : kindAt tokens p = .punctuation .rightBrace
  · -- Nothing was read of the statement, and its first token is skipped.
    have hsize : failed ≤ tokens.size := le_resumeFrom.trans hm.le
    obtain rfl := hfailed.eq_of_closing hsize (brace?_eq_closing.mpr hclose)
    refine .inr ⟨hclose, ?_⟩
    have hlt : p < tokens.size := hp.trans hm
    have hkind : tokens[p].kind = .punctuation .rightBrace := kindAt_eq_getElem hlt ▸ hclose
    have hbraces : (depthBetween tokens p p).braces = 0 :=
      depthBetween_braces (by rw [bracesBetween_self]; rfl)
    rw [resumeFrom, dif_pos hlt]
    dsimp only
    rw [hkind, if_neg (by simp), if_neg (by simp [resumesAfter, TokenKind.isPunctuation])]
    refine affords_resumeFrom (Nat.le_refl _) (Nat.le_succ p) ?_ fun heq => by omega
    rw [bracesBetween_self]
    show some 0 = some (stepDepth _ (some .closing))
    rw [hbraces]
    rfl
  · obtain ⟨hle, d, hd, _⟩ := hfailed
    exact .inl (affords_resumeFrom hle hle (by rw [hd, depthBetween_braces hd])
      fun heq => heq ▸ hclose)

end Tokens

end Parsing

/-! ### The result -/

/-- Whether damage over the tokens from `p` up to `m`, a node of a tree, keeps to itself. -/
structure Confined (tokens : Array Token) (t : Tree) (id p m : Nat) : Prop where
  nonempty : p < m
  real : m < tokens.size
  leaves : t.plainChildren id = (tokens.extract p m).toList.map skippedLeaf
  boundary : Boundary tokens m
  /-- No brace is closed that was open in front; among the statements of the program none was. -/
  guarded : Guarded (t.plainChildren id) ∨ t.parent? id = some 0 ∧
    ∃ first rest, t.plainChildren id = first :: rest ∧ first.closesBrace = true ∧ Guarded rest

/-- Whether all damage in a tree keeps to itself. -/
structure Confining (tokens : Array Token) (t : Tree) : Prop where
  damage : ∀ id < t.nodeCount, (t.node id).symbol = .named .error → ∃ p m, Confined tokens t id p m

section Tree
variable {source : String} {maxDepth : Nat} {id : Nat} {parent : Option Nat} {n c : Node}

/-- No row has room for a program. -/
theorem program_rows (kind : NodeKind) : ∀ item ∈ kind.row, ∀ role ∈ item.roles,
    role.2 ≠ .named .program := by
  cases kind <;> decide +kernel

/-- Damage that is not among the statements of the program stands in a block. -/
theorem Sits.block_of_error (h : Sits (dressedRoot source maxDepth) id parent n) (hid : id ≠ 0)
    (hc : c ∈ n.children) (hplain : c.extra = false) (herror : c.symbol = .named .error) :
    n.strip.symbol = .named .blockStatement := by
  obtain ⟨hlawful, hstrip⟩ := h.strip_child hc hplain
  refine (hlawful.parent_of_error hstrip (by rw [Node.strip_eq, herror])).resolve_left
    fun hprogram => ?_
  -- A program would stand in another node, which has no room for it.
  cases h with
  | root => exact hid rfl
  | @child _ _ above before _ after habove hchildren =>
    have hextra : n.extra = false := by
      by_contra hextra
      rw [(habove.child hchildren).leaf_of_extra (by simpa using hextra)] at hc
      cases hc
    obtain ⟨hlawful', hstrip'⟩ := habove.strip_child (by simp [hchildren]) hextra
    have hsound : above.strip.symbol ≠ .named .error := fun hdamage => by
      rw [(hlawful'.leaves hdamage _ hstrip').1] at hstrip
      cases hstrip
    obtain ⟨kind, _, item, hitem, hrole⟩ := hlawful'.role_mem hsound hstrip'
    exact program_rows kind item hitem _ hrole hprogram

theorem Sits.confined (h : Sits (dressedRoot source maxDepth) id parent n)
    (herror : n.symbol = .named .error) (problems : List Problem) : ∃ p m,
      Confined (lex source).tokens (.ofRoot source (dressedRoot source maxDepth) problems) id p m := by
  obtain ⟨p, m, hlt, hm, hleaves, problem, hexplains⟩ := h.skipped herror
  have hplain : (Tree.ofRoot source (dressedRoot source maxDepth) problems).plainChildren id =
      ((lex source).tokens.extract p m).toList.map skippedLeaf := by
    rw [Tree.plainChildren, h.map_children, hleaves]
  have hboundary : Boundary (lex source).tokens m := by
    obtain ⟨failed, _, rfl⟩ := hexplains.resumed
    exact boundary_resumeFrom
  refine ⟨p, m, hlt, hm, hplain, hboundary, ?_⟩
  rw [hplain]
  rcases hexplains.affords hlt hm with haffords | ⟨hclose, haffords⟩
  · exact .inl haffords.guarded
  · have hcons := extract_eq_cons hlt hm.le
    refine .inr ⟨?_, _, _, by rw [hcons, List.map_cons], closesBrace_iff.mpr hclose,
      haffords.guarded⟩
    rw [h.parent_eq]
    cases h with
    | root =>
      obtain ⟨_, hsame⟩ := (dressedRoot_dressed source maxDepth).same
      rw [hsame] at herror
      cases herror
    | @child pid _ above before _ after habove hchildren =>
      -- In a block, the brace would have closed it.
      by_contra hpid
      have hmem : n ∈ above.children := by simp [hchildren]
      have hextra : n.extra = false := by
        rcases dressed_cases (habove.child_below hmem) with ⟨comment, _, rfl⟩ | ⟨hextra, _⟩
        · exact absurd herror (commentNode_symbol comment)
        · exact hextra
      have hblock := habove.block_of_error (by simpa using hpid) hmem hextra herror
      obtain ⟨hlawful, hstrip⟩ := habove.strip_child hmem hextra
      refine hlawful.sheltered hblock _ hstrip (by rw [Node.strip_eq, herror])
        (skippedLeaf (tokenAt (lex source).tokens p)).strip ?_ ?_
      · rw [Node.strip_eq, Node.stripAll_eq, hleaves, hcons]
        rfl
      · rw [Node.strip_eq]
        exact beq_iff_eq.mp (closesBrace_iff.mpr hclose)

end Tree

theorem dressed_confining (source : String) (maxDepth : Nat) (problems : List Problem) :
    Confining (lex source).tokens (.ofRoot source (dressedRoot source maxDepth) problems) := by
  refine ⟨fun id hid herror => ?_⟩
  rw [nodeCount_ofRoot] at hid
  obtain ⟨parent, n, hn⟩ := Sits.exists_of_lt hid
  rw [hn.node_eq] at herror
  exact hn.confined herror problems

theorem refused_confining (tokens : Array Token) (source : String) (problems : List Problem) :
    Confining tokens (.ofRoot source (rootNode source.utf8ByteSize []) problems) := by
  refine ⟨fun id hid herror => ?_⟩
  rw [nodeCount_ofRoot] at hid
  obtain rfl := Nat.lt_one_iff.mp hid
  have hroot : Sits (rootNode source.utf8ByteSize []) 0 none _ := .root
  rw [hroot.node_eq] at herror
  cases herror

/-- **Damage keeps to itself.** In every parse, damage ends at a boundary and closes no brace that was
open in front of it. -/
theorem parse_confined (source : String) (options : ParseOptions) :
    Confining (lex source).tokens (parse source options) := by
  rcases parse_cases source options with h | ⟨problems, h⟩
  · rw [h]
    exact dressed_confining ..
  · rw [h]
    exact refused_confining ..

/-- A brace that closes nothing does not count, so the next one may close what opens behind it. -/
theorem stray_brace_uncounted : ¬∀ id < (parse "\x7d x \x7b \x7d ;").nodeCount,
    ((parse "\x7d x \x7b \x7d ;").node id).symbol = .named .error → ∀ front n back,
      (parse "\x7d x \x7b \x7d ;").plainChildren id = front ++ n :: back → n.closesBrace = true →
        front.countP Node.closesBrace < front.countP Node.opensBrace ∨
          front = [] ∧ (parse "\x7d x \x7b \x7d ;").parent? id = some 0 := by
  intro h
  have hlt : 3 < ((parse "\x7d x \x7b \x7d ;").plainChildren 1).length := by decide +kernel
  have hcloses : ∀ _ : 3 < ((parse "\x7d x \x7b \x7d ;").plainChildren 1).length,
      ((parse "\x7d x \x7b \x7d ;").plainChildren 1)[3].closesBrace = true := by
    decide +kernel
  have hsplit := (List.take_append_drop 3 ((parse "\x7d x \x7b \x7d ;").plainChildren 1)).symm
  rw [List.drop_eq_getElem_cons hlt] at hsplit
  rcases h 1 (by decide +kernel) (by decide +kernel) _ _ _ hsplit (hcloses hlt) with
    hmore | ⟨hfirst, _⟩
  · exact absurd hmore (by decide +kernel)
  · exact absurd (congrArg List.length hfirst) (by decide +kernel)

end ScriptTree
