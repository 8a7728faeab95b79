import Mathlib
import ScriptTree.Proofs.Parsing.Outcome

/-! A tree holds the whole text of its source.

`Lossless` compares the leaves of a tree, as they are found by number, with the tokens and comments
of its source. `parse_lossless` says that every parse that is not refused gives a tree for which it
holds, whatever the source and however much of it was skipped as damage. -/
namespace ScriptTree

open Parsing

/-- Whether a byte is within a span. -/
def Span.Holds (span : Span) (byte : Nat) : Prop := span.start ≤ byte ∧ byte < span.stop

/-- The nodes without children that are there, but for the root, in preorder. -/
def Tree.textLeaves (t : Tree) : List Nat :=
  (List.range' 1 (t.nodeCount - 1)).filter fun id =>
    (t.children id).isEmpty && !(t.node id).missing

/-- Whether a leaf is the signed number of a match condition: the sign at an index of a token list,
and the number that touches it. -/
structure Tree.IsSignedNumber (t : Tree) (tokens : Array Token) (id i : Nat) : Prop where
  symbol : (t.node id).symbol = .named .number
  condition : ∃ p, t.parent? id = some p ∧
    ((t.node p).symbol = .named .matchCase ∧ (t.node id).field = some .condition ∨
      (t.node p).symbol = .named .matchRange ∧
        ((t.node id).field = some .rangeStart ∨ (t.node id).field = some .rangeEnd))
  sign : isSign (kindAt tokens i) = true
  number : ∃ text, kindAt tokens (i + 1) = .number text
  touching : (spanAt tokens i).stop = (spanAt tokens (i + 1)).start
  span : (t.node id).span = ⟨(spanAt tokens i).start, (spanAt tokens (i + 1)).stop⟩

/-- Whether a tree holds the text of a source, token by token and comment by comment. -/
structure Lossless (source : String) (t : Tree) : Prop where
  /-- Leaves follow one another. -/
  ordered : (t.textLeaves.map t.node).Pairwise Precedes
  /-- Leaves cover what tokens and comments cover. -/
  covered : ∀ byte, (∃ id ∈ t.textLeaves, (t.node id).span.Holds byte) ↔
    (∃ token ∈ (lex source).tokens, token.kind ≠ .endOfFile ∧ token.span.Holds byte) ∨
      ∃ c ∈ (lex source).comments, c.span.Holds byte
  /-- Every comment is one leaf. -/
  comments : (t.textLeaves.map t.node).filter (·.extra) =
    (lex source).comments.toList.map commentNode
  /-- Every token is leaves in a row, unless it is half of a signed number. -/
  tokens : ∀ i, kindAt (lex source).tokens i ≠ .endOfFile →
    (∃ group, group <:+: t.textLeaves ∧ Tiles (spanAt (lex source).tokens i).start
      (group.map t.node) (spanAt (lex source).tokens i).stop) ∨
    ∃ id ∈ t.textLeaves, ∃ j, (i = j ∨ i = j + 1) ∧ t.IsSignedNumber (lex source).tokens id j
  /-- No leaf reaches beyond a token, unless it is a signed number. -/
  leaves : ∀ id ∈ t.textLeaves, (t.node id).extra = true ∨
    (∃ i, StandsIn (lex source).tokens i (t.node id)) ∨
      ∃ i, t.IsSignedNumber (lex source).tokens id i
  /-- Nodes cover something, unless they are missing or an empty pattern, so none is the end. -/
  endOfFile : ∀ id, 0 < id → id < t.nodeCount → (t.node id).missing = false →
    (t.node id).symbol ≠ .named .regexPattern → (t.node id).span.start < (t.node id).span.stop

/-! ### Leaves by number -/

section Numbers
variable {root : Node} {source : String} {problems : List Problem}

theorem map_textLeaves : ((Tree.ofRoot source root problems).textLeaves).map
    (Tree.ofRoot source root problems).node = presentAll root.children := by
  have hall : (List.range' 1 (root.count - 1)).map (Tree.ofRoot source root problems).node =
      Node.preorderAll root.children := map_node_below
  rw [Tree.textLeaves, nodeCount_ofRoot, presentAll, leavesAll, ← hall, List.filter_map,
    List.filter_map, List.filter_filter]
  congr 1
  refine List.filter_congr fun id hid => ?_
  have hlt : id < root.count := by
    rw [List.mem_range'_1] at hid
    omega
  obtain ⟨parent, n, hn⟩ := Sits.exists_of_lt hlt
  rw [hn.isEmpty_children, Function.comp_apply, Function.comp_apply, hn.node_eq, Bool.and_comm]
  rfl

theorem mem_textLeaves {id : Nat} (h : id ∈ (Tree.ofRoot source root problems).textLeaves) :
    id ≠ 0 ∧ ∃ parent n, Sits root id parent n ∧ n ∈ presentAll root.children := by
  obtain ⟨hid, _⟩ := List.mem_filter.mp h
  rw [nodeCount_ofRoot, List.mem_range'_1] at hid
  have hlt : id < root.count := by omega
  obtain ⟨parent, n, hn⟩ := Sits.exists_of_lt hlt
  have hmem := List.mem_map_of_mem (f := (Tree.ofRoot source root problems).node) h
  rw [map_textLeaves, hn.node_eq] at hmem
  exact ⟨by omega, parent, n, hn, hmem⟩

end Numbers

/-! ### Leaves with comments among them -/

section Dressed
variable {source : String} {maxDepth : Nat}

theorem woven_present (source : String) (maxDepth : Nat) :
    Woven (commentNodes source) (presentAll (bareRoot source maxDepth).children)
      (presentAll (dressedRoot source maxDepth).children) := by
  refine (dressedRoot_dressed source maxDepth).woven.filter fun n hn => ?_
  obtain ⟨c, hc, rfl⟩ := List.mem_map.mp hn
  rw [(isComment_commentNode hc).1.present]
  rfl

theorem dressed_pairwise (source : String) (maxDepth : Nat) :
    (presentAll (dressedRoot source maxDepth).children).Pairwise Precedes :=
  (dressedRoot_dressed source maxDepth).encloses.pairwise_leaves.filter _

theorem dressed_comments (source : String) (maxDepth : Nat) :
    (presentAll (dressedRoot source maxDepth).children).filter (·.extra) =
      commentNodes source := by
  have hnone : (presentAll (bareRoot source maxDepth).children).filter (·.extra) = [] := by
    rw [List.filter_eq_nil_iff]
    intro m hm
    have hmem := List.mem_of_mem_filter (List.mem_of_mem_filter hm)
    rw [(bareRoot_faithful source maxDepth m hmem).plain]
    exact nofun
  rw [(woven_present source maxDepth).filter_extra (each_isComment source)
    (bareRoot_dressable source maxDepth).ordered (by rw [hnone]; nofun), hnone]
  rfl

/-- Every leaf is a comment, or stands in a token, or is a signed number. -/
theorem dressed_stands {n : Node} (hn : n ∈ presentAll (dressedRoot source maxDepth).children) :
    n.extra = true ∨ (∃ i, StandsIn (lex source).tokens i n) ∨
      ∃ i, IsSigned (lex source).tokens i n := by
  have hs := lex_isStream source
  have hsize := hs.nonempty
  rcases (woven_present source maxDepth).mem_iff.mp hn with hbare | hcomment
  · right
    obtain ⟨hleaf, hpresent⟩ := List.mem_filter.mp hbare
    rcases (bareRoot_forest source maxDepth).1.leaves_stand hs (by omega) n hleaf with
      h | h | ⟨hmissing, _⟩
    · exact .inl h
    · exact .inr h
    · rw [hmissing] at hpresent
      cases hpresent
  · exact .inl (each_isComment source n hcomment).extra

/-- Every token is leaves in a row, or half of a signed number. -/
theorem dressed_covered {i : Nat} (hreal : kindAt (lex source).tokens i ≠ .endOfFile) :
    Covered (lex source).tokens (presentAll (dressedRoot source maxDepth).children) i := by
  have hs := lex_isStream source
  have hwoven := woven_present source maxDepth
  have hi := hs.succ_lt_of_real hreal
  rcases (bareRoot_forest source maxDepth).1.tokens_covered hs i (Nat.zero_le _) (by omega) with
    ⟨group, hgroup, htiles⟩ | ⟨n, hn, hsigned⟩
  · exact .inl ⟨group, hwoven.infix_touching (each_isComment source) htiles.touching hgroup, htiles⟩
  · exact .inr ⟨n, hwoven.mem_iff.mpr (.inl hn), hsigned⟩

/-- A signed number stands in a match case or in a range of one. -/
theorem isSignedNumber_of_isSigned {problems : List Problem} {id i : Nat} {parent : Option Nat}
    {n : Node} (hn : Sits (dressedRoot source maxDepth) id parent n) (hid : id ≠ 0)
    (hsigned : IsSigned (lex source).tokens i n) :
    (Tree.ofRoot source (dressedRoot source maxDepth) problems).IsSignedNumber
      (lex source).tokens id i := by
  obtain ⟨pid, above, m, before, after, hparent, hm, hchildren, _⟩ := hn.parent_of_ne_zero hid
  have hmem : n ∈ m.children := by simp [hchildren]
  obtain ⟨field, hfield, hlabel⟩ := hsigned.field
  obtain ⟨hlawful, hstrip⟩ := hm.strip_child hmem hsigned.plain
  have hrole : n.strip.role = (some field, .named .number) := by
    rw [Node.strip_eq, Node.role, ← hlabel, ← hsigned.symbol]
  have hkind : m.symbol = .named (conditionKind field) := by
    have := hlawful.parent_of_condition hstrip hfield hrole
    rwa [Node.strip_eq] at this
  have hnode : (Tree.ofRoot source (dressedRoot source maxDepth) problems).node id = n := hn.node_eq
  refine ⟨?_, ⟨pid, ?_, ?_⟩, hsigned.sign, hsigned.number, hsigned.touching, ?_⟩
  · rw [hnode]
    exact hsigned.symbol
  · rw [hn.parent_eq, hparent]
  · rw [hnode, hm.node_eq, hkind, hlabel]
    have hcases : ∀ field ∈ conditionFields,
        Symbol.named (conditionKind field) = .named .matchCase ∧ some field = some .condition ∨
          Symbol.named (conditionKind field) = .named .matchRange ∧
            (some field = some Field.rangeStart ∨ some field = some .rangeEnd) := by decide
    exact hcases field hfield
  · rw [hnode]
    exact hsigned.span

end Dressed

/-! ### Parses -/

theorem Tree.IsSignedNumber.holds {t : Tree} {tokens : Array Token} (hs : IsStream tokens)
    {id j byte : Nat} (h : t.IsSignedNumber tokens id j) :
    (t.node id).span.Holds byte ↔
      (spanAt tokens j).Holds byte ∨ (spanAt tokens (j + 1)).Holds byte := by
  obtain ⟨text, hnumber⟩ := h.number
  have hsign := hs.start_lt_stop (isSign_ne_endOfFile h.sign)
  have hnumber := hs.start_lt_stop (number_real hnumber)
  have htouching := h.touching
  rw [h.span]
  simp only [Span.Holds]
  omega

/-- A byte is in a token that is not the end if it is in the token at an index. -/
theorem exists_token_holds {tokens : Array Token} {byte : Nat} :
    (∃ token ∈ tokens, token.kind ≠ .endOfFile ∧ token.span.Holds byte) ↔
      ∃ i, kindAt tokens i ≠ .endOfFile ∧ (spanAt tokens i).Holds byte := by
  constructor
  · rintro ⟨token, htoken, h⟩
    obtain ⟨i, hi, rfl⟩ := Array.mem_iff_getElem.mp htoken
    refine ⟨i, ?_⟩
    simpa [kindAt, spanAt, tokenAt, Array.getD_eq_getD_getElem?, hi] using h
  · rintro ⟨i, hreal, h⟩
    have hi := lt_size_of_real hreal
    refine ⟨tokenAt tokens i, ?_, hreal, h⟩
    simp [tokenAt, Array.getD_eq_getD_getElem?, hi]

section Tree
variable {source : String} {maxDepth : Nat} {problems : List Problem} {t : Tree}
  (ht : t = .ofRoot source (dressedRoot source maxDepth) problems)
include ht

theorem nodes_eq : t.textLeaves.map t.node =
    presentAll (dressedRoot source maxDepth).children := by
  rw [ht]
  exact map_textLeaves

/-- Leaves in a row have numbers in a row among those of the leaves. -/
theorem exists_group {group : List Node}
    (h : group <:+: presentAll (dressedRoot source maxDepth).children) :
    ∃ ids, ids <:+: t.textLeaves ∧ ids.map t.node = group := by
  rw [← nodes_eq ht] at h
  obtain ⟨before, after, hsplit⟩ := h
  obtain ⟨front, ids', hfront, hids, rfl⟩ := List.map_eq_append_iff.mp hsplit.symm
  obtain ⟨before', ids, rfl, _, rfl⟩ := List.map_eq_append_iff.mp hids
  exact ⟨ids, ⟨before', ids', hfront.symm⟩, rfl⟩

theorem leaf_cases {id : Nat} (hid : id ∈ t.textLeaves) : (t.node id).extra = true ∨
    (∃ i, StandsIn (lex source).tokens i (t.node id)) ∨
      ∃ i, t.IsSignedNumber (lex source).tokens id i := by
  subst ht
  obtain ⟨hne, parent, n, hn, hmem⟩ := mem_textLeaves hid
  rw [hn.node_eq]
  rcases dressed_stands hmem with h | h | ⟨i, hsigned⟩
  · exact .inl h
  · exact .inr (.inl h)
  · exact .inr (.inr ⟨i, isSignedNumber_of_isSigned hn hne hsigned⟩)

theorem token_cases {i : Nat} (hreal : kindAt (lex source).tokens i ≠ .endOfFile) :
    (∃ group, group <:+: t.textLeaves ∧ Tiles (spanAt (lex source).tokens i).start
      (group.map t.node) (spanAt (lex source).tokens i).stop) ∨
    ∃ id ∈ t.textLeaves, ∃ j, (i = j ∨ i = j + 1) ∧
      t.IsSignedNumber (lex source).tokens id j := by
  have hcovered : Covered _ (presentAll (dressedRoot source maxDepth).children) i :=
    dressed_covered hreal
  rcases hcovered with ⟨group, hgroup, htiles⟩ | ⟨n, hn, j, hij, hsigned⟩
  · obtain ⟨ids, hids, rfl⟩ := exists_group ht hgroup
    exact .inl ⟨ids, hids, htiles⟩
  · rw [← nodes_eq ht] at hn
    obtain ⟨id, hid, rfl⟩ := List.mem_map.mp hn
    subst ht
    obtain ⟨hne, parent, m, hm, _⟩ := mem_textLeaves hid
    rw [hm.node_eq] at hsigned
    exact .inr ⟨id, hid, j, hij, isSignedNumber_of_isSigned hm hne hsigned⟩

theorem comments_eq : (t.textLeaves.map t.node).filter (·.extra) =
    (lex source).comments.toList.map commentNode := by
  rw [nodes_eq ht]
  exact dressed_comments source maxDepth

/-- What leaves cover is what tokens and comments cover. -/
theorem holds_iff (byte : Nat) : (∃ id ∈ t.textLeaves, (t.node id).span.Holds byte) ↔
    (∃ token ∈ (lex source).tokens, token.kind ≠ .endOfFile ∧ token.span.Holds byte) ∨
      ∃ c ∈ (lex source).comments, c.span.Holds byte := by
  have hs := lex_isStream source
  rw [exists_token_holds]
  constructor
  · rintro ⟨id, hid, hholds⟩
    rcases leaf_cases ht hid with hextra | ⟨i, hreal, hstart, hstop⟩ | ⟨j, hsigned⟩
    · have hmem : t.node id ∈ (t.textLeaves.map t.node).filter (·.extra) :=
        List.mem_filter.mpr ⟨List.mem_map_of_mem hid, hextra⟩
      rw [comments_eq ht] at hmem
      obtain ⟨c, hc, hnode⟩ := List.mem_map.mp hmem
      rw [← hnode, (isComment_commentNode hc).2] at hholds
      exact .inr ⟨c, Array.mem_def.mpr hc, hholds⟩
    · exact .inl ⟨i, hreal, hstart.trans hholds.1, hholds.2.trans_le hstop⟩
    · obtain ⟨text, hnumber⟩ := hsigned.number
      rcases (hsigned.holds hs).mp hholds with h | h
      · exact .inl ⟨j, isSign_ne_endOfFile hsigned.sign, h⟩
      · exact .inl ⟨j + 1, number_real hnumber, h⟩
  · rintro (⟨i, hreal, hholds⟩ | ⟨c, hc, hholds⟩)
    · rcases token_cases ht hreal with ⟨group, hgroup, htiles⟩ | ⟨id, hid, j, hij, hsigned⟩
      · obtain ⟨n, hn, hstart, hstop⟩ := htiles.exists_covers hholds.1 hholds.2
        obtain ⟨id, hid, rfl⟩ := List.mem_map.mp hn
        exact ⟨id, hgroup.subset hid, hstart, hstop⟩
      · refine ⟨id, hid, (hsigned.holds hs).mpr ?_⟩
        rcases hij with rfl | rfl
        · exact .inl hholds
        · exact .inr hholds
    · have hmem : commentNode c ∈ (t.textLeaves.map t.node).filter (·.extra) := by
        rw [comments_eq ht]
        exact List.mem_map_of_mem (Array.mem_def.mp hc)
      obtain ⟨id, hid, hnode⟩ := List.mem_map.mp (List.mem_of_mem_filter hmem)
      refine ⟨id, hid, ?_⟩
      rw [hnode, (isComment_commentNode (Array.mem_def.mp hc)).2]
      exact hholds

theorem node_proper {id : Nat} (hpos : 0 < id) (hid : id < t.nodeCount)
    (hpresent : (t.node id).missing = false) (hpattern : (t.node id).symbol ≠ .named .regexPattern) :
    (t.node id).span.start < (t.node id).span.stop := by
  subst ht
  rw [nodeCount_ofRoot] at hid
  obtain ⟨parent, n, hn⟩ := Sits.exists_of_lt hid
  rw [hn.node_eq] at hpresent hpattern ⊢
  rcases dressed_cases (hn.mem_below hpos.ne') with ⟨c, hc, rfl⟩ | ⟨_, hbare⟩
  · exact (isComment_commentNode hc).1.proper
  · have hproper := (bareRoot_faithful source maxDepth _ hbare).proper
    rw [Node.strip_eq] at hproper
    exact hproper hpresent hpattern

end Tree

/-- A parse that is not refused keeps every token and every comment of its source. -/
theorem parse_lossless (source : String) (options : ParseOptions)
    (hfits : ∀ limit ∈ options.maxLength, source.utf8ByteSize ≤ limit) :
    Lossless source (parse source options) := by
  have ht := parse_eq hfits
  refine ⟨?_, holds_iff ht, comments_eq ht, fun i hreal => token_cases ht hreal,
    fun id hid => leaf_cases ht hid, fun id hpos hid => node_proper ht hpos hid⟩
  rw [nodes_eq ht]
  exact dressed_pairwise source options.maxDepth

/-- A source as long as the limit is not refused. -/
theorem parse_lossless_at_limit :
    (∀ limit ∈ some 10, "a(+1); //x".utf8ByteSize ≤ limit) ∧
      Lossless "a(+1); //x" (parse "a(+1); //x" { maxLength := some 10 }) := by
  have hfits : ∀ limit ∈ some 10, "a(+1); //x".utf8ByteSize ≤ limit := by
    rintro limit ⟨⟩
    decide
  exact ⟨hfits, parse_lossless _ _ hfits⟩

end ScriptTree
