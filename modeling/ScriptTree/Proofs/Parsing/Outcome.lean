import Mathlib
import ScriptTree.Proofs.Building.Programs
import ScriptTree.Proofs.Parsing.Lawful
import ScriptTree.Proofs.Parsing.Leaves
import ScriptTree.Proofs.Parsing.Marks
import ScriptTree.Proofs.Parsing.Statements
import ScriptTree.Proofs.Tree.Addresses

/-! What a parse comes to.

The statements of a source form a forest over all its tokens (`bareRoot_forest`). Its comments can be
put in, and then the tree holds the same nodes and the comments (`dressed_cases`), each node with the
shape that it had (`Sits.lawful`). Only a source beyond the limit has another tree: that of a program
without children. -/
namespace ScriptTree

open Parsing

/-- The root of a source before its comments are put in. -/
def bareRoot (source : String) (maxDepth : Nat) : Node :=
  rootNode source.utf8ByteSize (runProgram (lex source).tokens maxDepth).1.toList

/-- The comments of a source as nodes. -/
def commentNodes (source : String) : List Node := (lex source).comments.toList.map commentNode

/-- The root of a source. -/
def dressedRoot (source : String) (maxDepth : Nat) : Node :=
  (bareRoot source maxDepth).attachAll (commentNodes source)

/-- What is reported about a source, by the lexer and then by the parser. -/
def reports (source : String) (maxDepth : Nat) : List Problem :=
  (lex source).problems.toList ++ (runProgram (lex source).tokens maxDepth).2.problems.toList

variable {source : String} {maxDepth : Nat} {options : ParseOptions}

theorem arena?_eq (hfits : ∀ limit ∈ options.maxLength, source.utf8ByteSize ≤ limit) :
    arena? source options = ofLexed? source (lex source) options.maxDepth := by
  have hnone : options.maxLength.filter (· < source.utf8ByteSize) = none := by
    rw [Option.filter_eq_none_iff]
    intro limit hlimit
    simpa using hfits limit hlimit
  rw [arena?, hnone]

theorem arena?_refused {limit : Nat} (hlimit : limit ∈ options.maxLength)
    (hlong : limit < source.utf8ByteSize) : arena? source options = refused? source limit := by
  have hsome : options.maxLength.filter (· < source.utf8ByteSize) = some limit := by
    rw [hlimit, Option.filter_some, if_pos (by simpa using hlong)]
  rw [arena?, hsome]

theorem parse_eq (hfits : ∀ limit ∈ options.maxLength, source.utf8ByteSize ≤ limit) :
    parse source options = .ofRoot source (dressedRoot source options.maxDepth)
      (sorted (reports source options.maxDepth)) := by
  rw [parse, arena?_eq hfits, reports, ← Array.toList_append]
  exact Building.ofLexed_eq (lex_isStream source) (lex_stringsStand source) options.maxDepth

/-- A source beyond the limit has a root and nothing else. -/
theorem parse_refused {limit : Nat} (hlimit : limit ∈ options.maxLength)
    (hlong : limit < source.utf8ByteSize) :
    parse source options = .ofRoot source (rootNode source.utf8ByteSize [])
      [⟨.tooLong source.utf8ByteSize limit, .empty 0⟩] := by
  obtain ⟨a, order, harena, hholds, hproblems⟩ := Building.refused?_holds source limit
  rw [parse, arena?_refused hlimit hlong, harena, hholds.treeOf_eq, hproblems]

/-- Every source has an arena, and its tree is made of that. -/
theorem parse_arena (source : String) (options : ParseOptions) : ∃ a n order,
    arena? source options = some a ∧ a.Holds n order ∧
      parse source options = .ofRoot source n a.problems := by
  obtain ⟨a, n, order, harena, hholds⟩ : ∃ a n order, arena? source options = some a ∧
      Building.Arena.Holds a n order := by
    by_cases hfits : ∀ limit ∈ options.maxLength, source.utf8ByteSize ≤ limit
    · obtain ⟨a, order, harena, hholds, -⟩ :=
        Building.ofLexed?_holds (lex_isStream source) (lex_stringsStand source) options.maxDepth
      exact ⟨a, _, order, (arena?_eq hfits).trans harena, hholds⟩
    · push Not at hfits
      obtain ⟨limit, hlimit, hlong⟩ := hfits
      obtain ⟨a, order, harena, hholds, -⟩ := Building.refused?_holds source limit
      exact ⟨a, _, order, (arena?_refused hlimit hlong).trans harena, hholds⟩
  exact ⟨a, n, order, harena, hholds, by rw [parse, harena, hholds.treeOf_eq]⟩

theorem parse_cases (source : String) (options : ParseOptions) :
    parse source options = .ofRoot source (dressedRoot source options.maxDepth)
        (sorted (reports source options.maxDepth)) ∨
      ∃ limit, parse source options = .ofRoot source (rootNode source.utf8ByteSize [])
        [⟨.tooLong source.utf8ByteSize limit, .empty 0⟩] := by
  by_cases hfits : ∀ limit ∈ options.maxLength, source.utf8ByteSize ≤ limit
  · exact .inl (parse_eq hfits)
  · push Not at hfits
    obtain ⟨limit, hlimit, hlong⟩ := hfits
    exact .inr ⟨limit, parse_refused hlimit hlong⟩

theorem parse_numbered (source : String) (options : ParseOptions) :
    0 < (parse source options).nodeCount ∧ (parse source options).Numbered := by
  rcases parse_cases source options with h | ⟨limit, h⟩ <;>
  · rw [h, nodeCount_ofRoot, Node.count_eq]
    exact ⟨Nat.add_pos_right _ Nat.one_pos, ofRoot_numbered _ _ _⟩

/-! ### Statements -/

theorem bareRoot_forest (source : String) (maxDepth : Nat) :
    Forest (lex source).tokens 0 ((lex source).tokens.size - 1)
        (runProgram (lex source).tokens maxDepth).2.problems.toList
        (bareRoot source maxDepth).children ∧
      ∀ n ∈ (bareRoot source maxDepth).children, n.role ∈ Role.recovered :=
  runProgram_forest (lex_isStream source) maxDepth

theorem bareRoot_faithful (source : String) (maxDepth : Nat) :
    ∀ m ∈ Node.preorderAll (bareRoot source maxDepth).children, Faithful source m :=
  (bareRoot_forest source maxDepth).1.faithful (Nat.sub_le _ _)

theorem bareRoot_lawful (source : String) (maxDepth : Nat) : Lawful (bareRoot source maxDepth) := by
  obtain ⟨hforest, hroles⟩ := bareRoot_forest source maxDepth
  have hrow : Matches NodeKind.program.row (bareRoot source maxDepth).children := by
    have : Matches [.many Role.recovered] ((bareRoot source maxDepth).children ++ []) :=
      .many hroles .nil
    rwa [List.append_nil] at this
  exact .regular nofun hrow (fun kind hkind => by cases hkind; trivial)
    (hforest.lawful (lex_isStream source)) nofun

theorem bareRoot_encloses (source : String) (maxDepth : Nat) :
    Encloses (bareRoot source maxDepth) := by
  have hs := lex_isStream source
  obtain ⟨hforest, _⟩ := bareRoot_forest source maxDepth
  have hlast : stopBefore (lex source).tokens ((lex source).tokens.size - 1) ≤
      source.utf8ByteSize := (stopBefore_isValid (Nat.sub_le _ _)).le_utf8ByteSize
  exact ⟨⟨_, hlast, hforest.laid hs⟩, hforest.framed hs⟩

/-! ### Comments -/

theorem isComment_commentNode {c : Comment} (hc : c ∈ (lex source).comments.toList) :
    IsComment (commentNode c) ∧ (commentNode c).span = c.span := by
  obtain ⟨p, hp, hspan⟩ := comment_stands hc
  have hproper := hp.proper
  rw [← hspan] at hproper
  rw [commentNode]
  cases c.kind <;> exact ⟨⟨hproper, rfl, rfl, rfl⟩, rfl⟩

theorem each_isComment (source : String) : ∀ n ∈ commentNodes source, IsComment n :=
  fun _ hn => by
    obtain ⟨c, hc, rfl⟩ := List.mem_map.mp hn
    exact (isComment_commentNode hc).1

theorem comment_clear_leaf {c : Comment} (hc : c ∈ (lex source).comments.toList) {m : Node}
    (hm : Stands (lex source).tokens m) :
    Precedes m (commentNode c) ∨ Precedes (commentNode c) m := by
  have hs := lex_isStream source
  obtain ⟨hcomment, hspan⟩ := isComment_commentNode hc
  have hproper := hcomment.proper
  rw [Precedes, Precedes, hspan]
  rw [hspan] at hproper
  have hclear {i : Nat} (hreal : kindAt (lex source).tokens i ≠ .endOfFile) :
      c.span.stop ≤ (spanAt (lex source).tokens i).start ∨
        (spanAt (lex source).tokens i).stop ≤ c.span.start := by
    refine comment_clear hc ?_
    have hi := lt_size_of_real hreal
    simp [tokenAt, Array.getD_eq_getD_getElem?, hi]
  rcases hm with ⟨i, hreal, hstart, hstop⟩ | ⟨i, hsigned⟩ | ⟨_, hzero⟩
  · rcases hclear hreal with h | h
    · exact .inr (h.trans hstart)
    · exact .inl (hstop.trans h)
  · -- A comment does not fit between a sign and the number that touches it.
    obtain ⟨text, hnumber⟩ := hsigned.number
    have hsign := hclear (isSign_ne_endOfFile hsigned.sign)
    have hnumber := hclear (number_real hnumber)
    have htouching := hsigned.touching
    rw [hsigned.span]
    dsimp only
    omega
  · rw [hzero]
    exact .inl (Nat.zero_le _)

theorem bareRoot_dressable (source : String) (maxDepth : Nat) :
    Dressable (bareRoot source maxDepth) (commentNodes source) := by
  have hs := lex_isStream source
  obtain ⟨hforest, _⟩ := bareRoot_forest source maxDepth
  refine ⟨bareRoot_encloses source maxDepth, fun n hn => ?_, ?_, fun n hn => ?_, fun n hn m hm => ?_⟩
  · obtain ⟨c, hc, rfl⟩ := List.mem_map.mp hn
    exact (isComment_commentNode hc).1
  · rw [commentNodes, List.pairwise_map]
    refine (lex_comments_ordered source).imp_of_mem fun hc hc' h => ?_
    rw [Precedes, (isComment_commentNode hc).2, (isComment_commentNode hc').2]
    exact h
  · obtain ⟨c, hc, rfl⟩ := List.mem_map.mp hn
    obtain ⟨p, hp, hspan⟩ := comment_stands hc
    rw [(isComment_commentNode hc).2, hspan]
    exact ⟨Nat.zero_le _, hp.fits.stop.le_utf8ByteSize⟩
  · obtain ⟨c, hc, rfl⟩ := List.mem_map.mp hn
    have hsize := hs.nonempty
    exact comment_clear_leaf hc (hforest.leaves_stand hs (by omega) m hm)

theorem dressedRoot_dressed (source : String) (maxDepth : Nat) :
    Dressed (bareRoot source maxDepth) (commentNodes source) (dressedRoot source maxDepth) :=
  attachAll_dressed (bareRoot_dressable source maxDepth)

/-! ### Nodes with comments among them -/

theorem strip_dressedRoot (source : String) (maxDepth : Nat) :
    (dressedRoot source maxDepth).strip = bareRoot source maxDepth := by
  rw [(dressedRoot_dressed source maxDepth).strip, Node.strip_eq,
    Node.stripAll_of_plain fun m hm => (bareRoot_faithful source maxDepth m hm).plain]
  rfl

theorem dressed_leaf {m : Node} (hm : m ∈ Node.preorderAll (dressedRoot source maxDepth).children)
    (hextra : m.extra = true) : m.children = [] := by
  refine (dressedRoot_dressed source maxDepth).extras (fun n hn hextra => ?_) m hm hextra
  rw [(bareRoot_faithful source maxDepth n hn).plain] at hextra
  cases hextra

/-- The nodes of the tree without the comments are the nodes before comments were put in. -/
theorem preorder_bareRoot (source : String) (maxDepth : Nat) :
    Node.preorderAll (bareRoot source maxDepth).children =
      ((Node.preorderAll (dressedRoot source maxDepth).children).filter (!·.extra)).map
        Node.strip := by
  rw [← Node.preorderAll_stripAll fun m hm => dressed_leaf hm]
  have := congrArg Node.children (strip_dressedRoot source maxDepth)
  rw [Node.strip_eq] at this
  rw [← this]

theorem dressed_cases {m : Node} (hm : m ∈ Node.preorderAll (dressedRoot source maxDepth).children) :
    (∃ c ∈ (lex source).comments.toList, m = commentNode c) ∨
      m.extra = false ∧ m.strip ∈ Node.preorderAll (bareRoot source maxDepth).children := by
  cases hextra : m.extra with
  | false =>
    refine .inr ⟨rfl, ?_⟩
    rw [preorder_bareRoot]
    exact List.mem_map_of_mem (List.mem_filter.mpr ⟨hm, by simp [hextra]⟩)
  | true =>
    have hleaf : m ∈ leavesAll (dressedRoot source maxDepth).children :=
      List.mem_filter.mpr ⟨hm, List.isEmpty_iff.mpr (dressed_leaf hm hextra)⟩
    rcases (dressedRoot_dressed source maxDepth).woven.mem_iff.mp hleaf with hbare | hcomment
    · have hplain := (bareRoot_faithful source maxDepth m (List.mem_of_mem_filter hbare)).plain
      rw [hextra] at hplain
      cases hplain
    · obtain ⟨c, hc, rfl⟩ := List.mem_map.mp hcomment
      exact .inl ⟨c, hc, rfl⟩

theorem Framed.preorder {n : Node} (h : Framed n) : ∀ m ∈ n.preorder, Framed m := by
  induction h with
  | leaf hchildren forward =>
    intro m hm
    rw [Node.preorder_eq, hchildren] at hm
    rw [List.mem_singleton.mp hm]
    exact .leaf hchildren forward
  | inner hchildren start proper first last laid below ih =>
    intro m hm
    rw [Node.preorder_eq] at hm
    rcases List.mem_cons.mp hm with rfl | hm
    · exact .inner hchildren start proper first last laid below
    · obtain ⟨c, hc, hm⟩ := Node.mem_preorderAll.mp hm
      exact ih c hc m hm

theorem dressed_framed {m : Node}
    (hm : m ∈ Node.preorderAll (dressedRoot source maxDepth).children) : Framed m := by
  obtain ⟨n, hn, hm⟩ := Node.mem_preorderAll.mp hm
  exact ((dressedRoot_dressed source maxDepth).encloses.below n hn).preorder m hm

/-- A node with nothing but comments among its children has no children. -/
theorem Framed.children_of_strip {n : Node} (h : Framed n) (hnone : n.strip.children = []) :
    n.children = [] := by
  cases h with
  | leaf hchildren => exact hchildren
  | inner hchildren _ _ first =>
    rw [Node.strip_eq, hchildren, Node.stripAll, if_neg (by simp [first])] at hnone
    cases hnone

theorem Sits.leaf_of_extra {id : Nat} {parent : Option Nat} {n : Node}
    (h : Sits (dressedRoot source maxDepth) id parent n) (hextra : n.extra = true) :
    n.children = [] := by
  rcases Nat.eq_zero_or_pos id with rfl | hpos
  · obtain ⟨_, hsame⟩ := (dressedRoot_dressed source maxDepth).same
    rw [h.eq_root, hsame] at hextra
    cases hextra
  · exact dressed_leaf (h.mem_below hpos.ne') hextra

/-- Without the comments below it, every node is lawful, unless it is a leaf of damage. -/
theorem Sits.lawful {id : Nat} {parent : Option Nat} {n : Node}
    (h : Sits (dressedRoot source maxDepth) id parent n) :
    n.extra = true ∨ Lawful n.strip ∨ (n.children = [] ∧ IsSkipped n.symbol) ∧
      ∃ pid above p, parent = some pid ∧ Sits (dressedRoot source maxDepth) pid above p ∧
        p.symbol = .named .error := by
  induction h with
  | root =>
    rw [strip_dressedRoot]
    exact .inr (.inl (bareRoot_lawful source maxDepth))
  | @child id parent n before c after above hchildren ih =>
    have hc : c ∈ n.children := by simp [hchildren]
    have hbelow := (above.child hchildren).mem_below (by omega)
    have hnonempty : n.children ≠ [] := List.ne_nil_of_mem hc
    cases hextra : c.extra with
    | true => exact .inl rfl
    | false =>
      right
      have hstrip : c.strip ∈ n.strip.children := by
        rw [Node.strip_eq n, Node.stripAll_eq]
        exact List.mem_map_of_mem (List.mem_filter.mpr ⟨hc, by simp [hextra]⟩)
      rcases ih with hn | hn | ⟨⟨hn, _⟩, _⟩
      · exact absurd (above.leaf_of_extra hn) hnonempty
      · by_cases herror : n.symbol = .named .error
        · have hsymbol : n.strip.symbol = .named .error := by rw [Node.strip_eq, herror]
          obtain ⟨hleaf, hskipped, _⟩ := hn.leaves hsymbol _ hstrip
          rw [Node.strip_eq c] at hskipped
          exact .inr ⟨⟨(dressed_framed hbelow).children_of_strip hleaf, hskipped⟩,
            id, parent, n, rfl, above, herror⟩
        · have hsymbol : n.strip.symbol ≠ .named .error := by rwa [Node.strip_eq]
          exact .inl (hn.child hsymbol _ hstrip)
      · exact absurd hn hnonempty

/-- A child that is no comment is a child of its parent without the comments, too. -/
theorem Sits.strip_child {id : Nat} {parent : Option Nat} {n c : Node}
    (h : Sits (dressedRoot source maxDepth) id parent n) (hc : c ∈ n.children)
    (hplain : c.extra = false) :
    Lawful n.strip ∧ c.strip ∈ n.strip.children := by
  refine ⟨?_, ?_⟩
  · rcases h.lawful with hextra | hlawful | ⟨⟨hleaf, _⟩, _⟩
    · rw [h.leaf_of_extra hextra] at hc
      cases hc
    · exact hlawful
    · rw [hleaf] at hc
      cases hc
  · rw [Node.strip_eq n, Node.stripAll_eq]
    exact List.mem_map_of_mem (List.mem_filter.mpr ⟨hc, by simp [hplain]⟩)

end ScriptTree
