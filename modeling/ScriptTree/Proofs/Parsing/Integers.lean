import Mathlib
import ScriptTree.Proofs.Parsing.Delimiters
import ScriptTree.Proofs.Parsing.Grouping

/-! The numbers of match conditions.

The lexer reads numbers of all bases and with fractions, and a sign is a token of its own. The
productions of conditions take none but decimal integers (`Orderly.integral`), and make one leaf of a
sign and the digits it touches. What such a leaf covers is cut out of the source as one piece, so its
text is the sign and the digits (`IsInteger.text`). Rows and comments are as everywhere: a range is two
of these leaves with the dots between them. -/
namespace ScriptTree

open Parsing

/-- Whether a text is a decimal integer, with or without a sign. -/
def IsSignedDecimal (text : String) : Prop :=
  ∃ sign digits, text.toList = sign ++ digits ∧ (sign = [] ∨ sign = ['+'] ∨ sign = ['-']) ∧
    digits ≠ [] ∧ ∀ d ∈ digits, '0' ≤ d ∧ d ≤ '9'

namespace Tree

/-- The children of a node that are no comments, by their indices. -/
def plainIds (t : Tree) (id : Nat) : List Nat :=
  (t.children id).toList.filter fun child => !(t.node child).extra

/-- Whether a child is a decimal integer in a field. -/
structure IsEnd (t : Tree) (id : Nat) (field : Field) : Prop where
  kind : t.kind? id = some .number
  field : (t.node id).field = some field
  text : IsSignedDecimal (t.text id)

end Tree

/-- Whether the conditions in a tree hold no numbers but decimal integers. -/
structure Conditioned (t : Tree) : Prop where
  /-- Whatever the field of the number is. -/
  numbers : ∀ id < t.nodeCount, ∀ kind ∈ conditionKinds, t.kind? id = some kind →
    ∀ child ∈ t.children id, t.kind? child = some .number → IsSignedDecimal (t.text child)
  ranges : ∀ id < t.nodeCount, t.kind? id = some .matchRange → ∃ first dots last,
    t.plainIds id = [first, dots, last] ∧ t.IsEnd first .rangeStart ∧
      (t.node dots).symbol = .punctuation .dotDot ∧ t.IsEnd last .rangeEnd

/-! ### Texts of integers -/

section Texts
variable {source : String} {t : Token} {l : Lexeme} {i : Nat} {n : Node}

/-- A source has between two beginnings what is between them. -/
theorem slice_of_split {front inner back : List Char} (h : front ++ inner ++ back = source.toList) :
    (⟨byteLength front, byteLength front + byteLength inner⟩ : Span).slice source =
      .ofList inner := by
  have hlies : (⟨byteLength front, byteLength front + byteLength inner⟩ : Span).LiesIn source := by
    refine ⟨Nat.le_add_right _ _, ?_, ?_⟩
    · have hfront : front ++ (inner ++ back) = source.toList := by rw [← h, List.append_assoc]
      exact isValid_byteLength hfront
    · show String.Pos.Raw.IsValid source ⟨byteLength front + byteLength inner⟩
      rw [← byteLength_append]
      exact isValid_byteLength h
  exact Option.some.inj (hlies.slice?_eq.symm.trans (slice?_of_split h))

theorem ReadFrom.number_text {text : String} (h : ReadFrom source t l)
    (hkind : t.kind = .number text) : l.text = text.toList := by
  have hl := h.kind_eq
  rw [hkind] at hl
  cases l with
  | number text missing =>
    cases hl
    exact String.toList_ofList.symm
  | _ => cases hl

theorem ReadFrom.sign_text (h : ReadFrom source t l) (hsign : isSign t.kind = true) :
    l.text = ['+'] ∨ l.text = ['-'] := by
  rw [isSign, Bool.or_eq_true, isOperator_iff, isOperator_iff] at hsign
  have hl := h.kind_eq
  obtain ⟨c, behind, -, hscanned⟩ := h.scanned
  cases l with
  | operator o =>
    rcases hsign with hsign | hsign <;> rw [hsign] at hl <;> cases hl
    · exact .inr rfl
    · exact .inl rfl
  | loose spelling strict =>
    -- None of the loose spellings stands for a sign.
    have hnone : ∀ pair ∈ Operator.looseSpellings, pair.2 ≠ .minus ∧ pair.2 ≠ .plus := by decide
    obtain ⟨hminus, hplus⟩ := hnone _ hscanned
    rcases hsign with hsign | hsign <;> rw [hsign] at hl <;> cases hl
    · exact absurd rfl hminus
    · exact absurd rfl hplus
  | _ => rcases hsign with hsign | hsign <;> rw [hsign] at hl <;> cases hl

theorem digits_bounds {text : String} (h : text.all Char.isDigit = true) :
    ∀ d ∈ text.toList, '0' ≤ d ∧ d ≤ '9' := by
  intro d hd
  rw [String.all_bool_eq] at h
  have hdigit := List.all_eq_true.mp h d hd
  simpa [Char.isDigit, Char.le_def] using hdigit

/-- The text of an integer of the parser is one. -/
theorem Parsing.IsInteger.text (h : IsInteger (lex source).tokens n) :
    IsSignedDecimal (n.span.slice source) := by
  have hread {i : Nat} (hreal : kindAt (lex source).tokens i ≠ .endOfFile) :=
    exists_readFrom (tokenAt_mem (lt_size_of_real hreal)) hreal
  cases h with
  | @plain i text number digits span =>
    obtain ⟨l, hl⟩ := hread (number_real number)
    have htext := hl.number_text number
    refine ⟨[], text.toList, ?_, .inl rfl, ?_, digits_bounds digits⟩
    · rw [span, spanAt, hl.slice, String.toList_ofList, htext]
      rfl
    · rw [← htext]
      exact hl.stands.nonempty
  | @signed i text sign number digits touching span =>
    obtain ⟨l, hl⟩ := hread (isSign_ne_endOfFile sign)
    obtain ⟨l', hl'⟩ := hread (number_real number)
    obtain ⟨front, back, hsource, hstart⟩ := hl.stands.between
    have hwidth : (spanAt (lex source).tokens i).stop = byteLength (front ++ l.text) := by
      rw [byteLength_append, hstart]
      exact congrArg Span.stop hl.span_eq
    obtain ⟨behind, hback⟩ : ∃ behind, back = l'.text ++ behind := by
      refine ⟨textFrom source (spanAt (lex source).tokens (i + 1)).stop, ?_⟩
      rw [← textFrom_of_split hsource.symm, ← hwidth, touching]
      exact hl'.ahead
    have hstop : (spanAt (lex source).tokens (i + 1)).stop =
        byteLength front + byteLength (l.text ++ l'.text) := by
      rw [byteLength_append, ← Nat.add_assoc, ← byteLength_append, ← hwidth, touching]
      exact congrArg Span.stop hl'.span_eq
    have hmerged : n.span =
        ⟨byteLength front, byteLength front + byteLength (l.text ++ l'.text)⟩ := by
      rw [span, (lex_isStream source).merge_eq (isSign_ne_endOfFile sign) (number_real number), hstop,
        hstart]
      rfl
    refine ⟨l.text, l'.text, ?_, .inr (hl.sign_text sign), hl'.stands.nonempty, ?_⟩
    · have hsplit : front ++ (l.text ++ l'.text) ++ behind = source.toList := by
        rw [← hsource, hback]
        simp only [List.append_assoc]
      rw [hmerged, slice_of_split hsplit, String.toList_ofList]
    · rw [hl'.number_text number]
      exact digits_bounds digits

end Texts

/-! ### Numbers in forests and trees -/

/-- Whatever production made it, a case or a range has no other numbers. -/
theorem Parsing.Forest.integral {tokens : Array Token} {p q : Nat} {ps : List Problem}
    {ns : List Node} (h : Forest tokens p q ps ns) : ∀ m ∈ Node.preorderAll ns, ∀ kind ∈ conditionKinds,
      m.kind? = some kind → Integral tokens m.children := by
  induction h with
  | nil => exact List.forall_mem_nil _
  | token _ _ _ ih | signed _ _ _ _ _ _ ih | absent _ _ _ ih =>
    intro m hm kind hkind hsymbol
    rcases Node.mem_preorderAll_cons.mp hm with rfl | hm | hm
    · exact List.forall_mem_nil _
    · cases hm
    · exact ih m hm kind hkind hsymbol
  | literal field made _ ih =>
    intro m hm kind hkind hsymbol
    have hleaves := literal_leaves made
    rcases Node.mem_preorderAll_cons.mp hm with rfl | hm | hm
    · obtain ⟨kind', hkind', hsymbol'⟩ := literal_kind made
      rw [Node.kind?, hsymbol'] at hsymbol
      cases hsymbol
      rcases List.mem_pair.mp hkind' with rfl | rfl <;> exact absurd hkind (by decide)
    · rw [Node.mem_preorderAll_leaves fun n hn => (hleaves n hn).1] at hm
      rw [(hleaves m hm).1]
      exact List.forall_mem_nil _
    · exact ih m hm kind hkind hsymbol
  | inner field children row nonempty orderly _ ihc ih =>
    intro m hm kind hkind hsymbol
    rcases Node.mem_preorderAll_cons.mp hm with rfl | hm | hm
    · cases hsymbol
      exact orderly.integral hkind
    · exact ihc m hm kind hkind hsymbol
    · exact ih m hm kind hkind hsymbol
  | @damage first behind _ _ _ _ _ field lt real _ _ ih =>
    intro m hm kind hkind hsymbol
    rcases Node.mem_preorderAll_cons.mp hm with rfl | hm | hm
    · cases hsymbol
      exact absurd hkind (by decide)
    · have hleaf : ∀ n ∈ (tokens.extract first behind).toList.map skippedLeaf, n.children = [] := by
        intro n hn
        obtain ⟨_, _, rfl⟩ := List.mem_map.mp hn
        rfl
      have hm := (Node.mem_preorderAll_leaves hleaf).mp hm
      rw [hleaf m hm]
      exact List.forall_mem_nil _
    · exact ih m hm kind hkind hsymbol

section Dressed
variable {source : String} {maxDepth : Nat} {id : Nat} {parent : Option Nat} {n c : Node}

theorem commentNode_kind? (comment : Comment) : (commentNode comment).kind? = some .comment ∨
    (commentNode comment).kind? = some .htmlComment := by
  rw [commentNode]
  cases comment.kind with
  | line | block => exact .inl rfl
  | html => exact .inr rfl

/-- A node that is neither the root nor a comment was made by the parser. -/
theorem Sits.made (h : Sits (dressedRoot source maxDepth) id parent n) {kind : NodeKind}
    (hkind : n.kind? = some kind) (hother : kind ∉ [.program, .comment, .htmlComment]) :
    n.extra = false ∧ n.strip ∈ Node.preorderAll (bareRoot source maxDepth).children := by
  have hne : id ≠ 0 := by
    rintro rfl
    obtain ⟨_, hsame⟩ := (dressedRoot_dressed source maxDepth).same
    rw [h.eq_root, hsame] at hkind
    cases hkind
    exact hother (by decide)
  rcases dressed_cases (h.mem_below hne) with ⟨comment, -, rfl⟩ | hmade
  · rcases commentNode_kind? comment with hcomment | hcomment <;>
    · rw [hcomment] at hkind
      cases hkind
      exact absurd (by decide) hother
  · exact hmade

/-- The numbers of a case or a range, comments or not. -/
theorem Sits.integer (h : Sits (dressedRoot source maxDepth) id parent n) {kind : NodeKind}
    (hmem : kind ∈ conditionKinds) (hkind : n.kind? = some kind) {child : Nat}
    (hc : Sits (dressedRoot source maxDepth) child (some id) c) (hchild : c ∈ n.children)
    (hnumber : c.kind? = some .number) : IsSignedDecimal (c.span.slice source) := by
  have hplain := (hc.made hnumber (by decide)).1
  have hother : kind ∉ [.program, .comment, .htmlComment] := by
    rcases List.mem_pair.mp hmem with rfl | rfl <;> decide
  have hintegral := (bareRoot_forest source maxDepth).1.integral _ (h.made hkind hother).2 kind hmem
    (by rwa [kind?_strip])
  have hstrip : c.strip ∈ n.strip.children := by
    rw [Node.strip_eq, Node.stripAll_eq]
    exact List.mem_map_of_mem (List.mem_filter.mpr ⟨hchild, by simp [hplain]⟩)
  have htext := (hintegral _ hstrip (Node.kind?_eq_some.mp ((kind?_strip c).trans hnumber))).text
  rwa [Node.strip_eq] at htext

/-- What a node that the parser made has in place of its row, in the order of its children. -/
theorem Sits.matches_ids (h : Sits (dressedRoot source maxDepth) id parent n) {kind : NodeKind}
    (hkind : n.kind? = some kind) (hother : kind ∉ [.program, .comment, .htmlComment])
    (hsound : ¬IsSkipped (.named kind)) (herror : kind ≠ .error) (problems : List Problem) :
    Matches kind.row (((Tree.ofRoot source (dressedRoot source maxDepth) problems).plainIds id).map
      (Tree.ofRoot source (dressedRoot source maxDepth) problems).node) := by
  have hsymbol := Node.kind?_eq_some.mp hkind
  have hlawful : Lawful n.strip := by
    rcases h.lawful with hextra | hlawful | ⟨⟨-, hskipped⟩, -⟩
    · rw [(h.made hkind hother).1] at hextra
      cases hextra
    · exact hlawful
    · exact absurd (hsymbol ▸ hskipped) hsound
  have hrow := hlawful.matches_plain (by rw [hsymbol]; exact fun h => herror (Symbol.named.inj h))
  have hchildren : ((Tree.ofRoot source (dressedRoot source maxDepth) problems).children id).toList.map
      (Tree.ofRoot source (dressedRoot source maxDepth) problems).node = n.children := h.map_children
  rw [hsymbol, ← hchildren, List.filter_map] at hrow
  exact hrow

theorem Matches.of_range {node : Nat → Node} {ids : List Nat}
    (h : Matches NodeKind.matchRange.row (ids.map node)) : ∃ first dots last,
      ids = [first, dots, last] ∧
      (node first).role ∈ Role.labelled .rangeStart (Role.plain [.number]) ∧
      (node dots).role ∈ Role.mark .dotDot ∧
      (node last).role ∈ Role.labelled .rangeEnd (Role.plain [.number]) := by
  match ids, h with
  | [first, dots, last], .one hfirst (.one hdots (.one hlast .nil)) =>
    exact ⟨first, dots, last, rfl, hfirst, hdots, hlast⟩

/-- The first and the last child of a range are its ends. -/
theorem Tree.isEnd_of_role {t : Tree} {field : Field} {child : Nat}
    (hrole : (t.node child).role ∈ Role.labelled field (Role.plain [.number]))
    (htext : t.kind? child = some .number → IsSignedDecimal (t.text child)) :
    t.IsEnd child field := by
  obtain ⟨hfield, hsymbol⟩ := Prod.mk.inj (List.mem_singleton.mp hrole)
  have hkind : t.kind? child = some .number := Node.kind?_eq_some.mpr hsymbol
  exact ⟨hkind, hfield, htext hkind⟩

theorem dressed_conditioned (source : String) (maxDepth : Nat) (problems : List Problem) :
    Conditioned (.ofRoot source (dressedRoot source maxDepth) problems) := by
  let t := Tree.ofRoot source (dressedRoot source maxDepth) problems
  have hnumbers : ∀ id < t.nodeCount, ∀ kind ∈ conditionKinds, t.kind? id = some kind →
      ∀ child ∈ t.children id, t.kind? child = some .number → IsSignedDecimal (t.text child) := by
    intro id hid kind hmem hkind child hchild hnumber
    obtain ⟨parent, n, hn⟩ := Sits.exists_of_lt (nodeCount_ofRoot ▸ hid)
    obtain ⟨c, hc, hsits⟩ := hn.of_mem_children hchild
    rw [Tree.kind?, hn.node_eq] at hkind
    rw [Tree.kind?, hsits.node_eq] at hnumber
    rw [Tree.text, hsits.node_eq]
    exact hn.integer hmem hkind hsits hc hnumber
  refine ⟨hnumbers, fun id hid hkind => ?_⟩
  obtain ⟨parent, n, hn⟩ := Sits.exists_of_lt (nodeCount_ofRoot ▸ hid)
  have hrange : n.kind? = some .matchRange := by
    rwa [Tree.kind?, hn.node_eq] at hkind
  have hunskipped : ¬IsSkipped (.named .matchRange) := by
    rintro ⟨kind, -, hsymbol⟩
    cases kind <;> cases hsymbol
  have hrow : Matches NodeKind.matchRange.row ((t.plainIds id).map t.node) :=
    hn.matches_ids hrange (by decide) hunskipped (by decide) problems
  have hchild (child : Nat) (h : child ∈ t.plainIds id) (hnumber : t.kind? child = some .number) :
      IsSignedDecimal (t.text child) :=
    hnumbers id hid .matchRange (by decide) hkind child
      (Array.mem_toList_iff.mp (List.mem_of_mem_filter h)) hnumber
  obtain ⟨first, dots, last, hids, hfirst, hdots, hlast⟩ := Matches.of_range hrow
  exact ⟨first, dots, last, hids, Tree.isEnd_of_role hfirst (hchild first (by simp [hids])),
    congrArg Prod.snd (List.mem_singleton.mp hdots),
    Tree.isEnd_of_role hlast (hchild last (by simp [hids]))⟩

end Dressed

/-- **Match conditions hold only signed decimal integers**: the numbers in a case, and in a range both
numbers, which stand in this order in front of the dots and behind them. -/
theorem parse_conditioned (source : String) (options : ParseOptions) :
    Conditioned (parse source options) := by
  rcases parse_cases source options with h | ⟨problems, h⟩
  · rw [h]
    exact dressed_conditioned ..
  · rw [h]
    have hroot : Sits (rootNode source.utf8ByteSize []) 0 none _ := .root
    refine ⟨fun id hid kind hmem hkind child hchild => ?_, fun id hid hkind => ?_⟩
    all_goals
      rw [nodeCount_ofRoot] at hid
      obtain rfl := Nat.lt_one_iff.mp hid
    · rw [hroot.children_eq] at hchild
      cases List.mem_toArray.mp hchild
    · rw [Tree.kind?, hroot.node_eq] at hkind
      cases hkind

end ScriptTree
