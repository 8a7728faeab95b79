import Mathlib
import ScriptTree.Proofs.Mirror.Displacement
import ScriptTree.Proofs.Parsing.Geometry
import ScriptTree.Proofs.Text.Lines
import ScriptTree.Proofs.Token.Fixes
import ScriptTree.Proofs.Token.LineEndings

/-! Sources rewritten without a difference to the tree.

Where a loose spelling is reported, the strict operator is advised. A source in which the advice is
followed has the same tokens and comments further on, no other reports than the rest of those that it
had, and a tree of the same form (`parse_withStrictEquality`).

A source and the same source with a carriage return in front of every line feed have trees that look
alike (`parse_withCarriageReturns`): offsets differ, but as a carriage return stands at the end of its
row, rows and columns do not. -/
namespace ScriptTree

open Parsing

/-! ### Strict equality -/

theorem withStrictEquality_displaced (source : String) :
    ∃ place, Displaced place source (withStrictEquality source) ∧
      (lex (withStrictEquality source)).problems.toList =
        ((lex source).problems.toList.filter (·.strict?.isNone)).map (Problem.relocate place) := by
  obtain ⟨place, hmono, hstart, hstop, htokens, hcomments, hproblems, hmarks⟩ :=
    lex_withStrictEquality source
  exact ⟨place, ⟨hmono, hstart, hstop, htokens, hcomments, hmarks⟩, hproblems⟩

/-- **Strict operators may be put in the place of loose spellings**: tokens and comments are the same
further on, the other reports of the lexer remain, and the tree has the same form. -/
theorem parse_withStrictEquality (source : String) (maxDepth : Nat) : ∃ place, StrictMono place ∧
    (lex (withStrictEquality source)).tokens.toList =
      (lex source).tokens.toList.map (Token.relocate place) ∧
    (lex (withStrictEquality source)).comments.toList =
      (lex source).comments.toList.map (Comment.relocate place) ∧
    (lex (withStrictEquality source)).problems.toList =
      ((lex source).problems.toList.filter (·.strict?.isNone)).map (Problem.relocate place) ∧
    ((parse (withStrictEquality source) { maxDepth }).node 0).sexp =
      ((parse source { maxDepth }).node 0).sexp := by
  obtain ⟨place, hdisplaced, hproblems⟩ := withStrictEquality_displaced source
  refine ⟨place, hdisplaced.strictMono, hdisplaced.tokens, hdisplaced.comments, hproblems, ?_⟩
  have hroot (source : String) : (parse source { maxDepth }).node 0 = dressedRoot source maxDepth := by
    rw [parse_eq (by simp)]
    exact Sits.root.node_eq
  rw [hroot, hroot, hdisplaced.dressedRoot_eq, Node.sexp_relocate]

example : withStrictEquality "if (a == b) c != `==`;" = "if (a === b) c !== `==`;" := by
  decide +kernel

/-! ### Carriage returns -/

/-- Whether two trees differ in offsets only, and not in rows and columns. -/
structure Tree.LooksLike (t t' : Tree) : Prop where
  sexp : (t.node 0).sexp = (t'.node 0).sexp
  count : t.nodeCount = t'.nodeCount
  node : ∀ id < t.nodeCount, (t.node id).symbol = (t'.node id).symbol ∧
    (t.node id).field = (t'.node id).field ∧ (t.node id).missing = (t'.node id).missing ∧
    (t.node id).extra = (t'.node id).extra ∧ t.nodeHasError id = t'.nodeHasError id
  links : ∀ id < t.nodeCount, (t.entry id).parent = (t'.entry id).parent ∧
    (t.entry id).children = (t'.entry id).children
  points : ∀ id < t.nodeCount, t.startPoint id = t'.startPoint id ∧ t.stopPoint id = t'.stopPoint id
  causes : t.problems.map Problem.cause = t'.problems.map Problem.cause

/-! ### Points -/

theorem foldl_behind_respell (p : Point) (cs : List Char) :
    (respell crlf cs).foldl Point.behind p = cs.foldl Point.behind p := by
  induction cs generalizing p with
  | nil => rfl
  | cons c cs ih =>
    rw [respell_cons, List.foldl_append, ih, List.foldl_cons]
    congr 1
    by_cases hc : c = '\n'
    · subst hc
      rfl
    · rw [if_neg hc]
      rfl

/-- Where an offset is moved to, the row and the column are the same. -/
theorem point_carriedOffset {source : String} {offset : Nat}
    (h : (⟨offset⟩ : String.Pos.Raw).IsValid source) :
    (LineIndex.ofString (withCarriageReturns source)).point (carriedOffset source offset) =
      (LineIndex.ofString source).point offset := by
  obtain ⟨front, back, hsource, rfl⟩ := exists_split_of_isValid h
  have hoffset : carriedOffset source (byteLength front) = byteLength (respell crlf front) := by
    have := respelledOffset_respells crlf source.toList front ⟨back, hsource⟩
    rwa [Nat.zero_add, Nat.zero_add] at this
  rw [LineIndex.ofString, LineIndex.ofString, LineIndex.point_eq, LineIndex.point_eq, hoffset,
    withCarriageReturns, String.toList_ofList, ← hsource, respell_append, Point.through_append,
    Point.through_append, foldl_behind_respell]

/-! ### Trees -/

theorem withCarriageReturns_displaced {source : String} (hcr : '\r' ∉ source.toList) :
    Displaced (carriedOffset source) source (withCarriageReturns source) := by
  obtain ⟨htokens, hcomments, _, hmarks⟩ := lex_withCarriageReturns hcr
  exact ⟨carriedOffset_strictMono source, carriedOffset_zero source, carriedOffset_end source, htokens,
    hcomments, hmarks⟩

theorem reports_withCarriageReturns {source : String} (hcr : '\r' ∉ source.toList) (maxDepth : Nat) :
    reports (withCarriageReturns source) maxDepth =
      (reports source maxDepth).map (Problem.relocate (carriedOffset source)) := by
  obtain ⟨_, _, hproblems, _⟩ := lex_withCarriageReturns hcr
  rw [reports, reports, hproblems, ((withCarriageReturns_displaced hcr).runProgram_eq maxDepth).2,
    List.map_append]

/-- The entries of a tree whose offsets are moved. -/
theorem entry_relocate (place : Nat → Nat) (source source' : String) (root : Node)
    (problems problems' : List Problem) {id : Nat} (hid : id < root.count) :
    (Tree.ofRoot source' (root.relocate place) problems').entry id =
      ((Tree.ofRoot source root problems).entry id).relocate place := by
  have hsize : (Entry.ofRoot root).size = root.count := by
    rw [Entry.ofRoot_eq, List.size_toArray, Entry.length_subtree]
  have hid' : id < (Entry.ofRoot root).size := hsize ▸ hid
  show ((Entry.ofRoot (root.relocate place)).getD id default) =
    ((Entry.ofRoot root).getD id default).relocate place
  rw [Entry.ofRoot_relocate, Array.getD, Array.getD, dif_pos hid',
    dif_pos (by rwa [Array.size_map])]
  exact Array.getElem_map ..

/-- **Line endings make no difference**: with carriage returns in front of its line feeds, a source is
read alike. -/
theorem parse_withCarriageReturns {source : String} (hcr : '\r' ∉ source.toList) (maxDepth : Nat) :
    (parse source { maxDepth }).LooksLike (parse (withCarriageReturns source) { maxDepth }) := by
  have hdisplaced := withCarriageReturns_displaced hcr
  have hparse (source : String) : parse source { maxDepth } =
      .ofRoot source (dressedRoot source maxDepth) (sorted (reports source maxDepth)) :=
    parse_eq (by simp)
  have hgeometry : Geometry source (.ofRoot source (dressedRoot source maxDepth)
      (sorted (reports source maxDepth))) := (dressedRoot_fitting source maxDepth).geometry
  rw [hparse, hparse, hdisplaced.dressedRoot_eq, reports_withCarriageReturns hcr,
    sorted_relocate hdisplaced.strictMono]
  generalize dressedRoot source maxDepth = root at hgeometry ⊢
  generalize sorted (reports source maxDepth) = problems at hgeometry ⊢
  have hcount : (Tree.ofRoot source root problems).nodeCount = root.count := nodeCount_ofRoot
  have hentry {id : Nat} (hid : id < (Tree.ofRoot source root problems).nodeCount) := by
    rw [hcount] at hid
    exact entry_relocate (carriedOffset source) source (withCarriageReturns source) root problems
      (problems.map (Problem.relocate (carriedOffset source))) hid
  refine ⟨?_, ?_, fun id hid => ?_, fun id hid => ?_, fun id hid => ?_, ?_⟩
  · rw [Sits.root.node_eq, Sits.root.node_eq, Node.sexp_relocate]
  · rw [nodeCount_ofRoot, nodeCount_ofRoot, Node.count_relocate]
  · have := hentry hid
    simp [Tree.node, Tree.nodeHasError, this, Entry.relocate]
  · simp [hentry hid, Entry.relocate]
  · obtain ⟨_, _, hfits⟩ := hgeometry.span id hid
    constructor
    · rw [Tree.startPoint, Tree.startPoint, Tree.node, Tree.node, hentry hid, Entry.relocate,
        Node.relocate_span]
      exact (point_carriedOffset hfits.start).symm
    · rw [Tree.stopPoint, Tree.stopPoint, Tree.node, Tree.node, hentry hid, Entry.relocate,
        Node.relocate_span]
      exact (point_carriedOffset hfits.stop).symm
  · rw [Tree.ofRoot, Tree.ofRoot, List.map_map]
    rfl

/-- A line continuation in a template, a block comment and a missing semicolon. -/
theorem parse_withCarriageReturns_template :
    '\r' ∉ "a = `b\\\n`; /*\n*/ let c\n== d".toList ∧
      (parse "a = `b\\\n`; /*\n*/ let c\n== d").LooksLike
        (parse "a = `b\\\r\n`; /*\r\n*/ let c\r\n== d") := by
  have hcr : '\r' ∉ "a = `b\\\n`; /*\n*/ let c\n== d".toList := by decide
  exact ⟨hcr, parse_withCarriageReturns hcr 256⟩

end ScriptTree
