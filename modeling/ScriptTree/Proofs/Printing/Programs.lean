import Mathlib
import ScriptTree.Proofs.Mirror.Recovery
import ScriptTree.Proofs.Parsing.Grouping
import ScriptTree.Proofs.Printing.Writing
import ScriptTree.Proofs.Tree.Walking

/-! Programs of one statement.

A source that is written with the tokens of one statement has no problems, and its tree is that statement
under the root (`Lexeme.WrittenIn.parse_eq`). What a node's sketch has below it is found in the tree under
the number of the node (`Sits.exists_child?_of_sketch`). -/
namespace ScriptTree

open Parsing

/-! ### Statements that succeed -/

namespace Parsing.Yields
variable {scope : Scope} {k : TokenKind} {ks ks' : List TokenKind} {post : Node → Prop}

theorem atEnd : Yields scope atEnd (k :: ks) (k :: ks) (· = (k == .endOfFile)) :=
  fun s hs => ⟨_, s, rfl, hs, rfl, congrArg (· == .endOfFile) (kindAt_of_ahead hs)⟩

theorem statementOrError (h : Yields scope statement ks ks' post) :
    Yields scope statementOrError ks ks' fun o => ∃ n, o = some n ∧ post n := by
  intro s hs
  obtain ⟨n, s', hrun, hahead, hproblems, hn⟩ := h s hs
  exact ⟨some n, s', run_statementOrError_ok hrun, hahead, hproblems, n, rfl, hn⟩

/-- A program of one statement. -/
theorem statements (h : Yields scope statement (k :: ks) [.endOfFile] post) (hreal : k ≠ .endOfFile)
    (hless : ks ≠ []) :
    Yields scope (statements false #[]) (k :: ks) [.endOfFile] fun nodes => ∃ n, nodes = #[n] ∧
      post n := by
  refine (Loops.more ((?round : Yields scope _ _ [.endOfFile] _)) ?less).repeatFrom
  case less =>
    have := List.length_pos_of_ne_nil hless
    simpa using this
  case round =>
    refine Yields.atEnd.bind fun b hb => ?_
    rw [hb, beq_false_of_ne hreal]
    refine Yields.sees.bind fun b _ => ?_
    refine h.statementOrError.bind fun o ho => ?_
    obtain ⟨n, rfl, hn⟩ := ho
    refine .pure ⟨#[n], rfl, .done (Yields.atEnd.bind fun b hb => ?_)⟩
    subst hb
    exact .pure ⟨#[n], rfl, n, rfl, hn⟩

end Parsing.Yields

/-! ### Sketches in trees -/

/-- What a node of a tree is apart from its place. -/
def Tree.sketch (t : Tree) (id : Nat) : Sketch := (t.node id).sketch t.source

theorem rootNode_sketch (source : String) (length : Nat) (n : Node) :
    (rootNode length [n]).sketch source = .node .program [n.sketch source] := by
  rw [Node.sketch_eq]
  rfl

section Sits
variable {source : String} {root n : Node} {problems : List Problem} {id : Nat} {parent : Option Nat}
  {kind : NodeKind} {sketches : List Sketch} {s : Sketch}

theorem Sits.sketch_eq (h : Sits root id parent n) :
    (Tree.ofRoot source root problems).sketch id = n.sketch source := by
  rw [Tree.sketch, h.node_eq]
  rfl

theorem Sits.exists_child?_of_sketch (h : Sits root id parent n)
    (hn : n.sketch source = .node kind sketches) {i : Nat} (hs : sketches[i]? = some s) :
    ∃ child c, (Tree.ofRoot source root problems).child? id i = some child ∧
      Sits root child (some id) c ∧ c.sketch source = s := by
  rw [← (Node.of_sketch_eq hn).2, List.getElem?_map] at hs
  obtain ⟨c, hc, hsketch⟩ := Option.map_eq_some_iff.mp hs
  obtain ⟨hi, rfl⟩ := List.getElem?_eq_some_iff.mp hc
  have hsplit : n.children = n.children.take i ++ n.children[i] :: n.children.drop (i + 1) := by
    rw [← List.drop_eq_getElem_cons, List.take_append_drop]
  refine ⟨_, n.children[i], ?_, h.child hsplit, hsketch⟩
  rw [h.child?_eq, hc, Option.map_some]

theorem Sits.exists_childWithField_of_sketch (h : Sits root id parent n)
    (hn : n.sketch source = .node kind sketches) {field : Field}
    (hs : sketches.find? (·.field == some field) = some s) :
    ∃ child c, (Tree.ofRoot source root problems).childWithField? id field = some child ∧
      Sits root child (some id) c ∧ c.sketch source = s := by
  obtain ⟨c, hc, hsketch⟩ := Node.exists_childAt?_of_sketch hn hs
  obtain ⟨child, hchild, hbelow⟩ := h.exists_childWithField hc
  exact ⟨child, c, hchild, hbelow, hsketch⟩

end Sits

/-! ### Sources -/

namespace Lexeme

theorem tokenKind?_ne_endOfFile (l : Lexeme) (start : Nat) : l.tokenKind? start ≠ some .endOfFile := by
  cases l <;> simp [tokenKind?]

section Written
variable {source : String} {ls : List Lexeme} {maxDepth : Nat} {post : Node → Prop}
  (h : WrittenIn source ls) (hne : ls.filterMap (·.tokenKind? 0) ≠ [])
  (hstatement : Yields (.withLevels (lex source).tokens maxDepth maxDepth) Parsing.statement
    (ls.filterMap (·.tokenKind? 0) ++ [.endOfFile]) [.endOfFile] post)
include h hne hstatement

theorem WrittenIn.runProgram_eq : ∃ n, post n ∧ (runProgram (lex source).tokens maxDepth).1 = #[n] ∧
    (runProgram (lex source).tokens maxDepth).2.problems = #[] := by
  obtain ⟨k, ks, hks⟩ := List.exists_cons_of_ne_nil hne
  have hreal : k ≠ .endOfFile := by
    rintro rfl
    have hmem : .endOfFile ∈ ls.filterMap (·.tokenKind? 0) := hks ▸ List.mem_cons_self ..
    obtain ⟨l, _, hl⟩ := List.mem_filterMap.mp hmem
    exact l.tokenKind?_ne_endOfFile 0 hl
  have hkinds := h.kinds
  rw [hks, List.cons_append] at hstatement hkinds
  obtain ⟨nodes, final, hrun, _, hproblems, n, rfl, hn⟩ :=
    hstatement.statements hreal (by simp) {} hkinds
  have hsame : runProgram (lex source).tokens maxDepth = (#[n], final) := by
    unfold runProgram
    rw [show (program (lex source).tokens maxDepth).run {} = _ from hrun]
  exact ⟨n, hn, by rw [hsame], by rw [hsame]; exact hproblems⟩

/-- The tree of one statement. -/
theorem WrittenIn.parse_eq : ∃ n, post n ∧
    parse source { maxDepth } = .ofRoot source (rootNode source.utf8ByteSize [n]) [] := by
  obtain ⟨n, hn, hnodes, hreported⟩ := h.runProgram_eq hne hstatement
  refine ⟨n, hn, ?_⟩
  have hroot : dressedRoot source maxDepth = rootNode source.utf8ByteSize [n] := by
    rw [dressedRoot, commentNodes, h.comments, bareRoot, hnodes]
    rfl
  have hparse : parse source { maxDepth } =
      .ofRoot source (dressedRoot source maxDepth) (sorted (reports source maxDepth)) :=
    ScriptTree.parse_eq fun _ hlimit => by cases hlimit
  rw [hparse, reports, h.problems, hreported, hroot]
  exact congrArg (Tree.ofRoot _ _) List.mergeSort_nil

end Written

end Lexeme

end ScriptTree
