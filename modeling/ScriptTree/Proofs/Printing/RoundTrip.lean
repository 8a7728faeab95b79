import Mathlib
import ScriptTree.Proofs.Printing.Programs

/-! Terms are read back from their text.

A term is written as what is assigned to a name (`Term.assigned`), as it is no statement by itself. The
source has no problems, and what its only statement assigns is the term (`parse_assigned`). -/
namespace ScriptTree

open Parsing

namespace Term
variable {source : String} {tokens : Array Token} {maxDepth : Nat} {e : Term}

/-- Whether a node assigns a term. -/
def IsAssignedBy (source : String) (e : Term) (n : Node) : Prop :=
  n.kind? = some .assignmentExpression ∧
    ∃ right, n.childAt? .right = some right ∧ right.term? source = some e

/-- The rest of an assignment whose right side is a term. -/
theorem ReadsBinary.assignmentRest (h : ReadsBinary source tokens maxDepth e) (hproper : e.Proper)
    {levels : Nat} (hlevels : e.lexemes.length ≤ levels) {target : Node} {rest : List TokenKind} :
    Yields (.withLevels tokens maxDepth levels) (Parsing.assignmentRest target)
      (.operator .assign :: (e.kinds ++ .punctuation .semicolon :: rest)) rest
      (e.IsAssignedBy source) := by
  refine Yields.expectOperator.bind fun sign hsign => ?_
  refine (h.descend hproper hlevels (fun _ _ => Nat.zero_le _) (Nat.zero_le _)
    (.of_mark 0 (by simp))).bind fun value hvalue => ?_
  refine Yields.expectOrMissing.bind fun stop _ => Yields.node.mono fun n hn => ?_
  obtain ⟨i, _, rfl⟩ := hsign
  subst hn
  exact ⟨rfl, value.withField .right, rfl, by rwa [Node.term?_withField]⟩

/-- The assignment of a term is a statement, two levels above the term. -/
theorem ReadsBinary.statement (h : ReadsBinary source tokens maxDepth e) (hproper : e.Proper)
    {levels : Nat} (hlevels : e.lexemes.length ≤ levels) {name : String} {rest : List TokenKind} :
    Yields (.withLevels tokens maxDepth (levels + 2)) Parsing.statement
      (.identifier name :: .operator .assign :: (e.kinds ++ .punctuation .semicolon :: rest)) rest
      (e.IsAssignedBy source) := by
  have hunary : Yields (.withLevels tokens maxDepth levels) Parsing.unary
      (.identifier name :: .operator .assign :: (e.kinds ++ .punctuation .semicolon :: rest)) rest
      (e.IsAssignedBy source) := by
    refine Yields.peekKind.bind fun kind hkind => ?_
    subst hkind
    refine (Yields.operand_name name (by simp)).bind fun n hn => Yields.peekKind.bind fun kind hkind => ?_
    subst hkind
    obtain ⟨i, _, rfl⟩ := hn
    exact h.assignmentRest hproper hlevels
  have hexpression : Yields (.withLevels tokens maxDepth levels) (Parsing.binary 0)
      (.identifier name :: .operator .assign :: (e.kinds ++ .punctuation .semicolon :: rest)) rest
      (e.IsAssignedBy source) := by
    refine hunary.bind fun n hn => (Loops.done ?_).repeatFrom
    rw [operateOn, show isAssignment n = true by simp [isAssignment, hn.1]]
    exact .pure ⟨n, rfl, hn⟩
  have hstatement : Yields (.withLevels tokens maxDepth (levels + 1)) anyStatement
      (.identifier name :: .operator .assign :: (e.kinds ++ .punctuation .semicolon :: rest)) rest
      (e.IsAssignedBy source) := by
    refine Yields.peekKind.bind fun kind hkind => ?_
    subst hkind
    refine Yields.peek.bind fun _ _ => Yields.bind (m := expression) hexpression fun n hn => ?_
    rw [hn.1]
    exact .pure hn
  exact hstatement

/-! ### Sources -/

/-- The tokens of the assignment of a term to a name. -/
def assignment (name : String) (e : Term) : List Lexeme :=
  .identifier name.toList :: .operator .assign :: (e.lexemes ++ [.punctuation .semicolon])

/-- The assignment of a term to a name, with a space between its tokens. -/
def assigned (name : String) (e : Term) : String := .ofList (Lexeme.spaced (e.assignment name))

section Assigned
variable {name : String} (hname : isName name = true) (h : e.Proper)
include hname h

theorem writtenIn_assigned : Lexeme.WrittenIn (e.assigned name) (e.assignment name) := by
  refine Lexeme.writtenIn_spaced ?_ ⟨by simp, by simp, h.divides _ ⟨by simp, trivial⟩⟩
  refine List.forall_mem_cons.mpr ⟨Lexeme.writable_identifier hname, List.forall_mem_cons.mpr
    ⟨Lexeme.writable_operator (o := .assign) rfl, List.forall_mem_append.mpr ⟨h.writable, ?_⟩⟩⟩
  exact List.forall_mem_singleton.mpr (Lexeme.writable_punctuation (by simp))

omit hname h in
theorem kinds_assignment : (e.assignment name).filterMap (·.tokenKind? 0) =
    .identifier name :: .operator .assign :: (e.kinds ++ [.punctuation .semicolon]) := by
  simp [assignment, kinds]

/-- No token of an assigned term is a colon. -/
theorem lex_assigned_colon (i : Nat) :
    (kindAt (lex (e.assigned name)).tokens i).isPunctuation .colon = false := by
  refine beq_false_of_ne fun hcolon => ?_
  have hmem : .punctuation .colon ∈ (lex (e.assigned name)).tokens.toList.map Token.kind := by
    rcases Nat.lt_or_ge i (lex (e.assigned name)).tokens.size with hi | hi
    · rw [kindAt_eq_getElem hi] at hcolon
      exact List.mem_map.mpr ⟨_, Array.getElem_mem_toList hi, hcolon⟩
    · rw [kindAt, tokenAt, Array.getD_eq_getD_getElem?, Array.getElem?_eq_none hi] at hcolon
      cases hcolon
  have hterm : .punctuation .colon ∈ e.kinds := by
    rw [(writtenIn_assigned hname h).kinds, kinds_assignment] at hmem
    simpa using hmem
  obtain ⟨l, hl, hkind⟩ := List.mem_filterMap.mp hterm
  revert hkind
  have hall : ∀ l ∈ e.lexemes, l.tokenKind? 0 ≠ some (.punctuation .colon) := by
    refine h.forall_lexemes (by simp [Lexeme.tokenKind?]) (by simp [Lexeme.tokenKind?])
      (fun o _ => ?_) fun mark hmark => ?_
    · rw [o.tokenKind?_lexeme]
      exact fun hcolon => o.tokenKind_ne_punctuation _ (Option.some.inj hcolon)
    · rintro hcolon
      cases hcolon
      exact absurd hmark (by decide)
  exact hall l hl

/-- The tree of an assigned term is one statement. -/
theorem parse_assigned_eq {maxDepth : Nat} (hdepth : e.lexemes.length + 2 ≤ maxDepth) :
    ∃ n, e.IsAssignedBy (e.assigned name) n ∧ parse (e.assigned name) { maxDepth } =
      .ofRoot (e.assigned name) (rootNode (e.assigned name).utf8ByteSize [n]) [] := by
  have hwritten := writtenIn_assigned hname h
  have hreads : Reads (e.assigned name) (lex (e.assigned name)).tokens maxDepth e :=
    h.reads hwritten.spells (lex_assigned_colon hname h)
  obtain ⟨levels, rfl⟩ : ∃ levels, maxDepth = levels + 2 := ⟨maxDepth - 2, by omega⟩
  refine hwritten.parse_eq (by simp [kinds_assignment]) ?_
  rw [kinds_assignment, List.cons_append, List.cons_append, List.append_assoc]
  exact hreads.asBinary.statement h (Nat.le_of_add_le_add_right hdepth)

end Assigned

end Term

/-- A term with no more brackets than it needs is read back from its text, given a level for each token
and four more. -/
theorem parse_assigned {e : Term} (h : e.Proper) {name : String} (hname : isName name = true)
    {maxDepth : Nat} (hdepth : e.lexemes.length + 4 ≤ maxDepth) :
    let tree := parse (e.assigned name) { maxDepth }
    tree.problems = [] ∧ ∃ statement right, tree.children 0 = #[statement] ∧
      tree.kind? statement = some .assignmentExpression ∧
      tree.childWithField? statement .right = some right ∧
      (tree.node right).term? tree.source = some e := by
  intro tree
  obtain ⟨n, ⟨hkind, right, hright, hterm⟩, htree⟩ :=
    Term.parse_assigned_eq hname h ((Nat.le_add_right _ 2).trans hdepth)
  have hsits : Sits (rootNode (e.assigned name).utf8ByteSize [n]) 1 (some 0) n :=
    @Sits.child _ 0 none _ [] n [] .root rfl
  obtain ⟨child, hchild, hbelow⟩ := hsits.exists_childWithField hright
  rw [show tree = _ from htree]
  refine ⟨rfl, 1, child, Sits.root.children_eq, ?_, hchild, ?_⟩
  · rw [Tree.kind?, hsits.node_eq]
    exact hkind
  · rw [hbelow.node_eq]
    exact hterm

/-- A term with a call, a member, operators of both kinds and all groupings. -/
def Term.sample : Term :=
  .binary .minus
    (.binary .divide
      (.call (.call (.identifier "f") [.number "1", .unary .typeOf (.member (.number "2") "length")]) [])
      (.parenthesized (.binary .plus (.identifier "a") (.number "3"))))
    (.binary .power (.unary .minus (.identifier "b")) (.binary .power (.identifier "c") (.number "4")))

theorem Term.sample_proper : Term.sample.Proper :=
  .binary rfl (by decide) (by decide)
    (.binary rfl (by decide) (by decide)
      (.call rfl
        (.call rfl (.identifier (by decide)) (List.forall_mem_cons.mpr ⟨.number (by decide),
          List.forall_mem_singleton.mpr (.unary (by decide) (by decide)
            (.member rfl (.number (by decide)) (by decide)))⟩))
        nofun)
      (.parenthesized
        (.binary rfl (by decide) (by decide) (.identifier (by decide)) (.number (by decide)))))
    (.binary rfl (by decide) (by decide) (.unary (by decide) (by decide) (.identifier (by decide)))
      (.binary rfl (by decide) (by decide) (.identifier (by decide)) (.number (by decide))))

theorem parse_assigned_sample : Term.sample.Proper ∧ isName "x" = true ∧
    Term.sample.lexemes.length + 4 ≤ 256 ∧
    ∃ statement right, (parse (Term.sample.assigned "x")).problems = [] ∧
      (parse (Term.sample.assigned "x")).childWithField? statement .right = some right ∧
      ((parse (Term.sample.assigned "x")).node right).term?
        (parse (Term.sample.assigned "x")).source = some Term.sample := by
  have hname : isName "x" = true := by decide +kernel
  have hdepth : Term.sample.lexemes.length + 4 ≤ 256 := by decide +kernel
  obtain ⟨hproblems, statement, right, _, _, hright, hterm⟩ :=
    parse_assigned Term.sample_proper hname hdepth
  exact ⟨Term.sample_proper, hname, hdepth, statement, right, hproblems, hright, hterm⟩

end ScriptTree
