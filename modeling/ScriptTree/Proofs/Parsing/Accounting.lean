import Mathlib
import ScriptTree.Proofs.Parsing.Outcome

/-! What is reported and what a tree shows of it.

`Accounted` compares the damage in a tree with the problems that come with it, in both directions:
every made-up mark and every stretch of damage has a report of its own, every string or regular
expression without an end has the report of the lexer, and what the parser reports leaves damage.
`parse_accounted` says so of every parse that is not refused. -/
namespace ScriptTree

open Parsing

/-- The nodes that show damage which the parser reports where it makes them, in preorder. -/
def Tree.marks (t : Tree) : List Nat := (List.range t.nodeCount).filter fun id => (t.node id).isMark

/-- Whether the damage in a tree and the problems that come with it account for each other. -/
structure Accounted (source : String) (t : Tree) : Prop where
  /-- Marks have reports, each one its own. -/
  marks : ∃ reports, List.Forall₂ (fun id problem => Reports (lex source).tokens (t.node id) problem)
    t.marks reports ∧ reports.Subperm t.problems
  /-- Any other missing node closes a string or regular expression that was reported to have no
  end. -/
  unended : ∀ id < t.nodeCount, (t.node id).missing = true → ¬ IsClosing (t.node id) →
    ∃ p, t.parent? id = some p ∧
      ((t.node p).symbol = .named .string ∧ ⟨.unterminatedString, (t.node p).span⟩ ∈ t.problems ∨
        (t.node p).symbol = .named .regex ∧ ⟨.unterminatedRegex, (t.node p).span⟩ ∈ t.problems)
  /-- What the parser reports leaves damage. -/
  damaged : ∀ problem ∈ t.problems, problem.cause.kind ≠ .lexical → t.nodeHasError 0 = true
  /-- Without a report there is no damage. -/
  sound : t.problems = [] → ∀ id < t.nodeCount, (t.node id).isDamaged = false

/-! ### Reports -/

theorem mem_sorted {problem : Problem} {problems : List Problem} :
    problem ∈ sorted problems ↔ problem ∈ problems :=
  (List.mergeSort_perm problems _).mem_iff

theorem Reports.of_strip {tokens : Array Token} {n : Node} {problem : Problem}
    (h : Reports tokens n.strip problem) : Reports tokens n problem := by
  rw [Node.strip_eq] at h
  cases h with
  | absent missing symbol place => exact .absent missing symbol place
  | damage symbol kind after behind before => exact .damage symbol kind after behind before

theorem isMark_strip (n : Node) : n.strip.isMark = n.isMark := by
  rw [Node.strip_eq]
  rfl

theorem isMark_of_closing {n : Node} (hmissing : n.missing = true) (h : IsClosing n) :
    n.isMark = true := by
  rcases h with h | h <;> simp [Node.isMark, hmissing, h]

section Dressed
variable {source : String} {maxDepth : Nat}

theorem isMark_commentNode (c : Comment) : (commentNode c).isMark = false := by
  rw [commentNode]
  cases c.kind <;> rfl

/-- Comments put in between change nothing about the marks. -/
theorem marksAll_bareRoot (source : String) (maxDepth : Nat) :
    marksAll (bareRoot source maxDepth).children =
      (marksAll (dressedRoot source maxDepth).children).map Node.strip := by
  have hmark : (fun n : Node => n.isMark) ∘ Node.strip = fun n => n.isMark := funext isMark_strip
  rw [marksAll, preorder_bareRoot, marksAll, List.filter_map, hmark, List.filter_filter]
  congr 1
  refine List.filter_congr fun m hm => ?_
  rcases dressed_cases hm with ⟨c, _, rfl⟩ | ⟨hplain, _⟩
  · rw [isMark_commentNode, Bool.false_and]
  · rw [hplain, Bool.not_false, Bool.and_true]

/-- The marks of a tree have reports, in the same order. -/
theorem dressed_reported (source : String) (maxDepth : Nat) :
    ∃ problems, List.Forall₂ (Reports (lex source).tokens)
        (marksAll (dressedRoot source maxDepth).children) problems ∧
      problems.Subperm (sorted (reports source maxDepth)) := by
  obtain ⟨problems, hreports, hsub⟩ :=
    (bareRoot_forest source maxDepth).1.reported (lex_isStream source)
  rw [marksAll_bareRoot, List.forall₂_map_left_iff] at hreports
  refine ⟨problems, hreports.imp fun _ _ => Reports.of_strip, ?_⟩
  have hperm := List.mergeSort_perm (reports source maxDepth)
    (fun p q : Problem => p.span.start ≤ q.span.start)
  exact (hsub.trans (List.sublist_append_right _ _)).subperm.trans hperm.symm.subperm

theorem map_marks (source : String) (maxDepth : Nat) (problems : List Problem) :
    ((Tree.ofRoot source (dressedRoot source maxDepth) problems).marks).map
        (Tree.ofRoot source (dressedRoot source maxDepth) problems).node =
      marksAll (dressedRoot source maxDepth).children := by
  set root := dressedRoot source maxDepth with hroot
  have hall : (List.range root.count).map (Tree.ofRoot source root problems).node =
      root.preorder := map_node_range
  have hplain : root.isMark = false := by
    obtain ⟨_, hsame⟩ := (dressedRoot_dressed source maxDepth).same
    rw [hroot, hsame]
    rfl
  have hmark : (fun id => ((Tree.ofRoot source root problems).node id).isMark) =
      Node.isMark ∘ (Tree.ofRoot source root problems).node := rfl
  rw [Tree.marks, nodeCount_ofRoot, hmark, ← List.filter_map, hall, Node.preorder_eq,
    List.filter_cons_of_neg (by simp [hplain])]
  rfl

/-- A missing leaf that closes no statement and no block is the end of a literal without one. -/
theorem Sits.unended {id : Nat} {parent : Option Nat} {n : Node}
    (h : Sits (dressedRoot source maxDepth) id parent n) (hmissing : n.missing = true)
    (hopen : ¬ IsClosing n) : ∃ pid above p, parent = some pid ∧
      Sits (dressedRoot source maxDepth) pid above p ∧
        (p.symbol = .named .string ∧
            ⟨.unterminatedString, p.span⟩ ∈ (lex source).problems.toList ∨
          p.symbol = .named .regex ∧
            ⟨.unterminatedRegex, p.span⟩ ∈ (lex source).problems.toList) := by
  have hid : id ≠ 0 := by
    rintro rfl
    obtain ⟨_, hsame⟩ := (dressedRoot_dressed source maxDepth).same
    rw [h.eq_root, hsame] at hmissing
    cases hmissing
  have hplain : n.extra = false := by
    rcases dressed_cases (h.mem_below hid) with ⟨c, hc, rfl⟩ | ⟨hplain, _⟩
    · rw [(isComment_commentNode hc).1.present] at hmissing
      cases hmissing
    · exact hplain
  obtain ⟨pid, above, p, before, after, hparent, hp, hchildren, _⟩ := h.parent_of_ne_zero hid
  obtain ⟨_, hstrip⟩ := hp.strip_child (by simp [hchildren]) hplain
  have hmissing' : n.strip.missing = true := by rw [Node.strip_eq, hmissing]
  have hopen' : ¬ IsClosing n.strip := by rwa [Node.strip_eq]
  refine ⟨pid, above, p, hparent, hp, ?_⟩
  rcases Nat.eq_zero_or_pos pid with rfl | hpos
  · -- The children of the root are statements and damage, and none of them is missing.
    rw [hp.eq_root, strip_dressedRoot] at hstrip
    exact absurd ((bareRoot_forest source maxDepth).1.missing_closing _ hstrip hmissing') hopen'
  · rcases dressed_cases (hp.mem_below hpos.ne') with ⟨c, hc, rfl⟩ | ⟨_, hbare⟩
    · rw [hp.leaf_of_extra (isComment_commentNode hc).1.extra] at hchildren
      simp at hchildren
    · have hfaithful := (bareRoot_faithful source maxDepth _ hbare).unended _ hstrip hmissing'
      rw [Node.strip_eq p] at hfaithful
      exact hfaithful.resolve_left hopen'

end Dressed

/-! ### Parses -/

/-- A parse that is not refused reports its damage, and shows what it reports. -/
theorem parse_accounted (source : String) (options : ParseOptions)
    (hfits : ∀ limit ∈ options.maxLength, source.utf8ByteSize ≤ limit) :
    Accounted source (parse source options) := by
  obtain ⟨problems, hreports, hsub⟩ := dressed_reported source options.maxDepth
  rw [parse_eq hfits]
  set t := Tree.ofRoot source (dressedRoot source options.maxDepth)
    (sorted (reports source options.maxDepth)) with ht
  have hmarks : ∃ problems, List.Forall₂
      (fun id problem => Reports (lex source).tokens (t.node id) problem) t.marks problems ∧
        problems.Subperm t.problems := by
    refine ⟨problems, ?_, hsub⟩
    rw [← map_marks source options.maxDepth (sorted (reports source options.maxDepth)),
      List.forall₂_map_left_iff] at hreports
    exact hreports
  have hunended : ∀ id < t.nodeCount, (t.node id).missing = true → ¬ IsClosing (t.node id) →
      ∃ p, t.parent? id = some p ∧
        ((t.node p).symbol = .named .string ∧ ⟨.unterminatedString, (t.node p).span⟩ ∈ t.problems ∨
          (t.node p).symbol = .named .regex ∧
            ⟨.unterminatedRegex, (t.node p).span⟩ ∈ t.problems) := by
    intro id hid hmissing hopen
    rw [ht, nodeCount_ofRoot] at hid
    obtain ⟨parent, n, hn⟩ := Sits.exists_of_lt hid
    rw [ht, hn.node_eq] at hmissing hopen
    obtain ⟨pid, above, p, hparent, hp, hkind⟩ := hn.unended hmissing hopen
    have hmem {problem : Problem} (h : problem ∈ (lex source).problems.toList) :
        problem ∈ t.problems := mem_sorted.mpr (List.mem_append_left _ h)
    refine ⟨pid, hn.parent_eq.trans hparent, ?_⟩
    rw [ht, hp.node_eq]
    exact hkind.imp (fun h => ⟨h.1, hmem h.2⟩) fun h => ⟨h.1, hmem h.2⟩
  refine ⟨hmarks, hunended, fun problem hproblem hkind => ?_, fun hnone id hid => ?_⟩
  · rcases List.mem_append.mp (mem_sorted.mp hproblem) with hlex | hparser
    · exact absurd (lex_problems_lexical source problem hlex) hkind
    · obtain ⟨m, hm, hdamaged⟩ :=
        (bareRoot_forest source options.maxDepth).1.damaged (List.ne_nil_of_mem hparser)
      rw [preorder_bareRoot, List.mem_map] at hm
      obtain ⟨n, hn, rfl⟩ := hm
      have hroot : (dressedRoot source options.maxDepth).holdsDamage = true := by
        rw [Node.holdsDamage_eq, Bool.or_eq_true, List.any_eq_true]
        refine .inr ⟨n, List.mem_of_mem_filter hn, ?_⟩
        rwa [Node.strip_eq] at hdamaged
      exact Sits.root.nodeHasError_eq.trans hroot
  · by_contra hdamaged
    rw [Bool.not_eq_false, Node.isDamaged, Bool.or_eq_true] at hdamaged
    have hplain : ∀ id' ∈ t.marks, False := by
      obtain ⟨problems, hreports, hsub⟩ := hmarks
      rw [hnone, List.subperm_nil] at hsub
      rw [hsub, List.forall₂_nil_right_iff] at hreports
      rw [hreports]
      nofun
    have hmark : (t.node id).isMark = false := by
      by_contra hmark
      exact hplain id (List.mem_filter.mpr ⟨List.mem_range.mpr hid, by simpa using hmark⟩)
    have hmissing : (t.node id).missing = true := by
      rcases hdamaged with hmissing | herror
      · exact hmissing
      · rw [Node.isMark, herror, Bool.true_or] at hmark
        cases hmark
    obtain ⟨p, _, hlexical⟩ := hunended id hid hmissing fun hclosing => by
      rw [isMark_of_closing hmissing hclosing] at hmark
      cases hmark
    rw [hnone] at hlexical
    rcases hlexical with ⟨_, h⟩ | ⟨_, h⟩ <;> cases h

/-- A source of two statements, the first without its semicolon and the second damaged, as long as
the limit. -/
theorem parse_accounted_at_limit :
    (∀ limit ∈ some 8, "f() 1 '".utf8ByteSize ≤ limit) ∧
      Accounted "f() 1 '" (parse "f() 1 '" { maxLength := some 8 }) := by
  have hfits : ∀ limit ∈ some 8, "f() 1 '".utf8ByteSize ≤ limit := by
    rintro limit ⟨⟩
    decide
  exact ⟨hfits, parse_accounted _ _ hfits⟩

end ScriptTree
