import Mathlib
import ScriptTree.Proofs.Mirror.Displacement
import ScriptTree.Proofs.Mirror.Sequence
import ScriptTree.Proofs.Token.Joining

/-! Sources joined by a line feed.

A source without problems whose last token is a semicolon leaves nothing behind: what follows in the
next line is parsed as if it stood alone. Its own tokens go on in the joined source (`Complete.goesOn`),
so its statements are the first ones there; behind them the parser is in lockstep with a parse of the
second source (`Complete.valid`), and every offset is moved by the length of what stands in front
(`parse_joined`).

The same is true of a broken statement up to its semicolon, if no problem reaches over that
(`parse_joined_broken`). -/
namespace ScriptTree

open Parsing

namespace Parsing

theorem tokenAt_toList (tokens : Array Token) (i : Nat) :
    tokenAt tokens i = tokens.toList[i]?.getD ⟨.endOfFile, .empty 0⟩ := by
  simp [tokenAt, Array.getD_eq_getD_getElem?]

/-- A parse of the second source, and of what it is in the joined one, where something may have been
reported earlier. A mark is made up only behind the first token. -/
def Lockstep.behind (first second : String) (earlier : List Problem) : Lockstep where
  left := (lex second).tokens
  right := (lex (joined first second)).tokens
  shift := (lex first).tokens.size - 1
  place := joinedOffset first
  place' := id
  faithful := True
  earlier := earlier
  live s := ∀ p ∈ s.problems.toList, p.cause.kind = .missing →
    ∃ j, 0 < j ∧ j < (lex second).tokens.size ∧ p.span = .empty (stopBefore (lex second).tokens j)

end Parsing

/-- No statement is made up. -/
theorem bareRoot_present {source : String} {maxDepth : Nat} :
    ∀ n ∈ (bareRoot source maxDepth).children, n.missing = false := by
  intro n hn
  obtain ⟨hforest, hroles⟩ := bareRoot_forest source maxDepth
  by_contra hmissing
  have hclosing := hforest.missing_closing n hn (Bool.eq_true_of_not_eq_false hmissing)
  have hnone : ∀ role ∈ Role.recovered, role.2 ≠ .punctuation .semicolon ∧
      role.2 ≠ .punctuation .rightBrace := by decide
  exact hclosing.elim (hnone _ (hroles n hn)).1 (hnone _ (hroles n hn)).2

/-- What stands at the top of a tree stands within the source. -/
theorem dressedRoot_within {source : String} {maxDepth : Nat} :
    ∀ n ∈ (dressedRoot source maxDepth).children,
      n.span.start ≤ n.span.stop ∧ n.span.stop ≤ source.utf8ByteSize := by
  intro n hn
  obtain ⟨stop, hstop, hlaid⟩ := (dressedRoot_dressed source maxDepth).encloses.laid
  obtain ⟨_, hsame⟩ := (dressedRoot_dressed source maxDepth).same
  rw [hsame] at hstop
  exact ⟨(hlaid.mem hn).2.1, (hlaid.mem hn).2.2.trans hstop⟩

/-- Whether the last token of a source is a semicolon and nothing is reported that does harm behind
that. -/
structure Complete (source : String) (maxDepth : Nat) : Prop where
  lexed : (lex source).problems = #[]
  calm : Calm (lex source).tokens (runProgram (lex source).tokens maxDepth).2
  last : (lex source).tokens.toList.dropLast.getLast?.map Token.kind = some (.punctuation .semicolon)

namespace Complete
variable {first : String} {maxDepth : Nat} (h : Complete first maxDepth) (second : String)
include h

theorem lex_joined : (lex (joined first second)).tokens.toList = (lex first).tokens.toList.dropLast ++
        (lex second).tokens.toList.map (Token.relocate (joinedOffset first)) ∧
      (lex (joined first second)).comments.toList = (lex first).comments.toList ++
        (lex second).comments.toList.map (Comment.relocate (joinedOffset first)) ∧
      (lex (joined first second)).problems.toList =
        (lex second).problems.toList.map (Problem.relocate (joinedOffset first)) := by
  refine ScriptTree.lex_joined h.lexed (fun t ht => ?_) second
  have hlast := h.last
  rw [Option.mem_def.mp ht] at hlast
  rw [Option.some.inj hlast]
  rfl

/-! ### Tokens -/

theorem size_joined : (lex second).tokens.size + ((lex first).tokens.size - 1) =
    (lex (joined first second)).tokens.size := by
  have hlength := congrArg List.length (h.lex_joined second).1
  simp only [Array.length_toList, List.length_append, List.length_dropLast, List.length_map] at hlength
  omega

theorem tokenAt_front {i : Nat} (hi : i + 1 < (lex first).tokens.size) :
    tokenAt (lex (joined first second)).tokens i = tokenAt (lex first).tokens i := by
  have hi' : i < (lex first).tokens.toList.dropLast.length := by
    rw [List.length_dropLast, Array.length_toList]
    omega
  rw [tokenAt_toList, tokenAt_toList, (h.lex_joined second).1, List.getElem?_append_left hi',
    List.getElem?_dropLast, Array.length_toList, if_pos (by omega)]

theorem tokenAt_behind {i : Nat} (hi : i < (lex second).tokens.size) :
    tokenAt (lex (joined first second)).tokens (i + ((lex first).tokens.size - 1)) =
      (tokenAt (lex second).tokens i).relocate (joinedOffset first) := by
  have hlength : (lex first).tokens.toList.dropLast.length = (lex first).tokens.size - 1 := by
    rw [List.length_dropLast, Array.length_toList]
  have hget : (lex second).tokens.toList[i]? = some (tokenAt (lex second).tokens i) := by
    simp [tokenAt, Array.getD_eq_getD_getElem?, hi]
  rw [tokenAt_toList, (h.lex_joined second).1, List.getElem?_append_right (by omega), hlength,
    Nat.add_sub_cancel, List.getElem?_map, hget]
  rfl

theorem goesOn : GoesOn (lex first).tokens (lex (joined first second)).tokens where
  streamLeft := lex_isStream first
  streamRight := lex_isStream _
  size_le := by
    have := h.size_joined second
    have := (lex_isStream second).nonempty
    omega
  same _ hi := h.tokenAt_front second hi
  last i hi := by
    obtain ⟨t, ht, hkind⟩ := Option.map_eq_some_iff.mp h.last
    have hlength : (lex first).tokens.toList.dropLast.length = i + 1 := by
      rw [List.length_dropLast, Array.length_toList]
      omega
    rw [List.getLast?_eq_getElem?, hlength, List.getElem?_dropLast, Array.length_toList,
      if_pos (by omega), Nat.add_sub_cancel] at ht
    rw [kindAt, tokenAt_toList, ht]
    exact hkind
  closed i hopen := by
    by_cases hclean : (runProgram (lex first).tokens maxDepth).2.problems = #[]
    · exact runProgram_closes (lex_isStream first) hclean hopen
    · have hi : i < (lex first).tokens.size := lt_size_of_real (bracket_real hopen)
      rw [(h.calm.plain hclean).flat i hi] at hopen
      cases hopen

theorem valid (earlier : List Problem) : (Lockstep.behind first second earlier).Valid where
  place := (joinedOffset_strictMono first).monotone
  place' := monotone_id
  streamLeft := lex_isStream second
  streamRight := lex_isStream _
  size := h.size_joined second
  agree i hi := by
    show (Lockstep.behind first second earlier).Agree (tokenAt (lex second).tokens i)
      (tokenAt (lex (joined first second)).tokens (i + ((lex first).tokens.size - 1)))
    rw [h.tokenAt_behind second hi]
    exact Lockstep.agree_relocate rfl (joinedOffset_strictMono first) fun offset _ =>
      Nat.add_right_comm ..
  touching i hsign hnumber := by
    obtain ⟨text, hnumber⟩ := hnumber
    have hnext : i + 1 < (lex second).tokens.size := lt_size_of_real (number_real hnumber)
    have hspan {i : Nat} (hi : i < (lex second).tokens.size) :
        spanAt (lex (joined first second)).tokens (i + ((lex first).tokens.size - 1)) =
          (spanAt (lex second).tokens i).relocate (joinedOffset first) :=
      congrArg Token.span (h.tokenAt_behind second hi)
    show (_ == _) = ((spanAt (lex (joined first second)).tokens (i + ((lex first).tokens.size - 1))).stop ==
      (spanAt (lex (joined first second)).tokens (i + ((lex first).tokens.size - 1) + 1)).start)
    rw [hspan (by omega), Nat.add_right_comm, hspan hnext, Bool.eq_iff_iff, beq_iff_eq, beq_iff_eq]
    exact (joinedOffset_strictMono first).injective.eq_iff.symm
  alive := by
    intro s t hlater hlive p hp
    obtain ⟨ps, hps, _⟩ := hlater.problems
    exact hlive p (by rw [hps]; exact List.mem_append_left _ hp)
  start := by
    intro s mark _ hlive
    obtain ⟨j, hpos, hj, hspan⟩ := hlive _ (by simp [State.report]; exact .inr rfl) rfl
    have hstop : 0 = stopBefore (lex second).tokens j := congrArg Span.start hspan
    have hproper := (lex_isStream second).proper (j - 1) (by omega)
    rw [stopBefore, if_neg hpos.ne'] at hstop
    omega

/-! ### Statements -/

/-- What the parser makes of the joined source. -/
theorem runProgram_joined :
    (runProgram (lex (joined first second)).tokens maxDepth).1.toList =
        (runProgram (lex first).tokens maxDepth).1.toList ++
          (runProgram (lex second).tokens maxDepth).1.toList.map (Node.relocate (joinedOffset first)) ∧
      (runProgram (lex (joined first second)).tokens maxDepth).2.problems.toList =
        (runProgram (lex first).tokens maxDepth).2.problems.toList ++
          (runProgram (lex second).tokens maxDepth).2.problems.toList.map
            (Problem.relocate (joinedOffset first)) := by
  have hfirst := lex_isStream first
  have hsecond := lex_isStream second
  have hend := runProgram_position hfirst maxDepth
  -- The first source, up to its end.
  obtain ⟨t, hfront, hposition, hproblems⟩ := (h.goesOn second).sequence
    (runProgram_sequence hfirst maxDepth) ⟨hend, h.calm⟩ (t := {}) ⟨rfl, rfl⟩
  -- From there on, the second one.
  have hsequence := runProgram_sequence hsecond maxDepth
  let earlier := (runProgram (lex first).tokens maxDepth).2.problems.toList
  have hlive : (Lockstep.behind first second earlier).live (runProgram (lex second).tokens maxDepth).2 := by
    intro p hp hmissing
    obtain ⟨ps, hps, hmarks⟩ := hsequence.behind (level_sound hsecond maxDepth maxDepth)
      (level_deepens _ _ _) (level_urges _ _ _)
    rw [hps] at hp
    obtain ⟨j, hpos, hstop, hspan⟩ := hmarks p hp hmissing
    have := runProgram_position hsecond maxDepth
    exact ⟨j, hpos, by omega, hspan⟩
  have haligned : (Lockstep.behind first second earlier).world.aligned {} t := by
    refine ⟨hsecond.nonempty, ?_, [], ?_, .nil⟩
    · show t.position = 0 + ((lex first).tokens.size - 1)
      omega
    · rw [hproblems]
      exact (List.append_nil earlier).symm
  obtain ⟨t', nodes, hback, ⟨_, hposition', later, hlater, hreports⟩, halike⟩ :=
    (h.valid second earlier).coherent.sequence (fun _ => rfl) hsequence haligned hlive
  have hend' := runProgram_position hsecond maxDepth
  have hsize := h.size_joined second
  obtain ⟨hnodes, rfl⟩ := (hfront.append hback).eq_program (lex_isStream _) (by
    have hposition' : t'.position = _ + ((lex first).tokens.size - 1) := hposition'
    omega)
  refine ⟨?_, ?_⟩
  · rw [← hnodes, Lockstep.alike_eq rfl halike]
    rfl
  · rw [show _ = earlier ++ later from hlater, Lockstep.reported_eq rfl trivial hreports]
    rfl

theorem reports_joined (hclean : (runProgram (lex first).tokens maxDepth).2.problems = #[]) :
    reports (joined first second) maxDepth =
      (reports second maxDepth).map (Problem.relocate (joinedOffset first)) := by
  rw [reports, reports, (h.lex_joined second).2.2, (h.runProgram_joined second).2, hclean,
    List.map_append]
  rfl

/-! ### Comments -/

theorem commentNodes_joined : commentNodes (joined first second) = commentNodes first ++
    (commentNodes second).map (Node.relocate (joinedOffset first)) := by
  rw [commentNodes, commentNodes, commentNodes, (h.lex_joined second).2.1, List.map_append,
    List.map_map, List.map_map]
  exact congrArg (_ ++ ·) (List.map_congr_left fun c _ => commentNode_relocate (joinedOffset first) c)

/-- Both trees side by side, comments and all. -/
theorem dressedRoot_joined : (dressedRoot (joined first second) maxDepth).children =
    (dressedRoot first maxDepth).children ++
      (dressedRoot second maxDepth).children.map (Node.relocate (joinedOffset first)) := by
  have hmono := joinedOffset_strictMono first
  have hbare : (bareRoot (joined first second) maxDepth).children = (bareRoot first maxDepth).children ++
      ((bareRoot second maxDepth).relocate (joinedOffset first)).children := by
    rw [Node.relocate_children]
    exact (h.runProgram_joined second).1
  have hbehind (n : Node) : first.utf8ByteSize ≤ (n.relocate (joinedOffset first)).span.start := by
    rw [Node.relocate_span]
    exact (Nat.le_succ _).trans (Nat.le_add_left _ _)
  have hdressable := bareRoot_dressable first maxDepth
  have hfront : ((bareRoot (joined first second) maxDepth).attachAll (commentNodes first)).children =
      (dressedRoot first maxDepth).children ++
        ((bareRoot second maxDepth).relocate (joinedOffset first)).children := by
    refine attachAll_front (fun c hc => (hdressable.each c hc).proper) hbare fun c hc m hm => ?_
    rw [Node.relocate_children] at hm
    obtain ⟨n, hn, rfl⟩ := List.mem_map.mp hm
    refine ⟨?_, (hdressable.within c hc).2.trans (hbehind n)⟩
    rw [Node.relocate_missing]
    exact bareRoot_present n hn
  have hback : ((bareRoot (joined first second) maxDepth).attachAll (commentNodes first)).attachAll
        ((commentNodes second).map (Node.relocate (joinedOffset first))) =
      dressedRoot (joined first second) maxDepth := by
    rw [dressedRoot, h.commentNodes_joined, Node.attachAll, Node.attachAll, Node.attachAll,
      List.foldl_append]
  rw [← hback, attachAll_behind (fun c hc => ?_) hfront fun c hc m hm => ?_,
    Node.attachAll_relocate hmono, Node.relocate_children]
  · rfl
  · obtain ⟨n, hn, rfl⟩ := List.mem_map.mp hc
    rw [Node.relocate_span]
    exact hmono (each_isComment second n hn).proper
  · obtain ⟨n, _, rfl⟩ := List.mem_map.mp hc
    obtain ⟨hforward, hwithin⟩ := dressedRoot_within m hm
    exact ⟨hforward, hwithin.trans (hbehind n)⟩

end Complete

theorem fits_of_joined {first second : String} {maxLength : Option Nat}
    (h : ∀ limit ∈ maxLength, (joined first second).utf8ByteSize ≤ limit) :
    (∀ limit ∈ maxLength, first.utf8ByteSize ≤ limit) ∧
      ∀ limit ∈ maxLength, second.utf8ByteSize ≤ limit := by
  have hsize := utf8ByteSize_joined first second
  unfold joinedOffset at hsize
  refine ⟨fun limit hlimit => ?_, fun limit hlimit => ?_⟩
  · have := h limit hlimit
    omega
  · have := h limit hlimit
    omega

/-- **Statements are parsed one by one.** If a source has no problems and its last token is a
semicolon, what follows in the next line has the same nodes and problems as a source of its own, with
every offset moved behind the line feed. -/
theorem parse_joined {first second : String} {options : ParseOptions}
    (hfits : ∀ limit ∈ options.maxLength, (joined first second).utf8ByteSize ≤ limit)
    (hclean : (parse first options).problems = [])
    (hlast : (lex first).tokens.toList.dropLast.getLast?.map Token.kind = some (.punctuation .semicolon)) :
    ((parse (joined first second) options).node 0).children = ((parse first options).node 0).children ++
        ((parse second options).node 0).children.map (Node.relocate (joinedOffset first)) ∧
      (parse (joined first second) options).problems =
        (parse second options).problems.map (Problem.relocate (joinedOffset first)) := by
  obtain ⟨hfirst, hsecond⟩ := fits_of_joined hfits
  rw [parse_eq hfirst] at hclean
  have hsorted : sorted (reports first options.maxDepth) = [] := hclean
  have hperm : (sorted (reports first options.maxDepth)).Perm _ := List.mergeSort_perm ..
  obtain ⟨hlexed, hparsed⟩ := List.append_eq_nil_iff.mp (List.nil_perm.mp (hsorted ▸ hperm))
  have hparsed := Array.toList_eq_nil_iff.mp hparsed
  have hcomplete : Complete first options.maxDepth :=
    ⟨Array.toList_eq_nil_iff.mp hlexed, .of_clean hparsed, hlast⟩
  rw [parse_eq hfirst, parse_eq hsecond, parse_eq hfits, Sits.root.node_eq, Sits.root.node_eq,
    Sits.root.node_eq]
  refine ⟨hcomplete.dressedRoot_joined second, ?_⟩
  show sorted _ = (sorted _).map _
  rw [hcomplete.reports_joined second hparsed, sorted_relocate (joinedOffset_strictMono first)]

theorem parse_joined_assignments :
    (∀ limit ∈ ({} : ParseOptions).maxLength, (joined "a = b; // c" "d = (").utf8ByteSize ≤ limit) ∧
      (parse "a = b; // c").problems = [] ∧
      (lex "a = b; // c").tokens.toList.dropLast.getLast?.map Token.kind =
        some (.punctuation .semicolon) ∧
      (parse (joined "a = b; // c" "d = (")).problems =
        (parse "d = (").problems.map (Problem.relocate (joinedOffset "a = b; // c")) := by
  have hclean : (parse "a = b; // c").problems = [] := by decide +kernel
  have hlast : (lex "a = b; // c").tokens.toList.dropLast.getLast?.map Token.kind =
      some (.punctuation .semicolon) := by decide +kernel
  have hfits : ∀ limit ∈ ({} : ParseOptions).maxLength,
      (joined "a = b; // c" "d = (").utf8ByteSize ≤ limit := nofun
  exact ⟨hfits, hclean, hlast, (parse_joined hfits hclean hlast).2⟩

/-! ### Broken statements -/

/-- **A broken statement ends with its semicolon.** In a source whose only semicolon is its last token,
without brackets and without words that start a statement, statements may fail: as long as no problem
reaches over that semicolon, what follows in the next line has the same nodes as a source of its own,
and no node stands in both. -/
theorem parse_joined_broken {first second : String} {options : ParseOptions}
    (hfits : ∀ limit ∈ options.maxLength, (joined first second).utf8ByteSize ≤ limit)
    (hlexed : (lex first).problems = #[]) (hplain : Plain (lex first).tokens)
    (hlast : (lex first).tokens.toList.dropLast.getLast?.map Token.kind = some (.punctuation .semicolon))
    (hcontained : ∀ p ∈ (parse first options).problems, Contained (lex first).tokens p) :
    ((parse (joined first second) options).node 0).children = ((parse first options).node 0).children ++
        ((parse second options).node 0).children.map (Node.relocate (joinedOffset first)) ∧
      (∀ n ∈ ((parse first options).node 0).children, n.span.stop ≤ first.utf8ByteSize) ∧
      ∀ n ∈ ((parse second options).node 0).children.map (Node.relocate (joinedOffset first)),
        first.utf8ByteSize < n.span.start := by
  obtain ⟨hfirst, hsecond⟩ := fits_of_joined hfits
  rw [parse_eq hfirst] at hcontained
  have hcomplete : Complete first options.maxDepth := by
    refine ⟨hlexed, ⟨fun p hp => hcontained p ?_, fun _ => hplain⟩, hlast⟩
    have hreported : p ∈ reports first options.maxDepth := List.mem_append_right _ hp
    exact (List.mergeSort_perm ..).mem_iff.mpr hreported
  rw [parse_eq hfirst, parse_eq hsecond, parse_eq hfits, Sits.root.node_eq, Sits.root.node_eq,
    Sits.root.node_eq]
  refine ⟨hcomplete.dressedRoot_joined second, fun n hn => (dressedRoot_within n hn).2, ?_⟩
  intro n hn
  obtain ⟨m, _, rfl⟩ := List.mem_map.mp hn
  rw [Node.relocate_span]
  exact Nat.lt_of_lt_of_le (Nat.lt_succ_self _) (Nat.le_add_left _ _)

theorem parse_joined_broken_sum :
    (∀ limit ∈ ({} : ParseOptions).maxLength, (joined "a + b;" "f();").utf8ByteSize ≤ limit) ∧
      (lex "a + b;").problems = #[] ∧ Plain (lex "a + b;").tokens ∧
      (lex "a + b;").tokens.toList.dropLast.getLast?.map Token.kind = some (.punctuation .semicolon) ∧
      (parse "a + b;").problems ≠ [] ∧
      (∀ p ∈ (parse "a + b;").problems, Contained (lex "a + b;").tokens p) ∧
      ((parse (joined "a + b;" "f();")).node 0).children = ((parse "a + b;").node 0).children ++
        ((parse "f();").node 0).children.map (Node.relocate (joinedOffset "a + b;")) := by
  have hfits : ∀ limit ∈ ({} : ParseOptions).maxLength, (joined "a + b;" "f();").utf8ByteSize ≤ limit :=
    nofun
  have hlexed : (lex "a + b;").problems = #[] := by decide +kernel
  have hplain : Plain (lex "a + b;").tokens := by decide +kernel
  have hlast : (lex "a + b;").tokens.toList.dropLast.getLast?.map Token.kind =
      some (.punctuation .semicolon) := by decide +kernel
  have hcontained : ∀ p ∈ (parse "a + b;").problems, Contained (lex "a + b;").tokens p := by
    decide +kernel
  exact ⟨hfits, hlexed, hplain, hlast, by decide +kernel, hcontained,
    (parse_joined_broken hfits hlexed hplain hlast hcontained).1⟩

/-- A problem may reach over the semicolon: the assignment in `a + b = c;` has read it by the time the sum
is found to be no statement, and the next line is skipped with it. -/
theorem parse_joined_swallowed :
    (lex "a + b = c;").problems = #[] ∧ Plain (lex "a + b = c;").tokens ∧
      (lex "a + b = c;").tokens.toList.dropLast.getLast?.map Token.kind =
        some (.punctuation .semicolon) ∧
      ∃ n ∈ ((parse (joined "a + b = c;" "f();")).node 0).children,
        n.span.start < "a + b = c;".utf8ByteSize ∧ "a + b = c;".utf8ByteSize < n.span.stop := by
  decide +kernel

end ScriptTree
