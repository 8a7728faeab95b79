import Mathlib
import ScriptTree.Proofs.Mirror.Statements
import ScriptTree.Proofs.Tree.Relocation

/-! Runs in lockstep.

Two runs are in lockstep if the right one reads, a fixed number of tokens later, tokens alike to those
that the left one reads, though they may stand elsewhere in the source. Looking ahead for a bracket and
looking for a place to resume then come to the same (`closes_shift`, `resumption_shift`), and so the
world of the two token lists is coherent (`Lockstep.Valid.coherent`). -/
namespace ScriptTree.Parsing

/-! ### Looking further ahead -/

/-- Whether the tokens from index `shift` on are alike to those of another list. -/
structure KindsAlike (left right : Array Token) (shift : Nat) : Prop where
  size : left.size + shift = right.size
  like : ∀ i < left.size, KindLike (kindAt left i) (kindAt right (i + shift))

namespace KindsAlike
variable {left right : Array Token} {shift : Nat} (h : KindsAlike left right shift)
include h

theorem kind (i : Nat) : KindLike (kindAt left i) (kindAt right (i + shift)) := by
  by_cases hi : i < left.size
  · exact h.like i hi
  · have hsize := h.size
    rw [kindAt, kindAt, tokenAt, tokenAt, Array.getD, Array.getD, dif_neg hi, dif_neg (by omega)]
    exact .refl _

theorem getElem {i : Nat} (hi : i < left.size) :
    ∃ hi' : i + shift < right.size, KindLike left[i].kind right[i + shift].kind := by
  have hsize := h.size
  have hi' : i + shift < right.size := by omega
  refine ⟨hi', ?_⟩
  rw [← kindAt_eq_getElem hi, ← kindAt_eq_getElem hi']
  exact h.like i hi

/-- One step of the search on the right, by what the left token is. -/
theorem closingIndex?_right {i : Nat} (hi : i < left.size) (depth : Nat) :
    closingIndex? right (i + shift) depth =
      match bracket? left[i].kind with
      | some .opening => closingIndex? right (i + 1 + shift) (depth + 1)
      | some .closing =>
        match depth with
        | 0 => none
        | 1 => some (i + shift)
        | depth + 1 => closingIndex? right (i + 1 + shift) depth
      | none =>
        if left[i].kind = .endOfFile then none else closingIndex? right (i + 1 + shift) depth := by
  obtain ⟨hi', hlike⟩ := h.getElem hi
  rw [closingIndex?.eq_def, dif_pos hi', hlike.bracket_eq, Nat.add_right_comm]
  cases bracket? right[i + shift].kind with
  | none => exact if_congr hlike.eq_endOfFile.symm rfl rfl
  | some bracket => cases bracket <;> rfl

theorem closingIndex?_shift (i depth : Nat) :
    closingIndex? right (i + shift) depth = (closingIndex? left i depth).map (· + shift) := by
  fun_induction closingIndex? left i depth with
  | case1 i depth hi hbracket ih =>
    rw [h.closingIndex?_right hi, hbracket]
    exact ih
  | case2 i hi hbracket => rw [h.closingIndex?_right hi, hbracket]; rfl
  | case3 i hi hbracket => rw [h.closingIndex?_right hi, hbracket]; rfl
  | case4 i hi hbracket depth hdepth ih =>
    obtain ⟨depth, rfl⟩ := Nat.exists_eq_succ_of_ne_zero hdepth
    rw [h.closingIndex?_right hi, hbracket]
    exact ih
  | case5 i depth hi hbracket hend =>
    rw [h.closingIndex?_right hi, hbracket, hend]
    rfl
  | case6 i depth hi hbracket hend ih =>
    rw [h.closingIndex?_right hi, hbracket]
    dsimp only
    rw [if_neg hend]
    exact ih
  | case7 i depth hi =>
    have hsize := h.size
    rw [closingIndex?.eq_def, dif_neg (by omega)]
    rfl

theorem closes_shift {p : TokenKind → Bool} (hp : ∀ {k k'}, KindLike k k' → p k = p k') (i : Nat) :
    World.closes right p (i + shift) = World.closes left p i := by
  rw [World.closes, World.closes, matchingClose?, matchingClose?, h.closingIndex?_shift]
  cases closingIndex? left i 0 with
  | none => rfl
  | some close =>
    show p (kindAt right (close + shift + 1)) = p (kindAt left (close + 1))
    rw [hp (h.kind (close + 1)), Nat.add_right_comm]

theorem opens_shift (i : Nat) : World.opens right (i + shift) = World.opens left i := by
  have hfirst := h.kind (i + 1)
  have hsecond := h.kind (i + 2)
  rw [World.opens, World.opens, hfirst.isIdentifier_eq, hsecond.isPunctuation_eq,
    hsecond.isPunctuation_eq, hsecond.isPunctuation_eq, Nat.add_right_comm i 1,
    Nat.add_right_comm i 2]

/-! ### Resuming -/

omit h in
theorem depthAfter_eq {kind kind' : TokenKind} (hlike : KindLike kind kind') (d : Depth) :
    d.after kind = d.after kind' := by
  rw [Depth.after, Depth.after, hlike.brace_eq, hlike.bracket_eq]

omit h in
theorem extract_forall₂ {R : Token → Token → Prop} {start stop : Nat}
    (hstop : stop ≤ left.size) (hstop' : stop + shift ≤ right.size)
    (hR : ∀ i, start ≤ i → i < stop → R (tokenAt left i) (tokenAt right (i + shift))) :
    List.Forall₂ R (left.extract start stop).toList
      (right.extract (start + shift) (stop + shift)).toList := by
  induction hn : stop - start generalizing start with
  | zero =>
    have hstart : stop ≤ start := by omega
    rw [Array.extract_empty_of_stop_le_start hstart,
      Array.extract_empty_of_stop_le_start (Nat.add_le_add_right hstart shift)]
    exact .nil
  | succ n ih =>
    rw [extract_eq_cons (by omega) hstop, extract_eq_cons (by omega) hstop', Nat.add_right_comm]
    exact .cons (hR start (Nat.le_refl _) (by omega))
      (ih (fun i hi => hR i (by omega)) (by omega))

theorem depthBetween_shift {start stop : Nat} (hstop : stop ≤ left.size) :
    depthBetween right (start + shift) (stop + shift) = depthBetween left start stop := by
  have hsize := h.size
  have htokens : List.Forall₂ (fun t t' : Token => KindLike t.kind t'.kind) _ _ :=
    extract_forall₂ hstop (by omega : stop + shift ≤ right.size) fun i (_ : start ≤ i) _ => h.kind i
  rw [depthBetween, depthBetween, ← Array.foldl_toList, ← Array.foldl_toList]
  generalize ({} : Depth) = d
  generalize (left.extract start stop).toList = skipped at htokens ⊢
  generalize (right.extract (start + shift) (stop + shift)).toList = skipped' at htokens ⊢
  induction htokens generalizing d with
  | nil => rfl
  | cons hlike _ ih => rw [List.foldl_cons, List.foldl_cons, ih, depthAfter_eq hlike]

theorem resumeFrom_shift (start i : Nat) (d : Depth) :
    resumeFrom right (start + shift) (i + shift) d = resumeFrom left start i d + shift := by
  have hsize := h.size
  -- The conditions of one step are those on the left.
  have hstep {i : Nat} {d : Depth} (hi : i < left.size) :
      resumeFrom right (start + shift) (i + shift) d =
        if left[i].kind = .endOfFile || (i != start && resumesBefore d left[i].kind) then i + shift
        else if resumesAfter d left[i].kind then i + 1 + shift
        else resumeFrom right (start + shift) (i + 1 + shift) (d.after left[i].kind) := by
    obtain ⟨hi', hlike⟩ := h.getElem hi
    have hbefore : resumesBefore d left[i].kind = resumesBefore d right[i + shift].kind := by
      rw [resumesBefore, resumesBefore, hlike.startsStatement_eq, hlike.isPunctuation_eq]
    have hafter : resumesAfter d left[i].kind = resumesAfter d right[i + shift].kind := by
      rw [resumesAfter, resumesAfter, hlike.isPunctuation_eq]
    have hstart : (i + shift != start + shift) = (i != start) := by
      rw [Bool.eq_iff_iff, bne_iff_ne, bne_iff_ne, ne_eq, Nat.add_right_cancel_iff]
    rw [resumeFrom, dif_pos hi', hbefore, hafter, depthAfter_eq hlike, hstart, Nat.add_right_comm]
    simp only [hlike.eq_endOfFile]
  fun_induction resumeFrom left start i d with
  | case1 i d hi kind hgo => rw [hstep hi, if_pos hgo]
  | case2 i d hi kind hgo hafter => rw [hstep hi, if_neg hgo, if_pos hafter]
  | case3 i d hi kind hgo hafter ih => rw [hstep hi, if_neg hgo, if_neg hafter, ih]
  | case4 i d hi => rw [resumeFrom, dif_neg (by omega)]

theorem resumption_shift {start failed : Nat} (hfailed : failed ≤ left.size) :
    World.resumption right (start + shift) (failed + shift) =
      World.resumption left start failed + shift := by
  rw [World.resumption, World.resumption, h.depthBetween_shift hfailed, h.resumeFrom_shift]

end KindsAlike

/-! ### Two runs -/

/-- Two runs, the right one of which reads the tokens that the left one reads, `shift` tokens
later. -/
structure Lockstep where
  left : Array Token
  right : Array Token
  shift : Nat
  /-- Offsets belong together if moving the left one by `place` and the right one by `place'` comes to
  the same. -/
  place : Nat → Nat
  place' : Nat → Nat
  /-- Whether tokens alike are described alike in reports. -/
  faithful : Prop
  /-- What the right run has reported before. -/
  earlier : List Problem
  live : State → Prop

namespace Lockstep
variable (L : Lockstep)

def Reported (problem problem' : Problem) : Prop :=
  (L.faithful → problem.cause = problem'.cause) ∧
    problem.span.relocate L.place = problem'.span.relocate L.place'

/-- Two tokens that are read alike. -/
structure Agree (t t' : Token) : Prop where
  kind : KindLike t.kind t'.kind
  span : t.span.relocate L.place = t'.span.relocate L.place'
  literal : ∀ n n', literalNode? t = some n → literalNode? t' = some n' →
    n.relocate L.place = n'.relocate L.place'
  found : L.faithful → t.kind.describe = t'.kind.describe

def world : World where
  left := L.left
  right := L.right
  aligned s t := s.position < L.left.size ∧ t.position = s.position + L.shift ∧
    ∃ later, t.problems.toList = L.earlier ++ later ∧
      List.Forall₂ L.Reported s.problems.toList later
  live := L.live
  pending _ := none
  like n n' := n.relocate L.place = n'.relocate L.place'
  problem := L.Reported

structure Valid : Prop where
  place : Monotone L.place
  place' : Monotone L.place'
  streamLeft : IsStream L.left
  streamRight : IsStream L.right
  size : L.left.size + L.shift = L.right.size
  agree : ∀ i < L.left.size, L.Agree (tokenAt L.left i) (tokenAt L.right (i + L.shift))
  /-- Where a sign stands in front of a number, they touch on both sides or on neither. -/
  touching : ∀ i, isSign (kindAt L.left i) = true → (∃ text, kindAt L.left (i + 1) = .number text) →
    ((spanAt L.left i).stop == (spanAt L.left (i + 1)).start) =
      ((spanAt L.right (i + L.shift)).stop == (spanAt L.right (i + L.shift + 1)).start)
  alive : ∀ {s t}, Later L.left s t → L.live t → L.live s
  /-- Where a mark may be made up in front of all tokens, offsets belong together. -/
  start : ∀ (s : State) mark, s.position = 0 → L.live (s.report (World.missing L.left 0 mark)) →
    L.place 0 = L.place' (stopBefore L.right L.shift)

variable {L}

theorem alike_iff {nodes nodes' : List Node} : List.Forall₂ L.world.like nodes nodes' ↔
    nodes.map (Node.relocate L.place) = nodes'.map (Node.relocate L.place') := by
  show List.Forall₂ (fun n n' : Node => n.relocate L.place = n'.relocate L.place') _ _ ↔ _
  rw [← List.forall₂_eq_eq_eq, List.forall₂_map_left_iff, List.forall₂_map_right_iff]

namespace Valid
variable (h : L.Valid)
include h

theorem kinds : KindsAlike L.left L.right L.shift := ⟨h.size, fun i hi => (h.agree i hi).kind⟩

theorem natural : L.world.Natural where
  kind hn := by
    have := congrArg Node.kind? hn
    rwa [Node.relocate_kind?, Node.relocate_kind?] at this
  children hn := by
    have := congrArg Node.children hn
    rw [Node.relocate_children, Node.relocate_children] at this
    exact alike_iff.mpr this
  withField field hn := by
    show Node.relocate _ _ = Node.relocate _ _
    rw [Node.relocate_withField, Node.relocate_withField, show Node.relocate _ _ = _ from hn]
  inner kind children children' hchildren hne := by
    have hne' : children' ≠ [] := by
      rintro rfl
      exact hne (List.forall₂_nil_right_iff.mp hchildren)
    show Node.relocate _ _ = Node.relocate _ _
    rw [Node.relocate_ofChildren h.place hne, Node.relocate_ofChildren h.place' hne',
      alike_iff.mp hchildren]
  blamed cause hn := by
    have := congrArg Node.span hn
    rw [Node.relocate_span, Node.relocate_span] at this
    exact ⟨fun _ => rfl, this⟩
  merged cause ht hn := by
    have hspan := congrArg Node.span hn
    rw [Node.relocate_span, Node.relocate_span] at hspan
    refine ⟨fun _ => rfl, ?_⟩
    show Span.relocate _ _ = Span.relocate _ _
    rw [Span.relocate_merge h.place, Span.relocate_merge h.place', (ht.blamed .notAStatement).2, hspan]

theorem tokenLike {i : Nat} (hi : i < L.left.size) :
    L.world.TokenLike (tokenAt L.left i) (tokenAt L.right (i + L.shift)) := by
  have hagree := h.agree i hi
  refine ⟨hagree.kind, fun symbol => ?_, hagree.literal, fun _ => ⟨fun _ => rfl, hagree.span⟩,
    fun what => ⟨fun hfaithful => ?_, hagree.span⟩⟩
  · show Node.relocate _ _ = Node.relocate _ _
    rw [Node.relocate_leaf, Node.relocate_leaf, hagree.span]
  · show Cause.expected _ _ = Cause.expected _ _
    rw [hagree.found hfaithful]

theorem stopBefore_eq {i : Nat} (hi : i < L.left.size)
    (hstart : i = 0 → L.place 0 = L.place' (stopBefore L.right L.shift)) :
    L.place (stopBefore L.left i) = L.place' (stopBefore L.right (i + L.shift)) := by
  cases i with
  | zero =>
    rw [Nat.zero_add]
    exact hstart rfl
  | succ i =>
    have hspan := congrArg Span.stop (h.agree i (by omega)).span
    rw [Nat.add_right_comm]
    exact hspan

theorem merge_eq {i j : Nat} (hi : i < L.left.size) (hj : j < L.left.size) :
    ((spanAt L.left i).merge (spanAt L.left j)).relocate L.place =
      ((spanAt L.right (i + L.shift)).merge (spanAt L.right (j + L.shift))).relocate L.place' := by
  have hfirst : (spanAt L.left i).relocate L.place = _ := (h.agree i hi).span
  have hsecond : (spanAt L.left j).relocate L.place = _ := (h.agree j hj).span
  rw [Span.relocate_merge h.place, Span.relocate_merge h.place', hfirst, hsecond]
  rfl

omit h in
theorem aligned_report {s t : State} {problem problem' : Problem} (haligned : L.world.aligned s t)
    (hreported : L.Reported problem problem') {i j : Nat} (hi : i < L.left.size)
    (hj : j = i + L.shift) {made made' : Array Built} :
    L.world.aligned ⟨i, s.problems.push problem, made⟩ ⟨j, t.problems.push problem', made'⟩ := by
  obtain ⟨_, _, later, hlater, hreports⟩ := haligned
  refine ⟨hi, hj, later ++ [problem'], ?_, ?_⟩
  · rw [Array.toList_push, hlater, List.append_assoc]
  · rw [Array.toList_push]
    exact List.rel_append hreports (.cons hreported .nil)

theorem foreseen {s t : State} (haligned : L.world.aligned s t) : L.world.Foreseen s t := by
  obtain ⟨hinside, hposition, _⟩ := haligned
  have hahead (n : Nat) : KindLike (kindAt L.left (s.position + n)) (kindAt L.right (t.position + n)) := by
    rw [hposition, Nat.add_right_comm]
    exact h.kinds.kind _
  refine ⟨fun _ => hahead 1, fun _ => rfl, fun _ => (hahead 1).isPunctuation_eq _,
    fun _ _ => (hahead 2).isPunctuation_eq _, fun hsign => ?_, fun _ => ?_, fun _ p hp => ?_⟩
  · have hnext := h.streamLeft.succ_lt hinside (isSign_ne_endOfFile hsign)
    have hindex : t.position + 1 = s.position + 1 + L.shift := by rw [hposition, Nat.add_right_comm]
    refine ⟨?_, fun hnumber => ?_, ?_⟩
    · show L.world.TokenLike (tokenAt L.left _) (tokenAt L.right _)
      rw [hindex]
      exact h.tokenLike hnext
    · show (_ == (spanAt L.left _).start) = ((spanAt L.right _).stop == (spanAt L.right _).start)
      rw [hposition]
      exact h.touching _ hsign hnumber
    · show Node.relocate _ _ = Node.relocate _ _
      rw [Node.relocate_leaf, Node.relocate_leaf, hindex, hposition]
      exact congrArg _ (h.merge_eq hinside hnext)
  · rw [hposition]
    exact (h.kinds.opens_shift _).symm
  · rw [hposition]
    exact (h.kinds.closes_shift (·.continues_eq hp) _).symm

theorem damage {p m : Nat} (hm : m ≤ L.left.size) : Option.Rel L.world.like
    (World.damage? L.left p m) (World.damage? L.right (p + L.shift) (m + L.shift)) := by
  have hsize := h.size
  unfold World.damage?
  by_cases hlt : p < m
  · rw [if_pos hlt, if_pos (by omega)]
    have htokens := KindsAlike.extract_forall₂ hm (by omega : m + L.shift ≤ L.right.size)
      (R := fun t t' => L.world.like (skippedLeaf t) (skippedLeaf t')) fun i (_ : p ≤ i) hi => ?_
    · refine .some (h.natural.inner _ ?_ ?_)
      · rw [List.forall₂_map_left_iff, List.forall₂_map_right_iff]
        exact htokens
      · rw [extract_eq_cons hlt hm]
        exact List.cons_ne_nil _ _
    · have hlike := h.tokenLike (i := i) (by omega)
      rw [skippedLeaf, skippedLeaf, ← hlike.kind.symbolOf_eq]
      exact hlike.leaf _
  · rw [if_neg hlt, if_neg (by omega)]
    exact .none

theorem coherent : L.world.Coherent where
  toNatural := h.natural
  streamLeft := h.streamLeft
  streamRight := h.streamRight
  alive := h.alive
  settle _ _ := rfl
  stern _ _ _ := rfl
  ahead _ hmark := nomatch hmark
  inside haligned := ⟨haligned.1, by have := h.size; have := haligned.2.1; simp only [world]; omega⟩
  same haligned hs ht := by
    obtain ⟨hinside, hposition, hreports⟩ := haligned
    refine ⟨?_, ?_, ?_⟩
    · rw [hs.1]; exact hinside
    · rw [hs.1, ht.1]; exact hposition
    · rw [hs.2, ht.2]; exact hreports
  clear _ _ := rfl
  token haligned _ := by
    show L.world.TokenLike (tokenAt L.left _) (tokenAt L.right _)
    rw [haligned.2.1]
    exact h.tokenLike haligned.1
  advance haligned _ hreal _ := by
    obtain ⟨hinside, hposition, hreports⟩ := haligned
    exact ⟨h.streamLeft.succ_lt hinside hreal, by simp only [hposition, Nat.add_right_comm], hreports⟩
  foreseen haligned _ := h.foreseen haligned
  lacking _ := .inl rfl
  lacked := by
    intro s t mark haligned _ hlive
    have hinside := haligned.1
    have hstop := h.stopBefore_eq hinside fun hzero =>
      h.start s mark hzero (by rw [← hzero]; exact hlive)
    have hposition := haligned.2.1
    refine ⟨aligned_report haligned ⟨fun hfaithful => ?_, ?_⟩ hinside hposition, ?_⟩
    · show Cause.missingMark _ (kindAt L.left _).describe = .missingMark _ (kindAt L.right _).describe
      rw [hposition]
      exact congrArg _ ((h.agree _ hinside).found hfaithful)
    · show Span.relocate _ (.empty (stopBefore L.left _)) = Span.relocate _ (.empty (stopBefore L.right _))
      rw [Span.relocate_empty, Span.relocate_empty, hposition, hstop]
    · show Node.relocate _ (.absent _ (stopBefore L.left _)) =
        Node.relocate _ (.absent _ (stopBefore L.right _))
      rw [Node.relocate_absent, Node.relocate_absent, hposition, hstop]
  supplied _ hmark := nomatch hmark
  recovered := by
    intro s t s' t' problem problem' haligned haligned' _ hreported _ _ _
    have hposition := haligned.2.1
    have hposition' := haligned'.2.1
    have hstop : World.resumption L.right t.position t'.position =
        World.resumption L.left s.position s'.position + L.shift := by
      rw [hposition, hposition']
      exact h.kinds.resumption_shift haligned'.1.le
    have hinside : World.resumption L.left s.position s'.position < L.left.size :=
      resumeFrom_lt h.streamLeft haligned'.1
    refine ⟨aligned_report haligned' hreported hinside hstop, ?_⟩
    show Option.Rel L.world.like (World.damage? L.left _ _)
      (World.damage? L.right _ (World.resumption L.right _ _))
    rw [hstop, hposition]
    exact h.damage hinside.le

/-- Whole programs in lockstep from the first token on. -/
theorem programs (hshift : L.shift = 0) (hearlier : L.earlier = []) {maxDepth maxDepth' more : Nat}
    (hdeep : (more = 0 ∧ maxDepth = maxDepth') ∨
      ∀ (s : State) span, ¬L.live (s.report ⟨.tooDeep maxDepth, span⟩))
    (hmore : maxDepth' = more + maxDepth) (hlive : L.live (runProgram L.left maxDepth).2) :
    (runProgram L.left maxDepth).1.toList.map (Node.relocate L.place) =
        (runProgram L.right maxDepth').1.toList.map (Node.relocate L.place') ∧
      List.Forall₂ L.Reported (runProgram L.left maxDepth).2.problems.toList
        (runProgram L.right maxDepth').2.problems.toList := by
  have haligned : L.world.aligned {} {} :=
    ⟨h.streamLeft.nonempty, by rw [hshift], [], by rw [hearlier]; rfl, .nil⟩
  obtain ⟨⟨_, _, reports, hreports, hsame⟩, hnodes⟩ :=
    runProgram_mirrors h.coherent hdeep hmore haligned hlive rfl
  refine ⟨alike_iff.mp hnodes, ?_⟩
  rw [hearlier, List.nil_append] at hreports
  rw [show (runProgram L.right maxDepth').2.problems.toList = reports from hreports]
  exact hsame

end Valid

end Lockstep

end ScriptTree.Parsing
