import Mathlib
import ScriptTree.Proofs.Completion.Nodes
import ScriptTree.Proofs.Completion.Seams
import ScriptTree.Proofs.Mirror.Continuation
import ScriptTree.Proofs.Mirror.Displacement

/-! Runs with the first mark supplied.

A run that reports nothing but made-up marks is put beside a run on the same tokens and the first of
these marks. In front of the mark both do the same; where the one run makes the mark up, the other one
reads it; behind it the other run stays one token ahead (`World.supplying`). No production that looks
ahead sees a difference, as what stands around a made-up mark is known (`Supplies`), so the world is
coherent. -/
namespace ScriptTree.Parsing

/-! ### Tokens -/

section Streams
variable {tokens : Array Token} (hs : IsStream tokens)
include hs

theorem IsStream.stopBefore_lt {i j : Nat} (hij : i < j) (hj : j < tokens.size) :
    stopBefore tokens i < stopBefore tokens j := by
  obtain ⟨j, rfl⟩ := Nat.exists_eq_add_of_lt hij
  have hproper := hs.proper (i + j) hj
  rw [stopBefore_succ]
  cases i with
  | zero => exact Nat.zero_lt_of_lt hproper
  | succ i =>
    have := hs.ordered i (by omega)
    have := hs.start_le (i := i + 1) (j := i + 1 + j) (by omega) (by omega)
    rw [stopBefore_succ]
    omega

/-- Marks are made up at one offset only if they are made up at one index. -/
theorem IsStream.stopBefore_inj {i j : Nat} (hi : i < tokens.size) (hj : j < tokens.size)
    (h : stopBefore tokens i = stopBefore tokens j) : i = j := by
  rcases Nat.lt_trichotomy i j with hlt | rfl | hlt
  · exact absurd h (hs.stopBefore_lt hlt hj).ne
  · rfl
  · exact absurd h (hs.stopBefore_lt hlt hi).ne'

/-- What a string or regular expression is taken apart into stands within it. -/
theorem IsStream.literal_within {i : Nat} {n : Node} (h : literalNode? (tokenAt tokens i) = some n) :
    ∀ m ∈ Node.preorderAll [n], (spanAt tokens i).start ≤ m.span.start ∧
      m.span.start ≤ m.span.stop ∧ m.span.stop ≤ (spanAt tokens i).stop := by
  have hlaid := (hs.tiled i n h).laid
  have hleaves := literal_leaves h
  obtain ⟨kind, opening, cs, rfl, _, hspan⟩ := literal_cases h
  have hcover : (Node.ofChildren kind (opening :: cs)).span =
      ⟨opening.span.start, (spanAt tokens i).stop⟩ := hlaid.cover_eq
  refine Node.forall_preorderAll_cons.mpr ⟨?_, fun m hm => ?_, nofun⟩
  · have hproper := hs.start_lt_stop (literal_real h)
    rw [hcover, hspan]
    exact ⟨le_rfl, hproper.le, le_rfl⟩
  · rw [Node.mem_preorderAll_leaves fun m hm => (hleaves m hm).1] at hm
    exact hlaid.mem hm

end Streams

/-- Whether a token list has one mark more, in front of an index where it may be made up. -/
structure Supplies (left right : Array Token) (j : Nat) (mark : Punctuation) : Prop where
  streamLeft : IsStream left
  streamRight : IsStream right
  lt : j < left.size
  size : right.size = left.size + 1
  seam : Seam left j mark
  last : (spanAt left (left.size - 1)).start ≤ (spanAt left (left.size - 1)).stop
  front : ∀ i < j, tokenAt right i = tokenAt left i
  here : tokenAt right j =
    ⟨.punctuation mark, ⟨stopBefore left j, stopBefore left j + 1⟩⟩
  back : ∀ i, j ≤ i → i < left.size → tokenAt right (i + 1) = (tokenAt left i).relocate Nat.succ

namespace Supplies
variable {left right : Array Token} {j : Nat} {mark : Punctuation} (h : Supplies left right j mark)
include h

theorem kind_front {i : Nat} (hi : i < j) : kindAt right i = kindAt left i := by
  rw [kindAt, kindAt, h.front i hi]

theorem kind_here : kindAt right j = .punctuation mark := by rw [kindAt, h.here]

theorem kind_back {i : Nat} (hi : j ≤ i) : KindLike (kindAt left i) (kindAt right (i + 1)) := by
  have hsize := h.size
  by_cases hlt : i < left.size
  · rw [kindAt, kindAt, h.back i hi hlt]
    exact kindLike_relocate _ _
  · rw [kindAt, kindAt, tokenAt, tokenAt, Array.getD, Array.getD, dif_neg hlt, dif_neg (by omega)]
    exact .refl _

/-- Behind the mark the same tokens follow in both lists. -/
theorem kinds : KindsAlike (left.extract j left.size) left j ∧
    KindsAlike (left.extract j left.size) right (j + 1) := by
  have hlt := h.lt
  have hsize := h.size
  have hrest : (left.extract j left.size).size = left.size - j := by
    rw [Array.size_extract, Nat.min_self]
  have hkind (i : Nat) (hi : i < (left.extract j left.size).size) :
      kindAt (left.extract j left.size) i = kindAt left (i + j) := by
    rw [kindAt_eq_getElem hi, kindAt_eq_getElem (by omega), Array.getElem_extract]
    simp only [Nat.add_comm]
  refine ⟨⟨by omega, fun i hi => ?_⟩, ⟨by omega, fun i hi => ?_⟩⟩
  · rw [hkind i hi]
    exact .refl _
  · rw [hkind i hi, ← Nat.add_assoc]
    exact h.kind_back (Nat.le_add_left _ _)

theorem pos : 0 < j := h.seam.site.pos

/-- Tokens in front of the mark end there. -/
theorem span_front {i : Nat} (hi : i < j) : (spanAt left i).start ≤ stopBefore left j ∧
    (spanAt left i).stop ≤ stopBefore left j := by
  have hlt := h.lt
  obtain ⟨k, rfl⟩ := Nat.exists_eq_add_of_lt hi
  have hproper := h.streamLeft.proper i (by omega)
  have hstop := h.streamLeft.stop_le (Nat.le_add_right i k) hlt
  rw [stopBefore_succ]
  omega

/-- Tokens behind the mark begin there. -/
theorem span_back {i : Nat} (hi : j ≤ i) (hlt : i < left.size) :
    stopBefore left j ≤ (spanAt left i).start ∧ stopBefore left j ≤ (spanAt left i).stop := by
  obtain ⟨k, rfl⟩ : ∃ k, j = k + 1 := ⟨j - 1, (Nat.sub_add_cancel h.pos).symm⟩
  have hordered := h.streamLeft.ordered k (by omega)
  have hstart := h.streamLeft.start_le hi hlt
  rw [stopBefore_succ]
  rcases Nat.lt_or_ge (i + 1) left.size with hreal | hend
  · have := h.streamLeft.proper i hreal
    omega
  · obtain rfl : i = left.size - 1 := by omega
    have := h.last
    omega

end Supplies

/-! ### Looking ahead -/

/-- Whether a token with a property follows the bracket that closes the outermost of `depth` open ones,
from an index on. -/
def closesFrom (tokens : Array Token) (p : TokenKind → Bool) (i depth : Nat) : Bool :=
  ((closingIndex? tokens i depth).map fun close => p (kindAt tokens (close + 1))).getD false

theorem KindsAlike.closesFrom_shift {left right : Array Token} {shift : Nat}
    (h : KindsAlike left right shift) {p : TokenKind → Bool}
    (hp : ∀ {k k'}, KindLike k k' → p k = p k') (i depth : Nat) :
    closesFrom right p (i + shift) depth = closesFrom left p i depth := by
  rw [closesFrom, closesFrom, h.closingIndex?_shift]
  cases closingIndex? left i depth with
  | none => rfl
  | some close =>
    show p (kindAt right (close + shift + 1)) = p (kindAt left (close + 1))
    rw [hp (h.kind (close + 1)), Nat.add_right_comm]

theorem closesFrom_real {tokens : Array Token} {p : TokenKind → Bool} {i : Nat}
    (hreal : kindAt tokens i ≠ .endOfFile) (depth : Nat) : closesFrom tokens p i depth =
      match bracket? (kindAt tokens i) with
      | some .opening => closesFrom tokens p (i + 1) (depth + 1)
      | some .closing =>
        match depth with
        | 0 => false
        | 1 => p (kindAt tokens (i + 1))
        | depth + 1 => closesFrom tokens p (i + 1) depth
      | none => closesFrom tokens p (i + 1) depth := by
  unfold closesFrom
  rw [closingIndex?_real hreal]
  cases bracket? (kindAt tokens i) with
  | none => rfl
  | some bracket =>
    cases bracket with
    | opening => rfl
    | closing => rcases depth with _ | _ | depth <;> rfl

theorem closesFrom_end {tokens : Array Token} {p : TokenKind → Bool} {i : Nat}
    (hend : kindAt tokens i = .endOfFile) (depth : Nat) : closesFrom tokens p i depth = false := by
  have hnone : closingIndex? tokens i depth = none := by
    rw [closingIndex?.eq_def]
    split
    · rw [← kindAt_eq_getElem ‹_›, hend]
      rfl
    · rfl
  rw [closesFrom, hnone]
  rfl

namespace Supplies
variable {left right : Array Token} {j : Nat} {mark : Punctuation} (h : Supplies left right j mark)
  {p : TokenKind → Bool}
include h

theorem closesFrom_back (hp : ∀ {k k'}, KindLike k k' → p k = p k') {i : Nat} (hi : j ≤ i)
    (depth : Nat) : closesFrom right p (i + 1) depth = closesFrom left p i depth := by
  obtain ⟨k, rfl⟩ := Nat.exists_eq_add_of_le' hi
  rw [h.kinds.1.closesFrom_shift hp, Nat.add_assoc, h.kinds.2.closesFrom_shift hp]

/-- No bracket seems to be followed by something else than it is. -/
theorem closesFrom_front (hp : ∀ {k k'}, KindLike k k' → p k = p k') (hmark : p (.punctuation mark) = false)
    (hnext : p (kindAt left j) = false) (hend : p .endOfFile = false) {i : Nat} (hi : i ≤ j)
    (depth : Nat) : closesFrom right p i depth = closesFrom left p i depth := by
  induction hn : j - i generalizing i depth with
  | zero =>
    obtain rfl : i = j := by omega
    have hreal : kindAt right i ≠ .endOfFile := by simp [h.kind_here]
    rw [closesFrom_real hreal, h.kind_here]
    rcases h.seam.site.closing with rfl | ⟨rfl, hlast⟩
    · exact h.closesFrom_back hp le_rfl depth
    · have hlast' : kindAt right (i + 1) = .endOfFile := (h.kind_back le_rfl).eq_endOfFile.mp hlast
      rw [closesFrom_end hlast]
      show (match depth with
        | 0 => false
        | 1 => p (kindAt right (i + 1))
        | depth + 1 => closesFrom right p (i + 1) depth) = false
      split
      · rfl
      · rw [hlast', hend]
      · exact closesFrom_end hlast' _
  | succ n ih =>
    have hlt : i < j := by omega
    have hreal : kindAt left i ≠ .endOfFile := fun hstop => by
      have := (h.streamLeft.endOfFile i (by have := h.lt; omega)).mp hstop
      have := h.lt
      omega
    have hkind := h.kind_front hlt
    rw [closesFrom_real (hkind ▸ hreal), closesFrom_real hreal, hkind]
    have hrest (depth : Nat) : closesFrom right p (i + 1) depth = closesFrom left p (i + 1) depth :=
      ih (by omega) depth (by omega)
    have hbehind : p (kindAt right (i + 1)) = p (kindAt left (i + 1)) := by
      rcases Nat.lt_or_ge (i + 1) j with hlt | hge
      · rw [h.kind_front hlt]
      · obtain rfl : i + 1 = j := by omega
        rw [h.kind_here, hmark, hnext]
    simp only [hrest, hbehind]

end Supplies

/-! ### Two runs -/

/-- Two runs, the right one of which reads the first mark that the left one makes up. The left one is to
end in the state `final`. -/
def World.supplying (left right : Array Token) (j : Nat) (mark : Punctuation) (final : State) :
    World where
  left := left
  right := right
  aligned s t := s.position < left.size ∧ (s.problems = #[] ∧ s.position ≤ j ∧ Same s t ∨
    ∃ first later, s.problems.toList = first :: later ∧ j ≤ s.position ∧
      t.position = s.position + 1 ∧ t.problems.toList = later.map (Problem.relocate Nat.succ))
  live s := Later left s final
  pending s := if s.problems = #[] ∧ s.position = j then some mark else none
  like := Completes (Shifts (stopBefore left j))
  problem _ _ := True

/-- What the left run ends with: a mark made up in front of an index, and other made-up marks. -/
structure Lacks (left : Array Token) (j : Nat) (mark : Punctuation) (final : State) : Prop where
  inside : final.position < left.size
  only : OnlyMissing final.problems.toList
  first : ∃ found later, final.problems.toList =
    ⟨.missingMark mark found, .empty (stopBefore left j)⟩ :: later

namespace Lacks
variable {left : Array Token} {j i : Nat} {mark m : Punctuation} {s final : State}
  (hl : Lacks left j mark final)
include hl

theorem only_missing (h : Later left s final) : OnlyMissing s.problems.toList := by
  obtain ⟨ps, hps, _⟩ := h.problems
  exact (onlyMissing_append.mp (hps ▸ hl.only)).1

/-- As long as nothing was reported, the mark stands ahead. -/
theorem ahead (hs : IsStream left) (hj : j < left.size) (h : Reaches left i s final)
    (hnone : s.problems = #[]) : i ≤ j := by
  obtain ⟨found, later, hfirst⟩ := hl.first
  obtain ⟨ps, hps, hmarks⟩ := h.problems
  rw [hfirst, hnone, List.nil_append] at hps
  obtain ⟨k, hik, hk, hspan⟩ := hmarks _ (hps ▸ List.mem_cons_self ..) rfl
  obtain rfl := hs.stopBefore_inj hj (hk.trans_lt hl.inside) (congrArg Span.start hspan)
  exact hik

/-- The first mark that is made up is this one. -/
theorem eq_of_report (hs : IsStream left) (hj : j < left.size)
    (h : Later left (s.report (World.missing left s.position m)) final) (hnone : s.problems = #[]) :
    s.position = j ∧ m = mark := by
  obtain ⟨found, later, hfirst⟩ := hl.first
  obtain ⟨ps, hps, _⟩ := h.problems
  rw [hfirst, State.report, hnone] at hps
  obtain ⟨heq, _⟩ := List.cons.inj hps
  have hspan := congrArg (·.span.start) heq
  have hposition : s.position ≤ final.position := h.le
  refine ⟨(hs.stopBefore_inj hj (hposition.trans_lt hl.inside) hspan).symm, ?_⟩
  have hcause : Cause.missingMark mark found = .missingMark m _ := congrArg Problem.cause heq
  cases hcause
  rfl

end Lacks

section States
variable {left right : Array Token} {j : Nat} {mark : Punctuation} {s t final : State}

/-- Where nothing is pending, the mark stands ahead, or it has been made up. -/
theorem World.supplying_cases (haligned : (World.supplying left right j mark final).aligned s t)
    (hclear : (World.supplying left right j mark final).Clear s) : s.position < left.size ∧
      ((s.problems = #[] ∧ s.position < j ∧ Same s t) ∨ ∃ first later,
        s.problems.toList = first :: later ∧ j ≤ s.position ∧ t.position = s.position + 1 ∧
          t.problems.toList = later.map (Problem.relocate Nat.succ)) := by
  obtain ⟨hinside, ⟨hnone, hle, hsame⟩ | hback⟩ := haligned
  · refine ⟨hinside, .inl ⟨hnone, hle.lt_of_ne fun hposition => ?_, hsame⟩⟩
    have hpending : (World.supplying left right j mark final).pending s = some mark :=
      if_pos ⟨hnone, hposition⟩
    cases hpending.symm.trans hclear
  · exact ⟨hinside, .inr hback⟩

theorem World.supplying_pending {m : Punctuation}
    (h : (World.supplying left right j mark final).pending s = some m) :
    s.problems = #[] ∧ s.position = j ∧ m = mark := by
  simp only [World.supplying, Option.ite_none_right_eq_some, Option.some.injEq] at h
  exact ⟨h.1.1, h.1.2, h.2.symm⟩

end States

namespace Supplies
variable {left right : Array Token} {j : Nat} {mark : Punctuation} {final : State}
  (h : Supplies left right j mark)
include h

theorem tokenLike_front {i : Nat} (hi : i < j) :
    (World.supplying left right j mark final).TokenLike (tokenAt left i) (tokenAt right i) := by
  obtain ⟨hstart, hstop⟩ := h.span_front hi
  rw [h.front i hi]
  refine ⟨.refl _, fun symbol => .leaf symbol (.refl_of_le hstart hstop), fun n n' hn hn' => ?_,
    fun _ => trivial, fun _ => trivial⟩
  obtain rfl := Option.some.inj (hn.symm.trans hn')
  refine .refl fun m hm => ?_
  have := h.streamLeft.literal_within hn m hm
  omega

theorem tokenLike_back {i : Nat} (hi : j ≤ i) (hlt : i < left.size) :
    (World.supplying left right j mark final).TokenLike (tokenAt left i) (tokenAt right (i + 1)) := by
  obtain ⟨hstart, hstop⟩ := h.span_back hi hlt
  rw [h.back i hi hlt]
  refine ⟨kindLike_relocate _ _, fun symbol => .leaf symbol (.succ_of_le hstart hstop), fun n n' hn hn' => ?_,
    fun _ => trivial, fun _ => trivial⟩
  rw [literalNode?_relocate (fun _ _ => Nat.succ_lt_succ) fun offset _ => rfl,
    hn] at hn'
  obtain rfl := Option.some.inj hn'
  refine .succ fun m hm => ?_
  have := h.streamLeft.literal_within hn m hm
  omega

theorem token {s t : State} (haligned : (World.supplying left right j mark final).aligned s t)
    (hclear : (World.supplying left right j mark final).Clear s) :
    (World.supplying left right j mark final).TokenLike (tokenAt left s.position)
      (tokenAt right t.position) := by
  obtain ⟨hinside, ⟨_, hlt, hsame⟩ | ⟨_, _, _, hle, hposition, _⟩⟩ := World.supplying_cases haligned hclear
  · rw [hsame.1]
    exact h.tokenLike_front hlt
  · rw [hposition]
    exact h.tokenLike_back hle hinside

/-! #### What is foreseen in front of the mark -/

theorem not_continuation {p : TokenKind → Bool}
    (hp : p ∈ [(TokenKind.isPunctuation · .colon), (TokenKind.isOperator · .assign)]) :
    p (.punctuation mark) = false ∧ p (kindAt left j) = false := by
  have hnext := h.seam.next
  simp only [continuations, List.mem_cons, List.not_mem_nil, or_false, not_or] at hnext hp
  rcases hp with rfl | rfl
  · refine ⟨?_, Bool.eq_false_iff.mpr fun hcolon => hnext.1 (isPunctuation_iff.mp hcolon)⟩
    rcases h.seam.site.closing with rfl | ⟨rfl, _⟩ <;> rfl
  · exact ⟨rfl, Bool.eq_false_iff.mpr fun hassign => hnext.2 (isOperator_iff.mp hassign)⟩

/-- In front of the mark and at it, a colon stands in both lists or in neither. -/
theorem isColon_front {i : Nat} (hi : i ≤ j) :
    (kindAt left i).isPunctuation .colon = (kindAt right i).isPunctuation .colon := by
  rcases hi.lt_or_eq with hlt | rfl
  · rw [h.kind_front hlt]
  · obtain ⟨hmark, hnext⟩ := h.not_continuation (List.mem_cons_self ..)
    rw [h.kind_here, hmark, hnext]

/-- Behind a token that something has to follow stands no mark. -/
theorem succ_lt_of_prelude {i : Nat} (hi : i < j) (hkind : kindAt left i ∈ preludes) : i + 1 < j := by
  refine Nat.lt_of_le_of_ne hi ?_
  rintro rfl
  exact h.seam.site.before hkind

/-- A brace in front of the mark opens an object in both lists or in neither. -/
theorem opens_front {i : Nat} (hi : i < j) (hbrace : kindAt left i = .punctuation .leftBrace) :
    World.opens left i = World.opens right i := by
  rw [World.opens, World.opens]
  rcases Nat.lt_trichotomy (i + 1) j with hlt | rfl | hgt
  · rw [h.kind_front hlt]
    cases hname : (kindAt left (i + 1)).isIdentifier with
    | false => rfl
    | true =>
      have hnext : i + 2 < j := by
        refine Nat.lt_of_le_of_ne hlt ?_
        rintro rfl
        exact h.seam.site.apart hname hbrace
      rw [h.kind_front hnext]
  · rw [h.seam.site.brace hbrace, h.kind_here]
    rfl
  · omega

theorem foreseen_front {s t : State} (hlt : s.position < j) (hposition : t.position = s.position) :
    (World.supplying left right j mark final).Foreseen s t := by
  have hpast {kind : TokenKind} (hkind : kindAt left s.position = kind) (hmem : kind ∈ preludes) :
      s.position + 1 < j := h.succ_lt_of_prelude hlt (hkind ▸ hmem)
  unfold World.supplying
  constructor
  all_goals simp only [hposition]
  · intro hherald
    have hprelude : ∀ kind ∈ World.heralds, kind ∈ preludes := by decide
    rw [h.kind_front (hpast rfl (hprelude _ hherald))]
    exact .refl _
  · intro hcomma
    exact if_neg fun hpending => (hpast hcomma (by decide)).ne hpending.2
  · intro _
    exact h.isColon_front hlt
  · intro hhash _
    exact h.isColon_front (hpast hhash (by decide))
  · intro hsign
    have hnext : s.position + 1 < j := by
      rcases Bool.or_eq_true_iff.mp hsign with hminus | hplus
      · exact hpast (isOperator_iff.mp hminus) (by decide)
      · exact hpast (isOperator_iff.mp hplus) (by decide)
    obtain ⟨hstart, hstop⟩ := h.span_front hlt
    obtain ⟨hstart', hstop'⟩ := h.span_front hnext
    rw [spanAt, spanAt, spanAt, spanAt, h.front _ hlt, h.front _ hnext]
    refine ⟨?_, fun _ => rfl, .leaf _ (.refl_of_le ?_ ?_)⟩
    · have hlike : (World.supplying left right j mark final).TokenLike _ _ := h.tokenLike_front hnext
      rwa [h.front _ hnext] at hlike
    · exact (Nat.min_le_left ..).trans hstart
    · exact Nat.max_le.mpr ⟨hstop, hstop'⟩
  · exact h.opens_front hlt
  · intro _ p hp
    obtain ⟨hmark, hnext⟩ := h.not_continuation hp
    refine (h.closesFrom_front (·.continues_eq hp) hmark hnext ?_ hlt.le 0).symm
    simp only [List.mem_cons, List.not_mem_nil, or_false] at hp
    rcases hp with rfl | rfl <;> rfl

theorem foreseen_back {s t : State} (hle : j ≤ s.position) (hlt : s.position < left.size)
    (hsome : s.problems ≠ #[]) (hposition : t.position = s.position + 1) :
    (World.supplying left right j mark final).Foreseen s t := by
  have hahead (n : Nat) : KindLike (kindAt left (s.position + n)) (kindAt right (s.position + 1 + n)) := by
    rw [Nat.add_right_comm]
    exact h.kind_back (hle.trans (Nat.le_add_right _ _))
  unfold World.supplying
  constructor
  all_goals simp only [hposition]
  · exact fun _ => hahead 1
  · exact fun _ => if_neg fun hpending => hsome hpending.1
  · exact fun _ => (hahead 1).isPunctuation_eq _
  · exact fun _ _ => (hahead 2).isPunctuation_eq _
  · intro hsign
    have hnext := h.streamLeft.succ_lt hlt (isSign_ne_endOfFile hsign)
    obtain ⟨hstart, hstop⟩ := h.span_back hle hlt
    obtain ⟨hstart', hstop'⟩ := h.span_back (hle.trans (Nat.le_succ _)) hnext
    refine ⟨h.tokenLike_back (hle.trans (Nat.le_succ _)) hnext, fun _ => ?_, ?_⟩
    · rw [spanAt, spanAt, spanAt, spanAt, h.back _ hle hlt, h.back _ (hle.trans (Nat.le_succ _)) hnext]
      exact Bool.eq_iff_iff.mpr (by simp [Token.relocate, Span.relocate])
    · rw [spanAt, spanAt, spanAt, spanAt, h.back _ hle hlt, h.back _ (hle.trans (Nat.le_succ _)) hnext]
      refine .leaf _ (.merge (.succ_of_le hstart hstop) (.succ_of_le hstart' hstop'))
  · obtain ⟨k, hk⟩ := Nat.exists_eq_add_of_le' hle
    intro _
    rw [hk, Nat.add_assoc, h.kinds.1.opens_shift, h.kinds.2.opens_shift]
  · intro _ p hp
    exact (h.closesFrom_back (·.continues_eq hp) hle 0).symm

theorem foreseen {s t : State} (haligned : (World.supplying left right j mark final).aligned s t)
    (hclear : (World.supplying left right j mark final).Clear s) :
    (World.supplying left right j mark final).Foreseen s t := by
  obtain ⟨hinside, ⟨_, hlt, hsame⟩ | ⟨first, later, hsome, hle, hposition, _⟩⟩ :=
    World.supplying_cases haligned hclear
  · exact h.foreseen_front hlt hsame.1
  · refine h.foreseen_back hle hinside (fun hnone => ?_) hposition
    rw [hnone] at hsome
    cases hsome

/-! #### Marks -/

/-- Behind the mark, the same other marks are made up. -/
theorem missing_back {i : Nat} (hi : j ≤ i) (hlt : i < left.size) (m : Punctuation) :
    World.missing right (i + 1) m = (World.missing left i m).relocate Nat.succ ∧
      Completes (Shifts (stopBefore left j)) (World.absent left i m) (World.absent right (i + 1) m) := by
  have hstop : stopBefore right (i + 1) = stopBefore left i + 1 := by
    rcases hi.lt_or_eq with hpast | rfl
    · obtain ⟨k, rfl⟩ := Nat.exists_eq_add_of_lt hpast
      rw [stopBefore_succ, stopBefore_succ, spanAt, h.back _ (Nat.le_add_right _ _) (by omega)]
      rfl
    · rw [stopBefore_succ, spanAt, h.here]
  have hle : stopBefore left j ≤ stopBefore left i := by
    rcases hi.lt_or_eq with hpast | rfl
    · exact (h.streamLeft.stopBefore_lt hpast hlt).le
    · exact le_rfl
  have hkind : (kindAt right (i + 1)).describe = (kindAt left i).describe := by
    rw [kindAt, h.back i hi hlt]
    exact describe_relocate _ _
  constructor
  · rw [World.missing, World.missing, hstop, hkind]
    rfl
  · rw [World.absent, World.absent, hstop]
    exact .absent _ (.succ hle)

theorem coherent (hl : Lacks left j mark final) :
    (World.supplying left right j mark final).Coherent where
  kind hn := congrArg Symbol.kind? hn.symbol
  children hn := hn.children
  withField field hn := hn.withField field
  inner kind cs cs' hcs hne := .ofChildren kind hcs hne
  blamed _ _ := trivial
  merged _ _ _ := trivial
  streamLeft := h.streamLeft
  streamRight := h.streamRight
  alive := Reaches.trans
  settle := by
    intro s t hpast hlive
    refine if_neg fun ⟨hnone, hposition⟩ => ?_
    have := hl.ahead h.streamLeft h.lt (hpast.trans hlive) hnone
    omega
  stern := by
    intro s t problem _ hkind hlive
    exact absurd (hl.only_missing hlive problem (by simp [State.report])) hkind
  ahead := by
    intro s t m haligned hpending
    obtain ⟨hnone, rfl, rfl⟩ := World.supplying_pending hpending
    obtain ⟨_, ⟨_, _, hsame⟩ | ⟨_, _, hsome, _⟩⟩ := haligned
    · rw [hsame.1]
      exact ⟨h.kind_here, h.seam.site.closing⟩
    · rw [hnone] at hsome
      cases hsome
  inside := by
    intro s t haligned
    have hsize := h.size
    obtain ⟨hinside, ⟨_, _, hsame, _⟩ | ⟨_, _, _, _, hposition, _⟩⟩ := haligned
    · exact ⟨hinside, by simp only [World.supplying]; omega⟩
    · exact ⟨hinside, by simp only [World.supplying]; omega⟩
  same := by
    intro s s' t t' haligned hs ht
    obtain ⟨hinside, hcases⟩ := haligned
    refine ⟨by rw [hs.1]; exact hinside, hcases.imp ?_ ?_⟩
    · rintro ⟨hnone, hle, hsame⟩
      exact ⟨hs.2.trans hnone, by rw [hs.1]; exact hle, by rw [ht.1, hs.1, hsame.1],
        by rw [ht.2, hs.2, hsame.2]⟩
    · rintro ⟨first, later, hsome, hle, hposition, hreports⟩
      exact ⟨first, later, by rw [hs.2, hsome], by rw [hs.1]; exact hle,
        by rw [ht.1, hs.1, hposition], by rw [ht.2, hreports]⟩
  clear := by
    intro s s' hsame hclear
    have hsame' : (World.supplying left right j mark final).pending s' =
        (World.supplying left right j mark final).pending s := by
      simp only [World.supplying, hsame.1, hsame.2]
    exact hsame'.trans hclear
  token := h.token
  advance := by
    intro s t haligned hclear hreal hlive
    have hnext := h.streamLeft.succ_lt haligned.1 hreal
    obtain ⟨_, ⟨hnone, hlt, hsame⟩ | ⟨first, later, hsome, hle, hposition, hreports⟩⟩ :=
      World.supplying_cases haligned hclear
    · exact ⟨hnext, .inl ⟨hnone, hlt, congrArg (· + 1) hsame.1, hsame.2⟩⟩
    · exact ⟨hnext, .inr ⟨first, later, hsome, hle.trans (Nat.le_succ _), congrArg (· + 1) hposition,
        hreports⟩⟩
  foreseen := h.foreseen
  lacking := by
    intro s m hlive
    by_cases hpending : s.problems = #[] ∧ s.position = j
    · obtain ⟨_, rfl⟩ := hl.eq_of_report h.streamLeft h.lt hlive hpending.1
      exact .inr (if_pos hpending)
    · exact .inl (if_neg hpending)
  lacked := by
    intro s t m haligned hclear hlive
    obtain ⟨hinside, ⟨hnone, hlt, _⟩ | ⟨first, later, hsome, hle, hposition, hreports⟩⟩ :=
      World.supplying_cases haligned hclear
    · obtain ⟨hposition, _⟩ := hl.eq_of_report h.streamLeft h.lt hlive hnone
      omega
    · obtain ⟨hmissing, hlike⟩ := h.missing_back hle hinside m
      rw [hposition]
      refine ⟨⟨hinside, .inr ⟨first, later ++ [World.missing left s.position m], ?_, hle, hposition, ?_⟩⟩,
        hlike⟩
      · rw [State.report, Array.toList_push, hsome]
        rfl
      · rw [State.report, Array.toList_push, hreports, List.map_append]
        exact congrArg (later.map _ ++ [·]) hmissing
  supplied := by
    intro s t m haligned hpending hlive
    obtain ⟨hnone, rfl, rfl⟩ := World.supplying_pending hpending
    obtain ⟨hinside, ⟨_, _, hsame⟩ | ⟨_, _, hsome, _⟩⟩ := haligned
    · refine ⟨⟨hinside, .inr ⟨_, [], by rw [State.report, hnone]; rfl, le_rfl, ?_, ?_⟩⟩, ?_⟩
      · exact congrArg (· + 1) hsame.1
      · rw [hsame.2, hnone]
        rfl
      · rw [hsame.1, World.absent, show World.right _ = right from rfl, spanAt, h.here]
        exact .supplied _ _
    · rw [hnone] at hsome
      cases hsome
  recovered := by
    intro s t s' t' problem problem' _ _ _ _ hkind hlive _
    exact absurd (hl.only_missing hlive problem (by simp [State.report])) hkind

/-- Whole programs: the nodes are completed, and all but the first report are the same. -/
theorem programs {maxDepth : Nat} (hl : Lacks left j mark (runProgram left maxDepth).2) :
    List.Forall₂ (Completes (Shifts (stopBefore left j))) (runProgram left maxDepth).1.toList
        (runProgram right maxDepth).1.toList ∧
      ∃ first later, (runProgram left maxDepth).2.problems.toList = first :: later ∧
        (runProgram right maxDepth).2.problems.toList = later.map (Problem.relocate Nat.succ) := by
  have hreported : (runProgram left maxDepth).2.problems ≠ #[] := by
    obtain ⟨found, later, hfirst⟩ := hl.first
    intro hnone
    rw [hnone] at hfirst
    cases hfirst
  obtain ⟨⟨_, hcases⟩, hnodes⟩ := runProgram_mirrors (h.coherent hl) (.inl ⟨rfl, rfl⟩)
    (Nat.zero_add maxDepth).symm ⟨h.streamLeft.nonempty, .inl ⟨rfl, Nat.zero_le _, rfl, rfl⟩⟩
    ⟨le_rfl, [], (List.append_nil _).symm, List.forall_mem_nil _⟩ (if_neg fun hpending => hreported hpending.1)
  refine ⟨hnodes, ?_⟩
  obtain ⟨hnone, _⟩ | ⟨first, later, hsome, _, _, hreports⟩ := hcases
  · exact absurd hnone hreported
  · exact ⟨first, later, hsome, hreports⟩

end Supplies

end ScriptTree.Parsing
