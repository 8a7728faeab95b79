import Mathlib
import ScriptTree.Proofs.Mirror.Statements
import ScriptTree.Proofs.Parsing.Balance

/-! A token list that another one continues.

As long as nothing is reported and the last of its tokens has not been read, a token list is read like
any other that continues it. The last token is a semicolon, and behind that no production looks; behind
other tokens it finds the same in both lists, and so it does behind a closing bracket, as every bracket
that opens is closed in the first list.

Problems do no harm as long as they do not reach to the end (`Calm`): where a semicolon ends nothing but
the whole list, parsing resumes behind that, whatever fails in front of it. -/
namespace ScriptTree.Parsing

/-- Whether a token list goes on behind the last semicolon of another, which leaves no bracket open. -/
structure GoesOn (left right : Array Token) : Prop where
  streamLeft : IsStream left
  streamRight : IsStream right
  size_le : left.size ≤ right.size
  same : ∀ i, i + 1 < left.size → tokenAt right i = tokenAt left i
  last : ∀ i, i + 2 = left.size → kindAt left i = .punctuation .semicolon
  closed : ∀ i, bracket? (kindAt left i) = some .opening →
    ∃ close, close + 1 < left.size ∧ matchingClose? left i = some close

/-! ### Problems that do no harm -/

/-- Whether a token list has no bracket, no word that starts a statement, and no semicolon but the last
token: nowhere but behind that can parsing resume. -/
structure Plain (tokens : Array Token) : Prop where
  flat : ∀ i < tokens.size, bracket? (kindAt tokens i) = none
  wordless : ∀ i < tokens.size, startsStatement 0 (kindAt tokens i) = false
  only : ∀ i < tokens.size, kindAt tokens i = .punctuation .semicolon → i + 2 = tokens.size

instance (tokens : Array Token) : Decidable (Plain tokens) :=
  decidable_of_iff ((∀ i < tokens.size, bracket? (kindAt tokens i) = none) ∧
      (∀ i < tokens.size, startsStatement 0 (kindAt tokens i) = false) ∧
      ∀ i < tokens.size, kindAt tokens i = .punctuation .semicolon → i + 2 = tokens.size)
    ⟨fun ⟨flat, wordless, only⟩ => ⟨flat, wordless, only⟩,
      fun ⟨flat, wordless, only⟩ => ⟨flat, wordless, only⟩⟩

/-- Whether a problem stands in front of the last token, or is about that token alone. -/
def Contained (tokens : Array Token) (problem : Problem) : Prop :=
  ∃ i < tokens.size, i + 2 = tokens.size ∧
    (problem.span.start ≤ (spanAt tokens i).start ∧ problem.span.stop ≤ (spanAt tokens i).start ∨
      problem.span = spanAt tokens i)

instance (tokens : Array Token) (problem : Problem) : Decidable (Contained tokens problem) :=
  inferInstanceAs (Decidable (∃ i < tokens.size, _))

/-- Whether nothing has been reported, or nothing that can change what follows. -/
structure Calm (tokens : Array Token) (s : State) : Prop where
  contained : ∀ p ∈ s.problems.toList, Contained tokens p
  plain : s.problems ≠ #[] → Plain tokens

namespace Calm
variable {tokens : Array Token} {s s' : State}

theorem of_clean (h : s.problems = #[]) : Calm tokens s :=
  ⟨by simp [h], fun hne => absurd h hne⟩

theorem same (h : Calm tokens s) (hsame : s'.problems = s.problems) : Calm tokens s' :=
  ⟨hsame ▸ h.contained, hsame ▸ h.plain⟩

theorem of_later (h : Calm tokens s') (hlater : Later tokens s s') : Calm tokens s := by
  obtain ⟨ps, hps, _⟩ := hlater.problems
  refine ⟨fun p hp => h.contained p (hps ▸ List.mem_append_left ps hp), fun hne => h.plain fun hnone => ?_⟩
  rw [hnone] at hps
  exact hne (Array.toList_eq_nil_iff.mp (List.append_eq_nil_iff.mp hps.symm).1)

end Calm

/-- A problem that reaches to the end is about the last token alone. -/
theorem Contained.span_eq {tokens : Array Token} {p : Problem} (hs : IsStream tokens)
    (h : Contained tokens p) (hreach : stopBefore tokens (tokens.size - 1) ≤ p.span.start ∨
      stopBefore tokens (tokens.size - 1) ≤ p.span.stop) :
    ∃ i, i + 2 = tokens.size ∧ p.span = spanAt tokens i := by
  obtain ⟨i, _, hi, hfront | hspan⟩ := h
  · have hproper := hs.proper i (by omega)
    rw [show tokens.size - 1 = i + 1 by omega, stopBefore_succ] at hreach
    omega
  · exact ⟨i, hi, hspan⟩

/-- Two runs, of which the left one has not come to its end and reported nothing that does harm. -/
def World.continued (left right : Array Token) : World where
  left := left
  right := right
  aligned s t := s.position + 1 < left.size ∧ Same s t ∧ Calm left s
  live s := s.position + 1 < left.size ∧ Calm left s
  pending _ := none
  like := Eq
  problem := Eq

/-! ### Looking ahead -/

section Brackets
variable {left right : Array Token}

theorem closingIndex?_bracket {i depth close : Nat} (h : closingIndex? left i depth = some close) :
    i ≤ close ∧ bracket? (kindAt left close) = some .closing := by
  fun_induction closingIndex? left i depth with
  | case1 i depth hi hbracket ih => exact (ih h).imp_left (Nat.le_of_succ_le ·)
  | case2 | case5 | case7 => cases h
  | case3 i hi hbracket =>
    cases h
    exact ⟨Nat.le_refl _, by rw [kindAt_eq_getElem hi, hbracket]⟩
  | case4 i hi hbracket depth hdepth ih => exact (ih h).imp_left (Nat.le_of_succ_le ·)
  | case6 i depth hi hbracket hend ih => exact (ih h).imp_left (Nat.le_of_succ_le ·)

/-- What is found in one list is found in another one with the same tokens up to there. -/
theorem closingIndex?_same {stop : Nat} (hsame : ∀ i < stop, kindAt right i = kindAt left i)
    {i depth close : Nat} (h : closingIndex? left i depth = some close) (hclose : close < stop) :
    closingIndex? right i depth = some close := by
  have hle := (closingIndex?_bracket h).1
  have hi := hsame i (hle.trans_lt hclose)
  fun_induction closingIndex? left i depth with
  | case1 i depth hlt hbracket ih =>
    rw [← kindAt_eq_getElem hlt, ← hi] at hbracket
    rw [closingIndex?_real (bracket_real hbracket), hbracket]
    have hle := (closingIndex?_bracket h).1
    exact ih h hle (hsame _ (hle.trans_lt hclose))
  | case2 | case5 | case7 => cases h
  | case3 i hlt hbracket =>
    rw [← kindAt_eq_getElem hlt, ← hi] at hbracket
    rw [closingIndex?_real (bracket_real hbracket), hbracket]
    exact h
  | case4 i hlt hbracket depth hdepth ih =>
    obtain ⟨depth, rfl⟩ := Nat.exists_eq_succ_of_ne_zero hdepth
    rw [← kindAt_eq_getElem hlt, ← hi] at hbracket
    rw [closingIndex?_real (bracket_real hbracket), hbracket]
    have hle := (closingIndex?_bracket h).1
    exact ih h hle (hsame _ (hle.trans_lt hclose))
  | case6 i depth hlt hbracket hend ih =>
    rw [← kindAt_eq_getElem hlt, ← hi] at hbracket hend
    rw [closingIndex?_real hend, hbracket]
    have hle := (closingIndex?_bracket h).1
    exact ih h hle (hsame _ (hle.trans_lt hclose))

end Brackets

namespace GoesOn
variable {left right : Array Token} (h : GoesOn left right)
include h

theorem kind_same {i : Nat} (hi : i + 1 < left.size) : kindAt right i = kindAt left i := by
  rw [kindAt, kindAt, h.same i hi]

/-- Behind a token that is no semicolon, there is another one. -/
theorem succ_lt {i : Nat} (hi : i + 1 < left.size) (hkind : kindAt left i ≠ .punctuation .semicolon) :
    i + 2 < left.size :=
  Nat.lt_of_le_of_ne hi fun hlast => hkind (h.last i hlast)

theorem tokenLike {i : Nat} (hi : i + 1 < left.size) :
    (World.continued left right).TokenLike (tokenAt left i) (tokenAt right i) := by
  rw [h.same i hi]
  refine ⟨.refl _, fun _ => rfl, fun n n' hn hn' => ?_, fun _ => rfl, fun _ => rfl⟩
  exact Option.some.inj (hn.symm.trans hn')

theorem closes_same {i : Nat} (hopen : bracket? (kindAt left i) = some .opening)
    (p : TokenKind → Bool) : World.closes left p i = World.closes right p i := by
  obtain ⟨close, hclose, hfound⟩ := h.closed i hopen
  have hnext : close + 2 < left.size := by
    refine h.succ_lt hclose fun hkind => ?_
    have hbracket := (closingIndex?_bracket hfound).2
    rw [hkind] at hbracket
    cases hbracket
  have hfound' : matchingClose? right i = some close :=
    closingIndex?_same (fun i hi => h.kind_same (Nat.add_lt_of_lt_sub hi)) hfound
      (Nat.lt_sub_of_add_lt hclose)
  rw [World.closes, World.closes, hfound, hfound', Option.map_some, Option.map_some, h.kind_same hnext]

theorem foreseen {s t : State} (haligned : (World.continued left right).aligned s t) :
    (World.continued left right).Foreseen s t := by
  obtain ⟨hi, ⟨hposition, _⟩, _⟩ := haligned
  have hnext (hkind : kindAt left s.position ≠ .punctuation .semicolon) : s.position + 2 < left.size :=
    h.succ_lt hi hkind
  have hsecond (hkind : (kindAt left (s.position + 1)).isIdentifier = true)
      (hi : s.position + 2 < left.size) : s.position + 3 < left.size := by
    refine h.succ_lt hi fun hsemicolon => ?_
    rw [hsemicolon] at hkind
    cases hkind
  unfold World.continued
  constructor
  all_goals simp only [hposition]
  · intro hkind
    rw [h.kind_same (hnext fun hsemicolon => ?_)]
    · exact .refl _
    · rw [hsemicolon] at hkind
      revert hkind
      decide
  · exact fun _ => rfl
  · intro hkind
    rw [h.kind_same (hnext fun hsemicolon => ?_)]
    rw [hsemicolon] at hkind
    cases hkind
  · intro hkind hname
    rw [h.kind_same (hsecond hname (hnext fun hsemicolon => ?_))]
    rw [hsemicolon] at hkind
    cases hkind
  · intro hsign
    have hi' := hnext fun hsemicolon => by
      rw [hsemicolon] at hsign
      cases hsign
    rw [spanAt, spanAt, spanAt, spanAt, h.same _ hi, h.same _ hi']
    refine ⟨?_, fun _ => rfl, rfl⟩
    have := h.tokenLike hi'
    rwa [h.same _ hi'] at this
  · intro hbrace
    have hi' := hnext fun hsemicolon => by
      rw [hsemicolon] at hbrace
      cases hbrace
    rw [World.opens, World.opens, h.kind_same hi']
    cases hname : (kindAt left (s.position + 1)).isIdentifier with
    | false => rfl
    | true => rw [h.kind_same (hsecond hname hi')]
  · intro hopen p _
    exact h.closes_same hopen p

theorem stopBefore_same {i : Nat} (hi : i + 1 < left.size) : stopBefore right i = stopBefore left i := by
  cases i with
  | zero => rfl
  | succ i => rw [stopBefore_succ, stopBefore_succ, spanAt, spanAt, h.same i (Nat.lt_of_succ_lt hi)]

/-- What is skipped of a plain list is skipped of any other that goes on behind it. -/
theorem resumption (hplain : Plain left) {start failed : Nat} (hle : start ≤ failed)
    (hfailed : failed + 1 < left.size) :
    World.resumption left start failed + 1 = left.size ∧
      World.resumption right start failed + 1 = left.size := by
  obtain ⟨last, hlast⟩ := Nat.exists_eq_add_of_le (Nat.lt_of_le_of_lt (Nat.le_add_left 1 failed) hfailed)
  have hlast : last + 2 = left.size := by omega
  have hkind := h.last last hlast
  have hpassable (i : Nat) (hi : i < last) : IsPassable (kindAt left i) :=
    ⟨hplain.flat i (by omega), hplain.wordless i (by omega),
      fun hsemicolon => by have := hplain.only i (by omega) hsemicolon; omega,
      h.streamLeft.real (by omega)⟩
  have hleft : World.resumption left start failed = last + 1 :=
    resumeFrom_semicolon hkind (fun i _ hi => hpassable i hi) hle (by omega)
  have hright : World.resumption right start failed = last + 1 :=
    resumeFrom_semicolon ((h.kind_same (by omega)).trans hkind)
      (fun i _ hi => h.kind_same (i := i) (by omega) ▸ hpassable i hi) hle (by omega)
  omega

theorem coherent : (World.continued left right).Coherent where
  kind hn := congrArg _ hn
  children hn := by
    cases hn
    exact List.forall₂_same.mpr fun _ _ => rfl
  withField field hn := by
    cases hn
    rfl
  inner kind cs cs' hcs _ := by
    rw [show cs = cs' from List.forall₂_eq_eq_eq ▸ hcs]
    rfl
  blamed cause hn := congrArg (fun n : Node => Problem.mk cause n.span) hn
  merged cause ht hn := congrArg₂ (fun leaf n : Node => Problem.mk cause (leaf.span.merge n.span))
    (ht.leaf (.named .error)) hn
  streamLeft := h.streamLeft
  streamRight := h.streamRight
  alive hlater hlive := ⟨(Nat.add_le_add_right hlater.le 1).trans_lt hlive.1, hlive.2.of_later hlater⟩
  settle _ _ := rfl
  stern _ _ _ := rfl
  ahead _ hmark := nomatch hmark
  inside haligned := by
    obtain ⟨hi, ⟨hposition, _⟩, _⟩ := haligned
    have := h.size_le
    simp only [World.continued, hposition]
    omega
  same haligned hs ht := by
    obtain ⟨hi, hsame, hcalm⟩ := haligned
    refine ⟨by rw [hs.1]; exact hi, ⟨?_, ?_⟩, hcalm.same hs.2⟩
    · rw [ht.1, hs.1, hsame.1]
    · rw [ht.2, hs.2, hsame.2]
  clear _ _ := rfl
  token haligned _ := by
    obtain ⟨hi, ⟨hposition, _⟩, _⟩ := haligned
    simp only [World.continued, hposition]
    exact h.tokenLike hi
  advance haligned _ _ hlive := by
    obtain ⟨_, ⟨hposition, hreports⟩, hcalm⟩ := haligned
    exact ⟨hlive.1, ⟨congrArg (· + 1) hposition, hreports⟩, hcalm.same rfl⟩
  foreseen haligned _ := h.foreseen haligned
  lacking _ := .inl rfl
  lacked := by
    intro s t mark haligned _ hlive
    obtain ⟨hi, ⟨hposition, hproblems⟩, _⟩ := haligned
    have hmissing : World.missing right t.position mark = World.missing left s.position mark := by
      rw [World.missing, World.missing, hposition, h.kind_same hi, h.stopBefore_same hi]
    refine ⟨⟨hi, ⟨hposition, ?_⟩, hlive.2⟩, ?_⟩
    · exact congrArg₂ Array.push hproblems hmissing
    · show World.absent left s.position mark = World.absent right t.position mark
      rw [World.absent, World.absent, hposition, h.stopBefore_same hi]
  supplied _ hmark := nomatch hmark
  recovered := by
    -- Behind what fails there is nothing left, and that is not in front of the end.
    intro s t s' t' problem problem' _ haligned' hle _ _ hlive hresumed
    have hplain : Plain left := hlive.2.plain Array.push_ne_empty
    have hend := (h.resumption hplain hle haligned'.1).1
    exact absurd hresumed.1 (by simp only [World.resumed, World.continued]; omega)

end GoesOn

end ScriptTree.Parsing
