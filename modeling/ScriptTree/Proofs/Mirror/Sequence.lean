import Mathlib
import ScriptTree.Proofs.Mirror.Closing
import ScriptTree.Proofs.Mirror.Lockstep

/-! Statements one after another.

At the top a program is a sequence of statements, each of which begins where the one before it ended.
`Sequence` says so without counting rounds. As statements are run one by one, a run can be taken apart
anywhere between two of them, and what is known of its parts put together (`Sequence.append`,
`Sequence.eq_program`). -/
namespace ScriptTree.Parsing

/-- The statements from one state to another. -/
inductive Sequence (scope : Scope) : State → List Node → State → Prop
  | nil (s : State) : Sequence scope s [] s
  | cons {s s₁ s' o ns} (real : kindAt scope.tokens s.position ≠ .endOfFile)
      (run : statementOrError scope s = .ok o s₁) (rest : Sequence scope s₁ ns s') :
      Sequence scope s (o.toList ++ ns) s'

namespace Sequence
variable {scope : Scope} {s s₁ s' s'' : State} {ns ns' : List Node}

theorem append (h : Sequence scope s ns s₁) (h' : Sequence scope s₁ ns' s') :
    Sequence scope s (ns ++ ns') s' := by
  induction h with
  | nil => exact h'
  | cons real run _ ih =>
    rw [List.append_assoc]
    exact .cons real run (ih h')

/-- Two sequences up to the end are the same. -/
theorem unique (h : Sequence scope s ns s') (h' : Sequence scope s ns' s'')
    (hend : kindAt scope.tokens s'.position = .endOfFile)
    (hend' : kindAt scope.tokens s''.position = .endOfFile) : ns = ns' ∧ s' = s'' := by
  induction h generalizing ns' with
  | nil =>
    cases h' with
    | nil => exact ⟨rfl, rfl⟩
    | cons real => exact absurd hend real
  | cons real run _ ih =>
    cases h' with
    | nil => exact absurd hend' real
    | cons _ run' rest' =>
      cases run.symm.trans run'
      obtain ⟨rfl, rfl⟩ := ih rest' hend
      exact ⟨rfl, rfl⟩

theorem later (hdeep : Deepens scope) (h : Sequence scope s ns s') : Later scope.tokens s s' := by
  induction h with
  | nil => exact .refl
  | cons _ run _ ih => exact (later_of_ok hdeep run).trans ih

/-! ### Whole programs -/

theorem of_rounds {fuel : Nat} {children nodes : Array Node}
    (hrun : rounds (fun children => do
      if ← atEnd then return .done children
      if false && (← sees .rightBrace) then return .done children
      match ← statementOrError with
      | some n => return .more (children.push n)
      | none => return .more children) fuel children scope s = .ok nodes s') :
    ∃ ns, nodes.toList = children.toList ++ ns ∧ Sequence scope s ns s' := by
  induction fuel generalizing children s with
  | zero =>
    cases hrun
    exact ⟨[], (List.append_nil _).symm, .nil _⟩
  | succ fuel ih =>
    obtain ⟨r, s₁, hround, hrest⟩ := run_bind_eq_ok hrun
    obtain ⟨atEnd, s₂, hend, hround⟩ := run_bind_eq_ok hround
    obtain ⟨rfl, hsame⟩ : (kindAt scope.tokens s.position == .endOfFile) = atEnd ∧ s = s₂ :=
      EStateM.Result.ok.inj hend
    rw [← hsame] at hround
    by_cases hreal : kindAt scope.tokens s.position = .endOfFile
    · rw [hreal] at hround
      cases hround
      cases hrest
      exact ⟨[], (List.append_nil _).symm, .nil _⟩
    · rw [beq_false_of_ne hreal] at hround
      obtain ⟨closes, s₃, hcloses, hround⟩ := run_bind_eq_ok hround
      obtain ⟨rfl, hsame⟩ : _ = closes ∧ s = s₃ := EStateM.Result.ok.inj hcloses
      rw [← hsame] at hround
      obtain ⟨o, s₂, hstatement, hround⟩ := run_bind_eq_ok hround
      obtain ⟨ns, hns, hsequence⟩ : ∃ ns, nodes.toList = children.toList ++ o.toList ++ ns ∧
          Sequence scope s₂ ns s' := by
        cases o with
        | none =>
          cases hround
          rw [Option.toList_none, List.append_nil]
          exact ih hrest
        | some n =>
          cases hround
          have := ih hrest
          rwa [Array.toList_push] at this
      exact ⟨o.toList ++ ns, by rw [hns, List.append_assoc], .cons hreal hstatement hsequence⟩

end Sequence

/-- What is left of a program ends at its end. -/
theorem runProgram_position {tokens : Array Token} (hs : IsStream tokens) (maxDepth : Nat) :
    (runProgram tokens maxDepth).2.position + 1 = tokens.size := by
  have hstart : Made tokens {} {} [] := .refl
  have hreads : Reads ⟨tokens, level tokens maxDepth maxDepth⟩ none (statements false #[]) {} _ :=
    statements_reads (level_sound hs maxDepth maxDepth) hstart
  have hreads := hreads nofun hs.nonempty
  rw [runProgram_ok hs maxDepth] at hreads
  obtain ⟨hadvances, _, _, hend⟩ := hreads
  exact (hs.endOfFile _ hadvances.lt).mp (hend.resolve_right (by simp))

/-- A program is a sequence of statements. -/
theorem runProgram_sequence {tokens : Array Token} (hs : IsStream tokens) (maxDepth : Nat) :
    Sequence ⟨tokens, level tokens maxDepth maxDepth⟩ {} (runProgram tokens maxDepth).1.toList
      (runProgram tokens maxDepth).2 := by
  obtain ⟨ns, hns, h⟩ := Sequence.of_rounds (runProgram_ok hs maxDepth)
  rwa [hns]

/-- A sequence of statements up to the end is the program. -/
theorem Sequence.eq_program {tokens : Array Token} (hs : IsStream tokens) {maxDepth : Nat}
    {ns : List Node} {s : State} (h : Sequence ⟨tokens, level tokens maxDepth maxDepth⟩ {} ns s)
    (hend : s.position + 1 = tokens.size) :
    ns = (runProgram tokens maxDepth).1.toList ∧ s = (runProgram tokens maxDepth).2 := by
  have hkind {s : State} (hend : s.position + 1 = tokens.size) : kindAt tokens s.position = .endOfFile :=
    (hs.endOfFile _ (by omega)).mpr hend
  exact h.unique (runProgram_sequence hs maxDepth) (hkind hend) (hkind (runProgram_position hs maxDepth))

/-! ### Marks made up -/

/-- The marks that a statement makes up stand behind its first token, even if it fails. -/
theorem statementOrError_past {scope : Scope} (hs : Sound scope) (hdeep : Deepens scope)
    (hurge : Urges scope) {s s' : State} {o : Option Node}
    (hreal : kindAt scope.tokens s.position ≠ .endOfFile)
    (hrun : statementOrError scope s = .ok o s') : Past scope.tokens s s' := by
  have hlt : s.position < scope.tokens.size := lt_size_of_real hreal
  have hpasses := Forward.passes (m := statement) scope hdeep hurge s hreal
  cases hstatement : statement scope s with
  | ok n s₁ =>
    rw [run_statementOrError_ok hstatement] at hrun
    rw [hstatement] at hpasses
    cases hrun
    exact hpasses
  | error e s₁ =>
    have hleads := Composed.onward (m := statement) hdeep s
    have hreads : Reads scope (some s.position) statement s _ := statement_reads hs
    have hreads := hreads (fun b hb => (Option.some.inj hb).ge) hlt
    have hgives : Reads scope (some s.position) statementOrError s _ := statementOrError_reads hs hreal
    have hgives := hgives (fun b hb => (Option.some.inj hb).ge) hlt
    rw [run_statementOrError_error hstatement] at hrun hgives
    rw [hstatement] at hpasses hleads hreads
    rw [hrun] at hgives
    obtain ⟨_, n, _, hread, _⟩ := hgives
    have hinside : World.resumption scope.tokens s.position s₁.position < scope.tokens.size :=
      resumeFrom_lt hs.stream hreads.1.lt
    obtain ⟨_, s₂, hrecover, hsame, _⟩ := run_recover scope s.made.size e hinside
    cases hrecover.symm.trans hrun
    obtain ⟨ps, hps, hmarks⟩ := hpasses
    refine ⟨hread.lt, ps ++ [e], ?_, fun p hp hmissing => ?_⟩
    · rw [hsame.2]
      simp [World.resumed, State.report, hps]
    · rcases List.mem_append.mp hp with hp | hp
      · obtain ⟨j, hj, hstop, hspan⟩ := hmarks p hp hmissing
        refine ⟨j, hj, hstop.trans ?_, hspan⟩
        rw [hsame.1]
        exact le_resumeFrom
      · rw [List.mem_singleton.mp hp] at hmissing
        exact absurd hmissing hleads.2

/-- No mark is made up in front of the first token. -/
theorem Sequence.behind {scope : Scope} (hs : Sound scope) (hdeep : Deepens scope)
    (hurge : Urges scope) {s s' : State} {ns : List Node} (h : Sequence scope s ns s') :
    Behind scope.tokens (s.position + 1) s s' := by
  cases h with
  | nil => exact .refl
  | cons real run rest =>
    exact .trans (statementOrError_past hs hdeep hurge real run) (rest.later hdeep)

/-! ### Two runs -/

theorem World.stage_right (W : World) (maxDepth : Nat) :
    (W.stage maxDepth maxDepth 0 maxDepth).right = ⟨W.right, level W.right maxDepth maxDepth⟩ := by
  rw [World.stage, Nat.zero_add]
  rfl

/-- Where nothing is pending, statements are mirrored one by one. -/
theorem World.Coherent.sequence {W : World} (hW : W.Coherent) (hclear : ∀ s, W.Clear s) {maxDepth : Nat}
    {s s' t : State} {ns : List Node}
    (h : Sequence ⟨W.left, level W.left maxDepth maxDepth⟩ s ns s') (haligned : W.aligned s t)
    (hlive : W.live s') :
    ∃ t' ns', Sequence ⟨W.right, level W.right maxDepth maxDepth⟩ t ns' t' ∧ W.aligned s' t' ∧
      List.Forall₂ W.like ns ns' := by
  have hS : (W.stage maxDepth maxDepth 0 maxDepth).Coherent :=
    level_coherent hW (.inl ⟨rfl, rfl⟩) maxDepth
  induction h generalizing t with
  | nil => exact ⟨t, [], .nil t, haligned, .nil⟩
  | @cons s s₁ s' o ns real run rest ih =>
    have hlive₁ : W.live s₁ := hW.alive (rest.later (level_deepens _ _ _)) hlive
    have hmirrors := statementOrError_mirrors (t := t) hS haligned
    rw [show statementOrError (W.stage maxDepth maxDepth 0 maxDepth).left s = _ from run] at hmirrors
    obtain ⟨o', t₁, run', haligned₁, ho⟩ := hmirrors hlive₁
    rw [W.stage_right] at run'
    obtain ⟨t', ns', rest', haligned', hns⟩ := ih haligned₁ hlive
    have hreal : kindAt W.right t.position ≠ .endOfFile :=
      mt (hW.kindLike haligned (hclear s)).eq_endOfFile.mpr real
    refine ⟨t', o'.toList ++ ns', .cons hreal run' rest', haligned', List.rel_append ?_ hns⟩
    cases ho with
    | none => exact .nil
    | some hn => exact .cons hn .nil

/-! ### Lists that go on -/

/-- A statement that fails can be blamed for it. -/
theorem statement_blamed {tokens : Array Token} (hs : IsStream tokens) {maxDepth : Nat} {s s' : State}
    {e : Problem} (hi : s.position < tokens.size)
    (hrun : statement ⟨tokens, level tokens maxDepth maxDepth⟩ s = .error e s') :
    Advances tokens s s' ∧ Blames tokens s.position s'.position e := by
  have hreads := statement_reads (level_sound hs maxDepth maxDepth)
    (fun b hb => (Option.some.inj hb).ge) hi
  rw [hrun] at hreads
  obtain ⟨hadvances, b, hb, hblames⟩ := hreads
  exact ⟨hadvances, Option.some.inj hb ▸ hblames⟩

/-- What a statement that may fail gives if it does. -/
theorem statementOrError_failed {tokens : Array Token} (hs : IsStream tokens) {maxDepth : Nat}
    {s s' : State} {e : Problem}
    (hrun : statement ⟨tokens, level tokens maxDepth maxDepth⟩ s = .error e s')
    (hinside : s'.position < tokens.size) :
    ∃ s'', statementOrError ⟨tokens, level tokens maxDepth maxDepth⟩ s =
        .ok (World.damage? tokens s.position (World.resumption tokens s.position s'.position)) s'' ∧
      Same (World.resumed tokens s.position s' e) s'' := by
  obtain ⟨o, s'', hrecover, hsame, rfl⟩ := run_recover ⟨tokens, level tokens maxDepth maxDepth⟩
    s.made.size e (resumeFrom_lt hs hinside)
  exact ⟨s'', (run_statementOrError_error hrun).trans hrecover, hsame⟩

section GoesOn
variable {left right : Array Token} (h : GoesOn left right) {maxDepth : Nat}
include h

/-- What fails for a problem that does not reach to the end has not read the last token. -/
theorem GoesOn.failed_lt {s s' : State} {e : Problem} (hi : s.position < left.size)
    (hrun : Parsing.statement ⟨left, level left maxDepth maxDepth⟩ s = .error e s')
    (hcontained : Contained left e) : s'.position + 1 < left.size := by
  obtain ⟨hadvances, hblames⟩ := statement_blamed h.streamLeft hi hrun
  by_contra hend
  have hposition : s'.position = left.size - 1 := by
    have := hadvances.lt
    omega
  obtain ⟨i, hlast, hspan⟩ := hcontained.span_eq h.streamLeft (hposition ▸ hblames.reach)
  exact hblames.head i (by omega) (congrArg Span.start hspan) (h.last i hlast)

/-- A statement that can be read is the same in front of other tokens. -/
theorem GoesOn.statement_ok {s s' t : State} {n : Node}
    (haligned : (World.continued left right).aligned s t)
    (hrun : Parsing.statement ⟨left, level left maxDepth maxDepth⟩ s = .ok n s')
    (hinside : s'.position < left.size) (hcalm : Calm left s') :
    ∃ t', Parsing.statement ⟨right, level right maxDepth maxDepth⟩ t = .ok n t' ∧ Same s' t' := by
  have hright : _ = Scope.mk right (level right maxDepth maxDepth) :=
    (World.continued left right).stage_right maxDepth
  rw [← hright]
  by_cases hlast : s'.position + 1 < left.size
  · have hmirrors : Mirrors _ (World.continued left right).Live Parsing.statement s Parsing.statement t
        (World.continued left right).Nodes := descend_mirrors (h.stage maxDepth maxDepth) trivial
    have hmirrors := hmirrors haligned
    rw [show Parsing.statement ((World.continued left right).stage maxDepth maxDepth 0 maxDepth).left s =
      _ from hrun] at hmirrors
    obtain ⟨n', t', hrun', haligned', rfl⟩ := hmirrors ⟨hlast, hcalm⟩
    exact ⟨t', hrun', haligned'.2.1⟩
  · have hfinishes : Finishes _ (fun _ => True) Parsing.statement s t :=
      statement_finishes h maxDepth maxDepth
    exact hfinishes haligned n s' hrun ⟨by omega, hcalm⟩ trivial

/-- A statement that fails for a problem that does not reach to the end does so in front of other
tokens. -/
theorem GoesOn.statement_error {s s' t : State} {e : Problem}
    (haligned : (World.continued left right).aligned s t)
    (hrun : Parsing.statement ⟨left, level left maxDepth maxDepth⟩ s = .error e s')
    (hcalm : Calm left (s'.report e)) :
    ∃ t', Parsing.statement ⟨right, level right maxDepth maxDepth⟩ t = .error e t' ∧ Same s' t' := by
  have hcontained : Contained left e := hcalm.contained e (by simp [State.report])
  have hfailed := h.failed_lt (Nat.lt_of_succ_lt haligned.1) hrun hcontained
  have hmirrors : Mirrors _ (World.continued left right).Live Parsing.statement s Parsing.statement t
      (World.continued left right).Nodes := descend_mirrors (h.stage maxDepth maxDepth) trivial
  have hmirrors := hmirrors haligned
  rw [show Parsing.statement ((World.continued left right).stage maxDepth maxDepth 0 maxDepth).left s =
    _ from hrun] at hmirrors
  obtain ⟨e', t', hrun', haligned', rfl⟩ := hmirrors ⟨hfailed, hcalm⟩
  rw [(World.continued left right).stage_right maxDepth] at hrun'
  exact ⟨t', hrun', haligned'.2.1⟩

theorem GoesOn.damage_same {p m : Nat} (hm : m + 1 ≤ left.size) :
    World.damage? right p m = World.damage? left p m := by
  have hsize := h.size_le
  have htokens : List.Forall₂ Eq (right.extract p m).toList (left.extract p m).toList :=
    KindsAlike.extract_forall₂ (by omega) (by omega : m + 0 ≤ left.size)
      fun i (_ : p ≤ i) hi => h.same i (by omega)
  rw [List.forall₂_eq_eq_eq] at htokens
  rw [World.damage?, World.damage?, damageOver, damageOver, htokens]

/-- A statement that reports nothing that does harm is the same in front of other tokens. -/
theorem GoesOn.statement {s s' t : State} {o : Option Node} (hi : s.position + 1 < left.size)
    (hrun : statementOrError ⟨left, level left maxDepth maxDepth⟩ s = .ok o s')
    (hinside : s'.position < left.size) (hcalm : Calm left s') (hsame : Same s t) :
    ∃ t', statementOrError ⟨right, level right maxDepth maxDepth⟩ t = .ok o t' ∧ Same s' t' := by
  have hdeep := level_deepens left maxDepth maxDepth
  have haligned : (World.continued left right).aligned s t :=
    ⟨hi, hsame, hcalm.of_later (later_of_ok hdeep hrun)⟩
  cases hstatement : Parsing.statement ⟨left, level left maxDepth maxDepth⟩ s with
  | ok n s₁ =>
    rw [run_statementOrError_ok hstatement] at hrun
    cases hrun
    obtain ⟨t', hstatement', hsame'⟩ := h.statement_ok haligned hstatement hinside hcalm
    exact ⟨t', run_statementOrError_ok hstatement', hsame'⟩
  | error e s₁ =>
    obtain ⟨hadvances, _⟩ := statement_blamed h.streamLeft (Nat.lt_of_succ_lt hi) hstatement
    obtain ⟨s₂, hrun₂, hresumed⟩ := statementOrError_failed h.streamLeft hstatement hadvances.lt
    cases hrun₂.symm.trans hrun
    have hcalm₁ : Calm left (s₁.report e) := hcalm.same hresumed.2.symm
    obtain ⟨t₁, hstatement', hsame₁⟩ := h.statement_error haligned hstatement hcalm₁
    have hfailed := h.failed_lt (Nat.lt_of_succ_lt hi) hstatement (hcalm₁.contained e (by simp [State.report]))
    -- On both sides all that is left of the list is skipped.
    obtain ⟨hend, hend'⟩ := h.resumption (hcalm₁.plain Array.push_ne_empty) hadvances.le hfailed
    have hsize := h.size_le
    obtain ⟨t', hrun', hresumed'⟩ := statementOrError_failed h.streamRight hstatement'
      (by rw [hsame₁.1]; omega)
    rw [hsame.1, hsame₁.1, show World.resumption right _ _ = World.resumption left s.position s₁.position
      by omega, h.damage_same hend.le] at hrun'
    refine ⟨t', hrun', ?_, ?_⟩
    · rw [hresumed.1, hresumed'.1, World.resumed, World.resumed, hsame.1, hsame₁.1]
      show World.resumption right _ _ = World.resumption left _ _
      omega
    · rw [hresumed.2, hresumed'.2]
      exact congrArg (Array.push · e) hsame₁.2

/-- **Statements go on as they are**: those of a token list whose last token is a semicolon are the first
ones of any list that goes on behind it, as long as nothing is reported that does harm. -/
theorem GoesOn.sequence {s s' t : State} {ns : List Node}
    (hns : Sequence ⟨left, level left maxDepth maxDepth⟩ s ns s') (hspent : Spent left s')
    (hsame : Same s t) :
    ∃ t', Sequence ⟨right, level right maxDepth maxDepth⟩ t ns t' ∧ Same s' t' := by
  induction hns generalizing t with
  | nil => exact ⟨t, .nil t, hsame⟩
  | @cons s s₁ s' o ns real run rest ih =>
    have hlater := rest.later (level_deepens left maxDepth maxDepth)
    have hi : s.position + 1 < left.size := h.streamLeft.succ_lt_of_real real
    obtain ⟨t₁, run', hsame₁⟩ := h.statement hi run (hlater.le.trans_lt (Nat.lt_of_succ_le hspent.1.le))
      (hspent.2.of_later hlater) hsame
    obtain ⟨t', rest', hsame'⟩ := ih hspent hsame₁
    refine ⟨t', .cons ?_ run' rest', hsame'⟩
    rw [hsame.1, h.kind_same hi]
    exact real

end GoesOn

end ScriptTree.Parsing
