import Mathlib
import ScriptTree.Proofs.Calls.Woven
import ScriptTree.Proofs.Parsing.Rollback

/-! The calls that a run makes.

A function makes a call if it gets through, but not once that call overflows (`Step.Makes`): nothing else
tells from outside what a function calls. What is called from the first call on, directly or not, is
`Reached`. As functions are put together from parts, a call is made by one of them, from the state that the
parts in front have led to (`Makes.of_bind`); so what these states have in common, the reached calls have
(`Reached.sane`). In particular the function of statements that may fail is only called in front of a
token: the one function that calls it has looked for the end. -/
namespace ScriptTree.Calls

open Parsing

/-- A function with what it is called with, and from where. -/
structure Call where
  {α : Type}
  routine : Routine α
  depth : Nat
  state : State

/-- The frame in which one call overflows. -/
noncomputable def Frame.without (frame : Frame) (c : Call) : Frame :=
  open Classical in
  { frame with call := fun r depth s =>
      if (⟨r, depth, s⟩ : Call) = c then .overflow else frame.call r depth s }

/-- Whether a part of a function makes a call: it gets through, but not without that call. -/
def Step.Makes {α : Type} (m : Step α) (frame : Frame) (depth : Nat) (s : State) (c : Call) : Prop :=
  m frame depth s ≠ .overflow ∧ m (frame.without c) depth s = .overflow

/-- The calls that a run on a stack makes, with the room that they have. -/
inductive Reached (tokens : Array Token) (maxDepth : Nat) : (stack : Nat) → Call → Prop
  | start (stack : Nat) : Reached tokens maxDepth stack ⟨.statements false #[], 0, {}⟩
  | call {stack : Nat} {c c' : Call} (outer : Reached tokens maxDepth (stack + 1) c)
      (makes : c.routine.body.Makes ⟨tokens, maxDepth, exec tokens maxDepth stack⟩ c.depth c.state c') :
      Reached tokens maxDepth stack c'

/-! ### Less room -/

/-- Whether calls come to the same in two frames, unless they overflow in the first. -/
structure Frame.Under (frame frame' : Frame) : Prop where
  tokens : frame.tokens = frame'.tokens
  maxDepth : frame.maxDepth = frame'.maxDepth
  call : ∀ {α : Type} (r : Routine α) depth s,
    frame.call r depth s = .overflow ∨ frame.call r depth s = frame'.call r depth s

section Under
variable {α β : Type} {risky : Bool} {frame frame' : Frame} {depth : Nat} {s : State} {c : Call}

theorem Frame.without_under (frame : Frame) (c : Call) : (frame.without c).Under frame := by
  refine ⟨rfl, rfl, fun r depth s => ?_⟩
  unfold Frame.without
  dsimp only
  split
  · exact .inl rfl
  · exact .inr rfl

/-- What does not overflow comes to the same with more room. -/
theorem Woven.under {m : Step α} (h : Woven risky m) (hframe : frame.Under frame') (depth : Nat)
    (s : State) : m frame depth s = .overflow ∨ m frame depth s = m frame' depth s := by
  obtain ⟨tokens, maxDepth, call⟩ := frame
  obtain ⟨tokens', maxDepth', call'⟩ := frame'
  obtain ⟨rfl : tokens = tokens', rfl : maxDepth = maxDepth', hcall⟩ := hframe
  dsimp only at hcall
  induction h generalizing depth s with
  | pure a => exact .inr rfl
  | @bind α β m f _ _ hm hf =>
    simp only [Bind.bind]
    rcases hm depth s with hover | hsame
    · rw [hover]
      exact .inl rfl
    · rw [hsame]
      cases m ⟨tokens, maxDepth, call'⟩ depth s with
      | ok a s' depth' => exact hf a depth' s'
      | error e s' depth' => exact .inr rfl
      | overflow => exact .inl rfl
  | lift p => exact .inr rfl
  | recover start mark problem => exact .inr rfl
  | call r => exact hcall r depth s
  | nested goal =>
    unfold Step.nested
    dsimp only
    split
    · exact .inr rfl
    · rcases hcall (.ofGoal goal) (depth + 1) s with hover | hsame
      · rw [hover]
        exact .inl rfl
      · rw [hsame]
        exact .inr rfl
  | @recovering α m handle _ _ hm hh =>
    unfold Step.recovering
    rcases hm depth s with hover | hsame
    · rw [hover]
      exact .inl rfl
    · rw [hsame]
      cases m ⟨tokens, maxDepth, call'⟩ depth s with
      | ok a s' depth' => exact .inr rfl
      | error e s' depth' => exact hh e depth' s'
      | overflow => exact .inl rfl

/-- A call that does not overflow comes to the same on a larger stack. -/
theorem exec_mono (tokens : Array Token) (maxDepth : Nat) {stack stack' : Nat} (hle : stack ≤ stack')
    (r : Routine α) (depth : Nat) (s : State) :
    exec tokens maxDepth stack r depth s = .overflow ∨
      exec tokens maxDepth stack r depth s = exec tokens maxDepth stack' r depth s := by
  induction stack generalizing α stack' depth s with
  | zero => exact .inl rfl
  | succ stack ih =>
    obtain ⟨stack', rfl⟩ : ∃ n, stack' = n + 1 := ⟨stack' - 1, by omega⟩
    have hunder : Frame.Under ⟨tokens, maxDepth, exec tokens maxDepth stack⟩
        ⟨tokens, maxDepth, exec tokens maxDepth stack'⟩ :=
      ⟨rfl, rfl, fun r depth s => ih (Nat.le_of_succ_le_succ hle) r depth s⟩
    exact (body_woven r).under hunder depth s

end Under

/-! ### Where calls are made -/

section Makes
variable {α β : Type} {risky : Bool} {frame : Frame} {depth : Nat} {s : State} {c : Call}

/-- A part makes a call if its first part does, or the rest behind that. -/
theorem Step.Makes.of_bind {m : Step α} {f : α → Step β} (hm : Woven risky m)
    (h : (m >>= f).Makes frame depth s c) :
    m.Makes frame depth s c ∨
      ∃ a s' depth', m frame depth s = .ok a s' depth' ∧ (f a).Makes frame depth' s' c := by
  obtain ⟨hthrough, hover⟩ := h
  simp only [Bind.bind] at hthrough hover
  rcases hm.under (frame.without_under c) depth s with hfirst | hsame
  · refine .inl ⟨fun hrun => hthrough ?_, hfirst⟩
    rw [hrun]
  · rw [hsame] at hover
    cases hrun : m frame depth s with
    | ok a s' depth' =>
      rw [hrun] at hthrough hover
      exact .inr ⟨a, s', depth', rfl, hthrough, hover⟩
    | error e s' depth' =>
      rw [hrun] at hover
      cases hover
    | overflow =>
      rw [hrun] at hthrough
      exact absurd rfl hthrough

theorem Step.Makes.of_recovering {m : Step α} {handle : Problem → Step α} (hm : Woven risky m)
    (h : (Step.recovering m handle).Makes frame depth s c) :
    m.Makes frame depth s c ∨
      ∃ e s' depth', m frame depth s = .error e s' depth' ∧ (handle e).Makes frame depth' s' c := by
  obtain ⟨hthrough, hover⟩ := h
  unfold Step.recovering at hthrough hover
  rcases hm.under (frame.without_under c) depth s with hfirst | hsame
  · refine .inl ⟨fun hrun => hthrough ?_, hfirst⟩
    rw [hrun]
  · rw [hsame] at hover
    cases hrun : m frame depth s with
    | ok a s' depth' =>
      rw [hrun] at hover
      cases hover
    | error e s' depth' =>
      rw [hrun] at hthrough hover
      exact .inr ⟨e, s', depth', rfl, hthrough, hover⟩
    | overflow =>
      rw [hrun] at hthrough
      exact absurd rfl hthrough

/-- What calls nothing makes no call. -/
theorem not_makes_lift (p : Parse α) : ¬(Step.lift p).Makes frame depth s c := by
  intro h
  have hover := h.2
  unfold Step.lift at hover
  split at hover <;> cases hover

/-- What calls nothing leaves all calls to the rest. -/
theorem Step.Makes.of_lift {p : Parse α} [Composed p] {f : α → Step β}
    (h : ((liftM p : Step α) >>= f).Makes frame depth s c) :
    ∃ a s' depth', Step.lift p frame depth s = .ok a s' depth' ∧ (f a).Makes frame depth' s' c := by
  have hwoven : Woven true (liftM p : Step α) := inferInstance
  exact (h.of_bind hwoven).resolve_left (not_makes_lift p)

/-- A call makes itself. -/
theorem Step.Makes.of_call {r : Routine α} (h : (Step.call r).Makes frame depth s c) :
    c = ⟨r, depth, s⟩ := by
  obtain ⟨hthrough, hover⟩ := h
  by_contra hne
  refine hthrough ?_
  rw [Step.call, Frame.without] at hover
  dsimp only at hover
  rwa [if_neg fun heq => hne heq.symm] at hover

theorem Step.Makes.of_nested {goal : Goal} (h : (Step.nested goal).Makes frame depth s c) :
    depth < frame.maxDepth ∧ c = ⟨.ofGoal goal, depth + 1, s⟩ := by
  obtain ⟨hthrough, hover⟩ := h
  unfold Step.nested at hthrough hover
  split at hthrough
  · rw [if_pos (show (frame.without c).maxDepth ≤ depth from ‹_›)] at hover
    cases hover
  · rename_i hdeeper
    rw [if_neg (show ¬(frame.without c).maxDepth ≤ depth from hdeeper)] at hover
    have hcall : (Step.call (.ofGoal goal)).Makes frame (depth + 1) s c := by
      refine ⟨fun hrun => hthrough ?_, ?_⟩
      · rw [Step.call] at hrun
        rw [hrun]
      · rw [Step.call]
        split at hover
        · cases hover
        · cases hover
        · assumption
    exact ⟨Nat.lt_of_not_le hdeeper, hcall.of_call⟩

/-- A call that is made does not overflow. -/
theorem Step.Makes.returns {m : Step α} (h : m.Makes frame depth s c) :
    frame.call c.routine c.depth c.state ≠ .overflow := by
  intro hover
  refine h.1 ?_
  have hsame : frame.without c = frame := by
    unfold Frame.without
    congr 1
    funext α r depth s
    split
    · rename_i heq
      subst heq
      exact hover.symm
    · rfl
  rw [← hsame]
  exact h.2

end Makes

/-! ### What the reached states have in common -/

/-- Whether the state behind a call has a property, unless the stack overflowed. -/
def Outcome.Leaves {α : Type} (p : State → Prop) : Outcome α → Prop
  | .ok _ s _ | .error _ s _ => p s
  | .overflow => True

/-- Whether calls keep the states of a parse sane. -/
def Frame.Sane (frame : Frame) : Prop :=
  ∀ {α : Type} (r : Routine α) depth s, Parsing.Sane frame.tokens s →
    (frame.call r depth s).Leaves (Parsing.Sane frame.tokens)

/-- What is at hand where nothing is called. -/
def aloneWith (tokens : Array Token) : Scope := ⟨tokens, fun _ s => .error ⟨.tooDeep 0, .empty 0⟩ s⟩

section Sane
variable {α : Type} {risky : Bool} {frame : Frame} {tokens : Array Token} {depth : Nat} {s : State}

theorem alone_respected (hends : EndsOnce tokens) : Respected (aloneWith tokens)
    (fun s s' => Parsing.Sane tokens s → Parsing.Sane tokens s') fun _ => True :=
  @EndsOnce.sane_respected (aloneWith tokens) hends fun _ _ => ⟨id, trivial⟩

theorem sane_lift {p : Parse α} (hp : Leads
      (fun s s' => Parsing.Sane frame.tokens s → Parsing.Sane frame.tokens s') (fun _ => True) s
      (p (aloneWith frame.tokens) s)) (hs : Parsing.Sane frame.tokens s) :
    (Step.lift p frame depth s).Leaves (Parsing.Sane frame.tokens) := by
  unfold Step.lift
  change Leads _ _ s (p ⟨frame.tokens, fun _ s => .error ⟨.tooDeep 0, .empty 0⟩ s⟩ s) at hp
  cases hrun : p ⟨frame.tokens, fun _ s => .error ⟨.tooDeep 0, .empty 0⟩ s⟩ s with
  | ok a s' =>
    rw [hrun] at hp
    exact hp hs
  | error e s' =>
    rw [hrun] at hp
    exact hp.1 hs

theorem recover_leads (hends : EndsOnce tokens) (start mark : Nat) (problem : Problem) (s : State) :
    Leads (fun s s' => Parsing.Sane tokens s → Parsing.Sane tokens s') (fun _ => True) s
      (recover start mark problem (aloneWith tokens) s) :=
  (alone_respected hends).leads_trans
    (fun hs => ⟨hends.resumeFrom_lt hs.inside, hs.grown.shrink mark⟩)
    ((alone_respected hends).leads_errorNode start _ _)

theorem Woven.sane {m : Step α} (h : Woven risky m) (hends : EndsOnce frame.tokens)
    (hframe : frame.Sane) (depth : Nat) (s : State) (hs : Parsing.Sane frame.tokens s) :
    (m frame depth s).Leaves (Parsing.Sane frame.tokens) := by
  induction h generalizing depth s with
  | pure a => exact hs
  | @bind α β m f _ _ hm hf =>
    have hfirst := hm depth s hs
    simp only [Bind.bind]
    cases hrun : m frame depth s with
    | ok a s' depth' =>
      rw [hrun] at hfirst
      exact hf a depth' s' hfirst
    | error e s' depth' =>
      rw [hrun] at hfirst
      exact hfirst
    | overflow => trivial
  | lift p hp => exact sane_lift (Composed.leads (alone_respected hends) s) hs
  | recover start mark problem => exact sane_lift (recover_leads hends start mark problem s) hs
  | call r => exact hframe r depth s hs
  | nested goal =>
    have hcall := hframe (.ofGoal goal) (depth + 1) s hs
    unfold Step.nested
    split
    · exact hs
    · cases hrun : frame.call (.ofGoal goal) (depth + 1) s with
      | ok n s' depth' =>
        rw [hrun] at hcall
        exact hcall
      | error e s' depth' =>
        rw [hrun] at hcall
        exact hcall
      | overflow => trivial
  | @recovering α m handle _ _ hm hh =>
    have hfirst := hm depth s hs
    unfold Step.recovering
    cases hrun : m frame depth s with
    | ok a s' depth' =>
      rw [hrun] at hfirst
      exact hfirst
    | error e s' depth' =>
      rw [hrun] at hfirst
      exact hh e depth' s' hfirst
    | overflow => trivial

theorem exec_sane (hends : EndsOnce tokens) (maxDepth stack : Nat) :
    Frame.Sane ⟨tokens, maxDepth, exec tokens maxDepth stack⟩ := by
  induction stack with
  | zero => exact fun _ _ _ _ => trivial
  | succ stack ih =>
    intro α r depth s hs
    let frame : Frame := ⟨tokens, maxDepth, exec tokens maxDepth stack⟩
    have hends : EndsOnce frame.tokens := hends
    exact (body_woven r).sane hends ih depth s hs

end Sane

/-- What a call has that is made in a run: its state is one of a parse, its depth is within the limit,
and if it is that of a statement that may fail, it is in front of a token. -/
structure Call.Fits (tokens : Array Token) (maxDepth : Nat) (c : Call) : Prop where
  sane : Sane tokens c.state
  depth : c.depth ≤ maxDepth
  real : c.routine.recovers = true → kindAt tokens c.state.position ≠ .endOfFile

/-- What calls do in a frame of a run. -/
structure Frame.Sound (frame : Frame) : Prop where
  endsOnce : EndsOnce frame.tokens
  restores : frame.Restores
  sane : frame.Sane

section Fits
variable {α : Type} {frame : Frame} {depth : Nat} {s : State} {c : Call}

theorem recovers_ofGoal (goal : Goal) : (Routine.ofGoal goal).recovers = false := by
  cases goal <;> rfl

/-- The depth and the state behind a part. -/
theorem Woven.behind {risky : Bool} {m : Step α} (h : Woven risky m) (hframe : frame.Sound)
    (hs : Sane frame.tokens s) {a : α} {s' : State} {depth' : Nat}
    (hrun : m frame depth s = .ok a s' depth') : depth' = depth ∧ Sane frame.tokens s' := by
  have hrestores := h.restores hframe.restores depth s
  have hsane := h.sane hframe.endsOnce hframe.sane depth s hs
  rw [hrun] at hrestores hsane
  exact ⟨hrestores, hsane⟩

/-- What a part calls from a state of a parse, it calls from such states. -/
theorem Woven.makes {m : Step α} (h : Woven false m) (hframe : frame.Sound) (hs : Sane frame.tokens s)
    (hdepth : depth ≤ frame.maxDepth) (hmakes : m.Makes frame depth s c) :
    c.Fits frame.tokens frame.maxDepth := by
  induction h generalizing depth s with
  | pure a => cases hmakes.2
  | @bind α β m f hm hf ihm ihf =>
    rcases hmakes.of_bind hm with hfirst | ⟨a, s', depth', hrun, hrest⟩
    · exact ihm hs hdepth hfirst
    · obtain ⟨rfl, hs'⟩ := hm.behind hframe hs hrun
      exact ihf a hs' hdepth hrest
  | lift p => exact absurd hmakes (not_makes_lift p)
  | recover start mark problem => exact absurd hmakes (not_makes_lift _)
  | call r risk =>
    obtain rfl := hmakes.of_call
    exact ⟨hs, hdepth, fun hrecovers => absurd (risk hrecovers) Bool.false_ne_true⟩
  | nested goal =>
    obtain ⟨hdeeper, rfl⟩ := hmakes.of_nested
    exact ⟨hs, hdeeper, fun hrecovers =>
      absurd ((recovers_ofGoal goal).symm.trans hrecovers) Bool.false_ne_true⟩
  | @recovering α m handle hm hh ihm ihh =>
    rcases hmakes.of_recovering hm with hfirst | ⟨e, s', depth', hrun, hrest⟩
    · exact ihm hs hdepth hfirst
    · have hrestores := hm.restores hframe.restores depth s
      have hsane := hm.sane hframe.endsOnce hframe.sane depth s hs
      rw [hrun] at hrestores hsane
      obtain rfl : depth' = depth := hrestores
      exact ihh e hsane hdepth hrest

theorem rounds_makes {round : α → Step (Round α)} (hround : ∀ a, Woven true (round a))
    (hframe : frame.Sound) (hfits : ∀ a s, Sane frame.tokens s → (round a).Makes frame depth s c →
      c.Fits frame.tokens frame.maxDepth) (n : Nat) (a : α) (hs : Sane frame.tokens s)
    (hmakes : (Step.rounds round n a).Makes frame depth s c) : c.Fits frame.tokens frame.maxDepth := by
  induction n generalizing a s with
  | zero => cases hmakes.2
  | succ n ih =>
    unfold Step.rounds at hmakes
    rcases hmakes.of_bind (hround a) with hfirst | ⟨outcome, s', depth', hrun, hrest⟩
    · exact hfits a s hs hfirst
    · obtain ⟨rfl, hs'⟩ := (hround a).behind hframe hs hrun
      cases outcome with
      | more a' => exact ih a' hs' hrest
      | done a' => cases hrest.2

/-- Statements that may fail are only called for in front of a token. -/
theorem statements_makes (hframe : frame.Sound) (hs : Sane frame.tokens s)
    (hdepth : depth ≤ frame.maxDepth) {inBlock : Bool} {children : Array Node}
    (hmakes : (Step.statements inBlock children).Makes frame depth s c) :
    c.Fits frame.tokens frame.maxDepth := by
  rw [Step.statements_eq, Woven.repeatFrom_eq] at hmakes
  obtain ⟨bound, s', depth', hrun, hrounds⟩ := hmakes.of_lift
  cases hrun
  refine rounds_makes (fun children => inferInstance) hframe (fun children s hs hround => ?_) _ _ hs
    hrounds
  unfold Step.statementsRound at hround
  obtain ⟨ended, s', depth', hrun, hround⟩ := hround.of_lift
  cases hrun
  split at hround
  · cases hround.2
  rename_i hreal
  obtain ⟨closing, s', depth', hrun, hround⟩ := hround.of_lift
  cases hrun
  split at hround
  · cases hround.2
  have hwoven : Woven true (Step.call .statementOrError) := inferInstance
  rcases hround.of_bind hwoven with hcall | ⟨o, s', depth', hrun, hrest⟩
  · obtain rfl := hcall.of_call
    exact ⟨hs, hdepth, fun _ hend => hreal (beq_iff_eq.mpr hend)⟩
  · cases o <;> cases hrest.2

theorem body_makes (hframe : frame.Sound) (r : Routine α) (hs : Sane frame.tokens s)
    (hdepth : depth ≤ frame.maxDepth) (hmakes : r.body.Makes frame depth s c) :
    c.Fits frame.tokens frame.maxDepth := by
  have hwoven := body_woven r
  cases hrepeats : r.repeatsStatements with
  | false =>
    rw [hrepeats] at hwoven
    exact hwoven.makes hframe hs hdepth hmakes
  | true =>
    cases r with
    | statements inBlock children => exact statements_makes hframe hs hdepth hmakes
    | _ => cases hrepeats

end Fits

/-! ### Reached calls -/

section Reached
variable {tokens : Array Token} {maxDepth stack : Nat} {c : Call}

theorem exec_sound (hends : EndsOnce tokens) (maxDepth stack : Nat) :
    Frame.Sound ⟨tokens, maxDepth, exec tokens maxDepth stack⟩ :=
  ⟨hends, fun r => exec_restores tokens maxDepth stack r, exec_sane hends maxDepth stack⟩

/-- All calls of a run are made from states of a parse, and a statement that may fail is called for in
front of a token. -/
theorem Reached.fits (hends : EndsOnce tokens) (h : Reached tokens maxDepth stack c) :
    c.Fits tokens maxDepth := by
  induction h with
  | start stack =>
    exact ⟨⟨hends.nonempty, .empty⟩, Nat.zero_le _, fun hrecovers => absurd hrecovers Bool.false_ne_true⟩
  | call outer makes ih => exact body_makes (exec_sound hends maxDepth _) _ ih.sane ih.depth makes

/-- The calls that a run makes of statements that may fail have room enough. -/
theorem Reached.returns (h : Reached tokens maxDepth stack c) (hrecovers : c.routine.recovers = true) :
    exec tokens maxDepth stack c.routine c.depth c.state ≠ .overflow := by
  cases h with
  | start stack => cases hrecovers
  | call outer makes => exact makes.returns

end Reached

end ScriptTree.Calls
