import Mathlib
import ScriptTree.CommandLine.Files
import ScriptTree.Proofs.Parsing.Spending

/-! The nodes that are held while a source is parsed.

A `Moment` of a parse is a state that it passes, at whatever depth. On each level the most is held when the
level ends, and by then all of it has been paid for. That says nothing of what is held deeper down: the level
might make many nodes first and read what pays for them later. So for each way deeper the level is run once
more with that way cut off (`Scope.cut`): there, as many nodes are made as may be made at all, and nothing is
read any more. This run pays for its nodes like any other, so what was held when it came there had been paid
for (`Moment.size_le`).

With the root and the comments there are at most 40 nodes for each byte and 40 more. So the indices of nodes
fit into 32 bits if the source is no larger than what is read from files (`nodesHeld_few`). -/
namespace ScriptTree

namespace Parsing

/-! ### Moments -/

/-- The states that a step passes from the state `s` on, with so many levels left. A step may be taken as
two in a row wherever it falls into such, down to those that read one token or make one node. -/
inductive Moment (tokens : Array Token) (maxDepth : Nat) :
    (levels : Nat) → {α : Type} → Parse α → State → State → Prop
  | front {levels : Nat} {α : Type} {m : Parse α} {s : State} (composed : Composed m) :
    Moment tokens maxDepth levels m s s
  | behind {levels : Nat} {α : Type} {m : Parse α} {s t : State} {a : α}
      (run : m ⟨tokens, level tokens maxDepth levels⟩ s = .ok a t) :
    Moment tokens maxDepth levels m s t
  | failed {levels : Nat} {α : Type} {m : Parse α} {s t : State} {e : Problem}
      (run : m ⟨tokens, level tokens maxDepth levels⟩ s = .error e t) :
    Moment tokens maxDepth levels m s t
  | first {levels : Nat} {α β : Type} {m : Parse α} {f : α → Parse β} {s t : State}
      (rest : ∀ a, Composed (f a)) (moment : Moment tokens maxDepth levels m s t) :
    Moment tokens maxDepth levels (m >>= f) s t
  | rest {levels : Nat} {α β : Type} {m : Parse α} {f : α → Parse β} {s s' t : State} {a : α}
      (first : Sectioned m) (rest : ∀ a, Composed (f a))
      (run : m ⟨tokens, level tokens maxDepth levels⟩ s = .ok a s')
      (moment : Moment tokens maxDepth levels (f a) s' t) :
    Moment tokens maxDepth levels (m >>= f) s t
  | deeper {levels : Nat} {goal : Goal} {s t : State}
      (moment : Moment tokens maxDepth levels (production goal) s t) :
    Moment tokens maxDepth (levels + 1) (descend goal) s t
  /-- A statement that may fail, while it is parsed. -/
  | attempt {levels : Nat} {s t : State}
      (moment : Moment tokens maxDepth levels (production .statement) s t) :
    Moment tokens maxDepth (levels + 1) statementOrError s t
  /-- A statement that has failed, while it is recovered from. -/
  | recovery {levels : Nat} {s s' t : State} {problem : Problem}
      (run : level tokens maxDepth levels .statement s = .error problem s')
      (moment : Moment tokens maxDepth levels
        (errorNode? s.position (s.resumed tokens s' problem).position)
        (s.resumed tokens s' problem) t) :
    Moment tokens maxDepth levels statementOrError s t

/-! ### Cutting off a way deeper -/

/-- The outcome of a way deeper that is cut off: it makes the nodes that the goal need not pay for, and
fails. If a statement failed, its nodes would be taken back; so it reads up to the end, and makes all the
nodes that this pays for. -/
def cutShort (tokens : Array Token) (goal : Goal) (s : State) : EStateM.Result Problem State Node :=
  let filler : Built := ⟨.named .error, .empty 0, none, false, false, []⟩
  if goal = .statement then
    let stop := { s with position := tokens.size - 1 }
    .ok (.leaf (.named .error) (.empty 0)) { stop with
      made := s.made ++ Array.replicate (worth tokens stop - worth tokens s) filler }
  else
    .error ⟨.invalidTarget, .empty 0⟩ { s with
      made := s.made ++ Array.replicate goal.need filler }

open Classical in
/-- A scope without one way deeper. -/
noncomputable def Scope.cut (scope : Scope) (goal : Goal) (s : State) : Scope where
  tokens := scope.tokens
  deeper goal' s' :=
    if goal' = goal ∧ s' = s then cutShort scope.tokens goal s else scope.deeper goal' s'

/-- Whether since the state `s` no less has been made than what was read pays for, and the goal may make
besides. -/
def Exhausts (tokens : Array Token) (goal : Goal) (s t : State) : Prop :=
  worth tokens t + s.made.size + goal.need ≤ worth tokens s + t.made.size

/-- Whether a step has come to the way deeper that is cut off. -/
def Stopped {α : Type} (tokens : Array Token) (goal : Goal) (s : State) :
    EStateM.Result Problem State α → Prop
  | .ok _ t => Exhausts tokens goal s t ∧ t.position + 1 = tokens.size
  | .error _ t => Exhausts tokens goal s t

section Cutting
variable {α β : Type} {scope : Scope} {goal : Goal} {s s₀ : State} {m : Parse α} {f : α → Parse β}

theorem Scope.deeper_cut : (scope.cut goal s₀).deeper goal s₀ = cutShort scope.tokens goal s₀ :=
  if_pos ⟨rfl, rfl⟩

theorem Scope.deeper_of_ne {goal' : Goal} (h : ¬(goal' = goal ∧ s = s₀)) :
    (scope.cut goal s₀).deeper goal' s = scope.deeper goal' s :=
  if_neg h

theorem stopped_cutShort {tokens : Array Token} (hs : s₀.position < tokens.size) :
    Stopped tokens goal s₀ (cutShort tokens goal s₀) := by
  unfold cutShort
  split
  · rename_i hgoal
    subst hgoal
    refine ⟨?_, Nat.sub_add_cancel (by omega)⟩
    simp only [Exhausts, Goal.need, Array.size_append, Array.size_replicate]
    show worth tokens { s₀ with position := tokens.size - 1 } + _ + _ ≤ _
    omega
  · simp only [Stopped, Exhausts, Array.size_append, Array.size_replicate]
    show worth tokens s₀ + _ + _ ≤ _
    omega

theorem grows_cutShort {tokens : Array Token} (hs : s₀.position < tokens.size) :
    Leads (Grows tokens) (fun _ => True) s₀ (cutShort tokens goal s₀) := by
  unfold cutShort
  split
  · refine ⟨fun _ => ⟨Nat.le_sub_one_of_lt hs, Nat.sub_one_lt_of_lt hs⟩, ?_⟩
    rw [Array.size_append]
    exact Nat.le_add_right _ _
  · refine ⟨⟨fun _ => ⟨Nat.le_refl _, hs⟩, ?_⟩, trivial⟩
    rw [Array.size_append]
    exact Nat.le_add_right _ _

theorem worth_le {tokens : Array Token} (hstream : IsStream tokens)
    (hs : s.position < tokens.size) :
    worth tokens s ≤ 39 * (spanAt tokens (tokens.size - 1)).start :=
  Nat.mul_le_mul_left 39 (hstream.start_le (Nat.le_sub_one_of_lt hs) (Nat.sub_one_lt_of_lt hs))

theorem pays_cutShort {tokens : Array Token} (hstream : IsStream tokens)
    (hs : s₀.position < tokens.size) :
    Pays tokens goal.need goal.gain s₀ (cutShort tokens goal s₀) := by
  unfold cutShort
  split
  · rename_i hgoal
    subst hgoal
    have hworth : worth tokens s₀ ≤ worth tokens { s₀ with position := tokens.size - 1 } :=
      worth_le hstream hs
    refine ⟨Nat.sub_one_lt_of_lt hs, ?_⟩
    simp only [Goal.need, Goal.gain, Array.size_append, Array.size_replicate]
    show _ ≤ _ + worth tokens { s₀ with position := tokens.size - 1 } + _
    omega
  · refine ⟨hs, ?_⟩
    simp only [Array.size_append, Array.size_replicate]
    show _ ≤ _ + worth tokens s₀ + _
    omega

/-- Whatever is parsed deeper down still pays for its nodes. -/
theorem Frugal.cut (hscope : Frugal scope) (hs₀ : s₀.position < scope.tokens.size) :
    Frugal (scope.cut goal s₀) := by
  refine ⟨hscope.metered, fun goal' s => ?_, fun goal' s hs => ?_⟩
  · by_cases hcut : goal' = goal ∧ s = s₀
    · obtain ⟨rfl, rfl⟩ := hcut
      rw [Scope.deeper_cut]
      exact grows_cutShort hs₀
    · rw [Scope.deeper_of_ne hcut]
      exact hscope.grows goal' s
  · by_cases hcut : goal' = goal ∧ s = s₀
    · obtain ⟨rfl, rfl⟩ := hcut
      rw [Scope.deeper_cut]
      exact pays_cutShort hscope.metered.stream hs₀
    · rw [Scope.deeper_of_ne hcut]
      exact hscope.pays goal' s hs

theorem Frugal.respected (hscope : Frugal scope) :
    Respected scope (Grows scope.tokens) fun _ => True :=
  hscope.metered.stream.endsOnce.grows hscope.grows

/-- Behind a way that is cut off nothing is read any more. -/
theorem Stopped.bind (hscope : Frugal scope) (hm : Stopped scope.tokens goal s₀ (m scope s))
    (hf : ∀ a, Composed (f a)) : Stopped scope.tokens goal s₀ ((m >>= f) scope s) := by
  cases hrun : m scope s with
  | error e t =>
    rw [hrun] at hm
    rw [run_bind_error hrun]
    exact hm
  | ok a t =>
    rw [hrun] at hm
    obtain ⟨hexhausts, hend⟩ := hm
    have hlast : t.position < scope.tokens.size := by omega
    have hstays {t' : State} (hgrows : Grows scope.tokens t t') :
        Exhausts scope.tokens goal s₀ t' ∧ t'.position + 1 = scope.tokens.size := by
      obtain ⟨hle, hlt⟩ := hgrows.proceeds hlast
      have hposition : t'.position = t.position := by omega
      have hsize := hgrows.size_le
      refine ⟨?_, hposition ▸ hend⟩
      unfold Exhausts worth at hexhausts ⊢
      rw [hposition]
      omega
    have hgrows := Composed.leads (m := f a) hscope.respected t
    rw [run_bind_ok hrun]
    cases hrest : f a scope t with
    | ok b t' =>
      rw [hrest] at hgrows
      exact hstays hgrows
    | error e t' =>
      rw [hrest] at hgrows
      exact (hstays hgrows.1).1

theorem stopped_statementOrError (hs : s.position < scope.tokens.size) :
    Stopped scope.tokens .statement s (statementOrError (scope.cut .statement s) s) := by
  have hstopped : Stopped _ .statement s _ := stopped_cutShort hs
  rw [statementOrError_eq, Scope.deeper_cut]
  rw [cutShort, if_pos rfl] at hstopped ⊢
  exact hstopped

/-- A run either does not come to the way that is cut off, or ends there. -/
theorem Sectioned.same_or_stopped (hm : Sectioned m) (hscope : Frugal scope)
    (hs₀ : s₀.position < scope.tokens.size) (s : State) : m (scope.cut goal s₀) s = m scope s ∨
      Stopped scope.tokens goal s₀ (m (scope.cut goal s₀) s) := by
  have hcut : Frugal (scope.cut goal s₀) := hscope.cut hs₀
  induction hm generalizing s with
  | grounded composed grounded => exact .inl (grounded.same _ _ _ s)
  | @bind α β m f first rest ih ih' =>
    rcases ih s with hsame | hstopped
    · cases hrun : m scope s with
      | ok a t =>
        rw [run_bind_ok hrun, run_bind_ok (hsame.trans hrun)]
        exact ih' a t
      | error e t =>
        rw [run_bind_error hrun, run_bind_error (hsame.trans hrun)]
        exact .inl rfl
    · exact .inr (Stopped.bind hcut hstopped fun a => (rest a).composed)
  | descend goal' =>
    by_cases hhere : goal' = goal ∧ s = s₀
    · obtain ⟨rfl, rfl⟩ := hhere
      refine .inr ?_
      show Stopped _ _ _ ((scope.cut goal' s).deeper goal' s)
      rw [Scope.deeper_cut]
      exact stopped_cutShort hs₀
    · exact .inl (Scope.deeper_of_ne hhere)
  | statementOrError =>
    by_cases hhere : .statement = goal ∧ s = s₀
    · obtain ⟨rfl, rfl⟩ := hhere
      exact .inr (stopped_statementOrError hs₀)
    · rw [statementOrError_eq, statementOrError_eq, Scope.deeper_of_ne hhere]
      cases scope.deeper .statement s with
      | ok n t => exact .inl rfl
      | error e t =>
        have hdamage (start stop : Nat) : Calls.Grounded (errorNode? start stop) := inferInstance
        exact .inl ((hdamage _ _).same _ _ _ _)

end Cutting

/-! ### What is held -/

/-- The state in which a step ends, whether it gives a value or fails. -/
def lastState {α : Type} : EStateM.Result Problem State α → State
  | .ok _ s => s
  | .error _ s => s

section Holding
variable {α β : Type} {tokens : Array Token} {maxDepth levels : Nat} {goal : Goal}
  {s s' t : State} {m : Parse α} {f : α → Parse β}

theorem lastState_ok {scope : Scope} {a : α} (h : m scope s = .ok a t) :
    lastState (m scope s) = t := by
  rw [h, lastState]

theorem lastState_error {scope : Scope} {e : Problem} (h : m scope s = .error e t) :
    lastState (m scope s) = t := by
  rw [h, lastState]

theorem Composed.grows_lastState [Composed m] {scope : Scope} (hscope : Frugal scope) (s : State) :
    Grows scope.tokens s (lastState (m scope s)) := by
  have hgrows := Composed.leads (m := m) hscope.respected s
  cases hrun : m scope s with
  | ok a t =>
    rw [hrun] at hgrows
    exact hgrows
  | error e t =>
    rw [hrun] at hgrows
    exact hgrows.1

theorem grows_bind {scope : Scope} (hscope : Frugal scope) (hf : ∀ a, Composed (f a)) :
    Grows scope.tokens (lastState (m scope s)) (lastState ((m >>= f) scope s)) := by
  cases hrun : m scope s with
  | ok a t =>
    rw [run_bind_ok hrun]
    exact Composed.grows_lastState hscope t
  | error e t =>
    rw [run_bind_error hrun]
    exact .refl

/-- Where a moment is: on the level itself, so that no less is held when that ends, or behind a way deeper,
with which the run ends if it is cut off. -/
inductive Located (tokens : Array Token) (maxDepth levels : Nat) {α : Type} (m : Parse α) (s t : State) :
    Prop
  | here (size_le : t.made.size ≤
      (lastState (m ⟨tokens, level tokens maxDepth levels⟩ s)).made.size)
  | deeper {left : Nat} (goal : Goal) (s' : State) (levels_eq : levels = left + 1)
      (inside : s.position < tokens.size → s'.position < tokens.size)
      (stopped : s'.position < tokens.size → Stopped tokens goal s'
        (m (Scope.cut ⟨tokens, level tokens maxDepth levels⟩ goal s') s))
      (moment : Moment tokens maxDepth left (production goal) s' t)

/-- The induction follows the parts into which the step falls. A way deeper that one of them takes is cut off
there, and the parts behind it add nothing to that. -/
theorem Moment.located (hmetered : Metered tokens) (h : Moment tokens maxDepth levels m s t) :
    Located tokens maxDepth levels m s t := by
  induction h with
  | front composed =>
    exact .here (Composed.grows_lastState (level_frugal hmetered maxDepth _) _).size_le
  | behind run => exact .here (by rw [lastState_ok run])
  | failed run => exact .here (by rw [lastState_error run])
  | @first levels α β m f s t rest moment ih =>
    have hscope := level_frugal hmetered maxDepth levels
    cases ih with
    | here size_le => exact .here (size_le.trans (grows_bind hscope rest).size_le)
    | deeper goal s' levels_eq inside stopped moment =>
      exact .deeper goal s' levels_eq inside (fun hs => (stopped hs).bind (hscope.cut hs) rest) moment
  | @rest levels α β m f s s' t a first rest run moment ih =>
    have hscope := level_frugal hmetered maxDepth levels
    cases ih with
    | here size_le => exact .here (by rwa [run_bind_ok run])
    | deeper goal s₀ levels_eq inside stopped moment =>
      have hcomposed := first.composed
      have hgrows := Composed.leads (m := m) hscope.respected s
      rw [run] at hgrows
      refine .deeper goal s₀ levels_eq (fun hs => inside (hgrows.proceeds hs).2) (fun hs => ?_) moment
      rcases first.same_or_stopped hscope hs s with hsame | hstopped
      · rw [run_bind_ok (hsame.trans run)]
        exact stopped hs
      · exact hstopped.bind (hscope.cut hs) rest
  | @deeper levels goal s t moment =>
    refine .deeper goal s rfl id (fun hs => ?_) moment
    show Stopped _ _ _ ((Scope.cut _ goal s).deeper goal s)
    rw [Scope.deeper_cut]
    exact stopped_cutShort hs
  | @attempt levels s t moment =>
    refine .deeper .statement s rfl id (fun hs => ?_) moment
    exact stopped_statementOrError hs
  | @recovery levels s s' t problem run moment ih =>
    have hlast : lastState (statementOrError ⟨tokens, level tokens maxDepth levels⟩ s) =
        lastState (errorNode? s.position (s.resumed tokens s' problem).position
          ⟨tokens, level tokens maxDepth levels⟩ (s.resumed tokens s' problem)) := by
      rw [statementOrError_eq]
      dsimp only
      rw [run]
    have hscope := level_frugal hmetered maxDepth levels
    cases ih with
    | here size_le => exact .here (by rwa [hlast])
    | deeper goal s₀ levels_eq inside stopped moment =>
      refine .deeper goal s₀ levels_eq (fun hs => ?_) (fun hs => ?_) moment
      · have hgrows := hscope.respected.recover s problem s' run
        exact inside (hgrows.proceeds hs).2
      · by_cases hhere : .statement = goal ∧ s = s₀
        · obtain ⟨rfl, rfl⟩ := hhere
          exact stopped_statementOrError hs
        · rw [statementOrError_eq, Scope.deeper_of_ne hhere]
          dsimp only
          rw [run]
          exact stopped hs

theorem Costs.spends {scope : Scope} {before after : Nat} (hm : Costs .anything before m after)
    (hscope : Frugal scope) (hs : s.position < scope.tokens.size) :
    Spends scope.tokens before 0 s (lastState (m scope s)) := by
  have hpays := hm.pays scope hscope s hs trivial
  cases hrun : m scope s with
  | ok a t =>
    rw [hrun] at hpays
    exact Spends.weaken hpays (Nat.zero_le after)
  | error e t =>
    rw [hrun] at hpays
    exact hpays

theorem Stopped.exhausts {result : EStateM.Result Problem State α}
    (h : Stopped tokens goal s' result) : Exhausts tokens goal s' (lastState result) := by
  cases result with
  | ok a t => exact h.1
  | error e t => exact h

/-- **At no moment is more held than what the tokens pay for**, where that was so in front. -/
theorem Moment.size_le (hmetered : Metered tokens) {before after : Nat}
    (hm : Costs .anything before m after) (hs : s.position < tokens.size)
    (hpaid : s.made.size + before ≤ worth tokens s) (h : Moment tokens maxDepth levels m s t) :
    t.made.size ≤ 39 * (spanAt tokens (tokens.size - 1)).start := by
  induction levels using Nat.strong_induction_on generalizing α m s before after with
  | _ levels ih =>
    have hscope := level_frugal hmetered maxDepth levels
    cases h.located hmetered with
    | here size_le =>
      have hspends : Spends tokens before 0 s _ := hm.spends hscope hs
      have hspent := hspends.paid
      have hworth := worth_le hmetered.stream hspends.inside
      omega
    | @deeper left goal s' levels_eq inside stopped moment =>
      have hcut : Frugal (Scope.cut _ goal s') := hscope.cut (inside hs)
      have hspends : Spends tokens before 0 s _ := hm.spends hcut hs
      have hspent := hspends.paid
      have hexhausts := (stopped (inside hs)).exhausts
      have hpaid' : s'.made.size + goal.need ≤ worth tokens s' := by
        unfold Exhausts at hexhausts
        omega
      have hgoal : Costs .anything goal.need (production goal) goal.gain := inferInstance
      exact ih left (by omega) hgoal (inside hs) hpaid' moment

end Holding

end Parsing

/-! ### Sources -/

section Sources
open Parsing
variable {source : String} {options : ParseOptions}

theorem size_comments_le (source : String) :
    (lex source).comments.size ≤ source.utf8ByteSize := by
  suffices h : ∀ (comments : List Comment) (a : Nat), a ≤ source.utf8ByteSize →
      comments.Pairwise (fun c c' => c.span.stop ≤ c'.span.start) →
      (∀ c ∈ comments, a ≤ c.span.start ∧ c.span.start < c.span.stop ∧
        c.span.stop ≤ source.utf8ByteSize) →
      a + comments.length ≤ source.utf8ByteSize by
    rw [← Array.length_toList, ← Nat.zero_add (lex source).comments.toList.length]
    refine h _ 0 (Nat.zero_le _) (lex_comments_ordered source) fun c hc => ?_
    obtain ⟨p, hp, hspan⟩ := comment_stands hc
    rw [hspan]
    exact ⟨Nat.zero_le _, hp.proper, hp.fits.stop.le_utf8ByteSize⟩
  intro comments
  induction comments with
  | nil => exact fun a ha _ _ => ha
  | cons c comments ih =>
    intro a ha hordered heach
    obtain ⟨hbehind, hordered⟩ := List.pairwise_cons.mp hordered
    obtain ⟨⟨hstart, hproper, hstop⟩, heach⟩ := List.forall_mem_cons.mp heach
    have hrest := ih c.span.stop hstop hordered fun c' hc' => ⟨hbehind c' hc', (heach c' hc').2⟩
    rw [List.length_cons]
    omega

/-- The numbers of nodes that are held at some moment while a source is parsed. The root is kept when
all statements have been parsed, and the comments after it. -/
inductive NodesHeld (source : String) (options : ParseOptions) : Nat → Prop
  /-- Of a source that is too long there is only the root. -/
  | refused {limit n : Nat} (limited : limit ∈ options.maxLength)
      (too_long : limit < source.utf8ByteSize) (n_le : n ≤ 1) : NodesHeld source options n
  | parsing {t : State} (fits : ∀ limit ∈ options.maxLength, source.utf8ByteSize ≤ limit)
      (moment : Moment (lex source).tokens options.maxDepth options.maxDepth
        (statements false #[]) {} t) :
      NodesHeld source options t.made.size
  | finishing {n : Nat} (fits : ∀ limit ∈ options.maxLength, source.utf8ByteSize ≤ limit)
      (n_le : n ≤ (lex source).comments.size) :
      NodesHeld source options
        ((runProgram (lex source).tokens options.maxDepth).2.made.size + 1 + n)

theorem moment_runProgram (source : String) (maxDepth : Nat) :
    Moment (lex source).tokens maxDepth maxDepth (statements false #[]) {}
      (runProgram (lex source).tokens maxDepth).2 := by
  unfold runProgram program
  split
  · exact .behind ‹_›
  · exact .failed ‹_›

theorem size_moment_le {maxDepth : Nat} {t : State}
    (h : Moment (lex source).tokens maxDepth maxDepth (statements false #[]) {} t) :
    t.made.size ≤ 39 * source.utf8ByteSize := by
  have hmetered := lex_metered source
  have hprogram : Costs .anything 0 (statements false #[]) 0 := inferInstance
  have hsize := h.size_le hmetered hprogram hmetered.stream.nonempty (Nat.zero_le _)
  rw [spanAt_last] at hsize
  exact hsize

/-- **The indices of nodes fit into 32 bits**, whatever is parsed and however, for at no moment are there
more than 40 nodes for each byte and 40 more. -/
theorem nodesHeld_few {n : Nat} (h : NodesHeld source options n) :
    n ≤ 40 * (source.utf8ByteSize + 1) ∧
      (source.utf8ByteSize ≤ File.maxSize → n < 2 ^ 32 ∧
        ∀ i j, i < n → j < n → UInt32.ofNat i = UInt32.ofNat j → i = j) := by
  have hle : n ≤ 40 * (source.utf8ByteSize + 1) := by
    cases h with
    | refused _ _ n_le => omega
    | parsing _ moment =>
      have hsize := size_moment_le moment
      omega
    | finishing _ n_le =>
      have hsize := size_moment_le (moment_runProgram source options.maxDepth)
      have hcomments := size_comments_le source
      omega
  refine ⟨hle, fun hlength => ?_⟩
  have hlt : n < 2 ^ 32 := by
    unfold File.maxSize at hlength
    omega
  refine ⟨hlt, fun i j hi hj hij => ?_⟩
  have hto := congrArg UInt32.toNat hij
  rwa [UInt32.toNat_ofNat_of_lt' (hi.trans hlt), UInt32.toNat_ofNat_of_lt' (hj.trans hlt)] at hto

theorem nodesHeld_few_break : NodesHeld "break; // end" {} 5 ∧
    5 ≤ 40 * ("break; // end".utf8ByteSize + 1) ∧ ("break; // end".utf8ByteSize ≤ File.maxSize →
      5 < 2 ^ 32 ∧ ∀ i j, i < 5 → j < 5 → UInt32.ofNat i = UInt32.ofNat j → i = j) := by
  have hmade : (runProgram (lex "break; // end").tokens 256).2.made.size = 3 := by decide +kernel
  have hcomments : 1 ≤ (lex "break; // end").comments.size := by decide +kernel
  have hheld : NodesHeld "break; // end" {} 5 := by
    have hfits : ∀ limit ∈ ({} : ParseOptions).maxLength, "break; // end".utf8ByteSize ≤ limit :=
      nofun
    have hfinishing := NodesHeld.finishing hfits hcomments
    rwa [hmade] at hfinishing
  exact ⟨hheld, nodesHeld_few hheld⟩

end Sources

end ScriptTree
