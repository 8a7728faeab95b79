import Mathlib
import ScriptTree.Proofs.Parsing.Placement

/-! A logic for productions.

`Reads scope entry m s post` says what the parsing step `m` does from the state `s`: it goes forward
in the tokens and forgets no report; if it gives a value, `post` holds of it and of the state
behind it; if it fails, the statement that began at the index `entry` can be blamed for the problem.
Without an entry the step must not fail.

The rules go by the way steps are put together: sequence (`Reads.bind`), looking ahead (the
`reads_…_bind` lemmas), and rounds, each of which reads a token (`Reads.loop`). What the
parts that read tokens and make nodes give is stated with `Made` and `Gives`, which speak of the
forest between two states. -/
namespace ScriptTree.Parsing

/-! ### The judgement -/

/-- A state further on in the same parse. -/
structure Advances (tokens : Array Token) (s s' : State) : Prop where
  le : s.position ≤ s'.position
  lt : s'.position < tokens.size
  problems : s.problems.toList <+: s'.problems.toList

theorem Advances.trans {tokens : Array Token} {s s' s'' : State} (h : Advances tokens s s')
    (h' : Advances tokens s' s'') : Advances tokens s s'' :=
  ⟨h.le.trans h'.le, h'.lt, h.problems.trans h'.problems⟩

theorem Advances.refl {tokens : Array Token} {s : State} (h : s.position < tokens.size) :
    Advances tokens s s :=
  ⟨Nat.le_refl _, h, List.prefix_rfl⟩

/-- Whether a span reaches from the start of a token to the end of the same or of a later one. -/
def IsStretch (tokens : Array Token) (span : Span) : Prop :=
  ∃ i j, i ≤ j ∧ j < tokens.size ∧ span = ⟨(spanAt tokens i).start, (spanAt tokens j).stop⟩

theorem isStretch_spanAt {tokens : Array Token} {i : Nat} (h : i < tokens.size) :
    IsStretch tokens (spanAt tokens i) :=
  ⟨i, i, Nat.le_refl i, h, rfl⟩

/-- Whether a statement that began at the index `entry` can be blamed for a problem met at the
index `position`. The problem starts in the statement and not behind the next token, but for a sign
that no decimal integer follows: there it starts behind the sign. If it starts in what has been read, it
is about all of that from there on. -/
structure Blames (tokens : Array Token) (entry position : Nat) (problem : Problem) : Prop where
  kind : problem.cause.kind = .grammar ∨ problem.cause.kind = .limit
  after : (spanAt tokens entry).start ≤ problem.span.start
  before : problem.span.start ≤ (spanAt tokens position).start ∨
    isSign (kindAt tokens position) = true ∧
      problem.span.start ≤ (spanAt tokens (position + 1)).start
  stretch : IsStretch tokens problem.span
  reach : stopBefore tokens position ≤ problem.span.start ∨
    stopBefore tokens position ≤ problem.span.stop
  /-- What cannot stay as it is was read as an expression, and none begins with a semicolon. -/
  head : ∀ i < position, problem.span.start = (spanAt tokens i).start →
    kindAt tokens i ≠ .punctuation .semicolon

/-- What a step does from a state. -/
def Reads {α : Type} (scope : Scope) (entry : Option Nat) (m : Parse α) (s : State)
    (post : α → State → Prop) : Prop :=
  (∀ b ∈ entry, b ≤ s.position) → s.position < scope.tokens.size →
    match m scope s with
    | .ok a s' => Advances scope.tokens s s' ∧ post a s'
    | .error e s' =>
      Advances scope.tokens s s' ∧ ∃ b ∈ entry, Blames scope.tokens b s'.position e

section Rules
variable {α β : Type} {scope : Scope} {entry : Option Nat} {s : State}

theorem Reads.pure {a : α} {post : α → State → Prop} (h : post a s) :
    Reads scope entry (Pure.pure a) s post :=
  fun _ hlt => ⟨.refl hlt, h⟩

theorem Reads.bind {m : Parse α} {f : α → Parse β} {post : α → State → Prop}
    {post' : β → State → Prop} (h : Reads scope entry m s post)
    (hf : ∀ a s', post a s' → Reads scope entry (f a) s' post') :
    Reads scope entry (m >>= f) s post' := by
  intro hentry hlt
  have hm := h hentry hlt
  cases hrun : m scope s with
  | error e s' =>
    have hbind : (m >>= f) scope s = .error e s' := by
      simp only [Bind.bind, ReaderT.bind, EStateM.bind, hrun]
    rw [hrun] at hm
    rw [hbind]
    exact hm
  | ok a s' =>
    have hbind : (m >>= f) scope s = f a scope s' := by
      simp only [Bind.bind, ReaderT.bind, EStateM.bind, hrun]
    rw [hrun] at hm
    rw [hbind]
    have hrest := hf a s' hm.2 (fun b hb => (hentry b hb).trans hm.1.le) hm.1.lt
    split at hrest
    · exact ⟨hm.1.trans hrest.1, hrest.2⟩
    · exact ⟨hm.1.trans hrest.1, hrest.2⟩

theorem Reads.mono {m : Parse α} {post post' : α → State → Prop} (h : Reads scope entry m s post)
    (himp : ∀ a s', post a s' → post' a s') : Reads scope entry m s post' := by
  intro hentry hlt
  have hm := h hentry hlt
  split at hm
  · exact ⟨hm.1, himp _ _ hm.2⟩
  · exact hm

theorem Reads.advancing {m : Parse α} {post : α → State → Prop} (h : Reads scope entry m s post) :
    Reads scope entry m s fun a s' => post a s' ∧ Advances scope.tokens s s' := by
  intro hentry hlt
  have hm := h hentry hlt
  split at hm
  · exact ⟨hm.1, hm.2, hm.1⟩
  · exact hm

/-- What holds of every state that a step may be asked from can be used to show what it does. -/
theorem Reads.of_lt {m : Parse α} {post : α → State → Prop}
    (h : s.position < scope.tokens.size → (∀ b ∈ entry, b ≤ s.position) →
      Reads scope entry m s post) : Reads scope entry m s post :=
  fun hentry hlt => h hlt hentry hentry hlt

theorem Reads.ite {c : Prop} [Decidable c] {m m' : Parse α} {post : α → State → Prop}
    (hthen : c → Reads scope entry m s post) (helse : ¬c → Reads scope entry m' s post) :
    Reads scope entry (if c then m else m') s post := by
  split
  · exact hthen ‹_›
  · exact helse ‹_›

/-! ### Looking ahead -/

section Looking
variable {post : β → State → Prop}

theorem reads_read_bind {f : Scope → Parse β} : Reads scope entry (read >>= f) s post ↔
    Reads scope entry (f scope) s post := Iff.rfl

theorem reads_get_bind {f : State → Parse β} : Reads scope entry (get >>= f) s post ↔
    Reads scope entry (f s) s post := Iff.rfl

theorem reads_peek_bind {f : Token → Parse β} : Reads scope entry (peek >>= f) s post ↔
    Reads scope entry (f (tokenAt scope.tokens s.position)) s post := Iff.rfl

theorem reads_tokenAhead_bind {n : Nat} {f : Token → Parse β} :
    Reads scope entry (tokenAhead n >>= f) s post ↔
      Reads scope entry (f (tokenAt scope.tokens (s.position + n))) s post := Iff.rfl

theorem reads_kindAhead_bind {n : Nat} {f : TokenKind → Parse β} :
    Reads scope entry (kindAhead n >>= f) s post ↔
      Reads scope entry (f (kindAt scope.tokens (s.position + n))) s post := Iff.rfl

theorem reads_peekKind_bind {f : TokenKind → Parse β} :
    Reads scope entry (peekKind >>= f) s post ↔
      Reads scope entry (f (kindAt scope.tokens s.position)) s post := Iff.rfl

theorem reads_atEnd_bind {f : Bool → Parse β} : Reads scope entry (atEnd >>= f) s post ↔
    Reads scope entry (f (kindAt scope.tokens s.position == .endOfFile)) s post := Iff.rfl

theorem reads_sees_bind {mark : Punctuation} {f : Bool → Parse β} :
    Reads scope entry (sees mark >>= f) s post ↔
      Reads scope entry (f ((kindAt scope.tokens s.position).isPunctuation mark)) s post := Iff.rfl

theorem reads_seesOperator_bind {o : Operator} {f : Bool → Parse β} :
    Reads scope entry (seesOperator o >>= f) s post ↔
      Reads scope entry (f ((kindAt scope.tokens s.position).isOperator o)) s post := Iff.rfl

theorem reads_seesWord_bind {word : Keyword} {f : Bool → Parse β} :
    Reads scope entry (seesWord word >>= f) s post ↔
      Reads scope entry (f ((kindAt scope.tokens s.position).isKeyword word)) s post := Iff.rfl

theorem reads_seesIdentifier_bind {f : Bool → Parse β} :
    Reads scope entry (seesIdentifier >>= f) s post ↔
      Reads scope entry (f (kindAt scope.tokens s.position).isIdentifier) s post := Iff.rfl

theorem reads_madeCount_bind {f : Nat → Parse β} : Reads scope entry (madeCount >>= f) s post ↔
    Reads scope entry (f s.made.size) s post := Iff.rfl

theorem reads_lastStop_bind {f : Nat → Parse β} : Reads scope entry (lastStop >>= f) s post ↔
    Reads scope entry (f (stopBefore scope.tokens s.position)) s post := Iff.rfl

end Looking

/-- Looking past a bracket changes nothing. -/
theorem closesBefore_reads (p : TokenKind → Bool) :
    Reads scope entry (closesBefore p) s fun _ s' => s' = s := by
  unfold closesBefore
  rw [reads_read_bind, reads_get_bind]
  split <;> exact .pure rfl

/-! ### Rounds -/

/-- What a round does from a state: it goes on with `inv` and has read a token, or stops with
`stop`. -/
def Keeps (inv stop : α → State → Prop) (s : State) : Round α → State → Prop
  | .more a, s' => inv a s' ∧ s.position < s'.position
  | .done a, s' => stop a s'

/-- Rounds that read a token each end before they are used up. -/
theorem Reads.loopWithin {inv stop : α → State → Prop} {round : α → Parse (Round α)}
    (hround : ∀ a s, inv a s → Reads scope entry (round a) s (Keeps inv stop s)) :
    ∀ (n : Nat) (a : α) (s : State), inv a s → scope.tokens.size < s.position + n + 1 →
      Reads scope entry (rounds round n a) s stop := by
  intro n
  induction n with
  | zero =>
    intro a s _ hfuel
    exact .of_lt fun hlt _ => absurd hfuel (by omega)
  | succ n ih =>
    intro a s hinv hfuel
    refine (hround a s hinv).bind fun r s' hr => ?_
    cases r with
    | more a' => exact ih a' s' hr.1 (by have := hr.2; omega)
    | done a' => exact .pure hr

theorem Reads.loop {inv : α → State → Prop} (stop : α → State → Prop)
    {round : α → Parse (Round α)} {a : α} (ha : inv a s)
    (hround : ∀ a s, inv a s → Reads scope entry (round a) s (Keeps inv stop s)) :
    Reads scope entry (repeatFrom a round) s stop :=
  .of_lt fun hlt _ => Reads.loopWithin hround (scope.tokens.size - s.position + 1) a s ha (by omega)

/-- The end of a round that goes on with what its last step gives. -/
theorem Reads.again {inv stop : α → State → Prop} {m : Parse α} {s₀ : State}
    (h : Reads scope entry m s inv) (hlt : s₀.position < s.position) :
    Reads scope entry (m >>= fun a => Pure.pure (Round.more a)) s (Keeps inv stop s₀) :=
  h.advancing.bind fun _ _ ha => .pure ⟨ha.1, hlt.trans_le ha.2.le⟩

end Rules

end ScriptTree.Parsing
