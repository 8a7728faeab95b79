import Mathlib
import ScriptTree.Proofs.Mirror.World

/-! Steps that do the same in two runs.

`Mirrors` says of two steps that what the left one does from its state, the right one does from the
state that belongs to it, and with values alike. Only ends that count are compared, which are live
ones at least; a failure counts if its report leaves the state live.

The rules go by the way steps are put together. A step may look at the next token and read on only
if it is a certain one: `Mirrors.sees` and its like also cover the case that a mark is pending there,
as reading on from there leads nowhere (`Forward`, `Dies`). -/
namespace ScriptTree.Parsing

/-- The next levels of two runs. -/
structure Stage (W : World) where
  deeperLeft : Goal → EStateM Problem State Node
  deeperRight : Goal → EStateM Problem State Node

namespace Stage
variable {W : World}

def left (S : Stage W) : Scope := ⟨W.left, S.deeperLeft⟩

def right (S : Stage W) : Scope := ⟨W.right, S.deeperRight⟩

end Stage

namespace World
variable (W : World)

/-- Every live end counts. -/
def Live {α : Type} (_ : α) (s : State) : Prop := W.live s

/-- Only ends count in front of which nothing is pending. -/
def Settled {α : Type} (_ : α) (s : State) : Prop := W.live s ∧ W.Clear s

/-- Nodes alike, as what two steps give. -/
def Nodes (n : Node) (_ : State) (n' : Node) : Prop := W.like n n'

/-- Lists of nodes alike, as what two steps give. -/
def Lists (a : Array Node) (_ : State) (b : Array Node) : Prop := W.Alike a b

end World

/-- Whether ends that count are live, whatever else is asked of them. -/
class Vital {α : Type} (W : World) (ends : α → State → Prop) : Prop where
  live : ∀ {a s}, ends a s → W.live s

instance {α : Type} (W : World) : Vital W (W.Live (α := α)) := ⟨id⟩

instance {α : Type} (W : World) : Vital W (W.Settled (α := α)) := ⟨And.left⟩

section Steps
variable {W : World} {α β α' β' : Type}

/-- What the left step does from `s`, as far as its ends count, the right one does from `t`; the
values are in the relation `R`. -/
def Mirrors (S : Stage W) (ends : α → State → Prop) (m : Parse α) (s : State) (m' : Parse β)
    (t : State) (R : α → State → β → Prop) : Prop :=
  W.aligned s t → match m S.left s with
    | .ok a s' => ends a s' → ∃ b t', m' S.right t = .ok b t' ∧ W.aligned s' t' ∧ R a s' b
    | .error e s' => W.live (s'.report e) →
      ∃ e' t', m' S.right t = .error e' t' ∧ W.aligned s' t' ∧ W.problem e e'

/-- Whether a left step comes to no end that counts. -/
def Dies (S : Stage W) (ends : α → State → Prop) (m : Parse α) (s : State) : Prop :=
  match m S.left s with
  | .ok a s' => ¬ends a s'
  | .error e s' => ¬W.live (s'.report e)

/-- Two stages on which goals are mirrored. -/
structure Stage.Coherent (S : Stage W) : Prop where
  world : W.Coherent
  sound : Sound S.left
  deepens : Deepens S.left
  urges : Urges S.left
  descend : ∀ goal s t, goal.Ready (kindAt W.left s.position) → W.Clear s →
    Mirrors S W.Live (descend goal) s (descend goal) t W.Nodes

variable {S : Stage W} {ends : α → State → Prop} {s t : State} {m : Parse α} {m' : Parse α'}
  {R : α → State → α' → Prop}

/-! ### Sequences -/

theorem Mirrors.pure {a : α} {a' : α'} (h : R a s a') :
    Mirrors S ends (Pure.pure a) s (Pure.pure a') t R :=
  fun haligned _ => ⟨a', t, rfl, haligned, h⟩

theorem Mirrors.throws {problem problem' : Problem} (h : W.problem problem problem') :
    Mirrors S ends (throw problem) s (throw problem') t R :=
  fun haligned _ => ⟨problem', t, rfl, haligned, h⟩

theorem Mirrors.mono {R' : α → State → α' → Prop} (h : Mirrors S ends m s m' t R)
    (himp : ∀ a s' a', R a s' a' → R' a s' a') : Mirrors S ends m s m' t R' := by
  intro haligned
  have hm := h haligned
  split at hm
  · intro hends
    obtain ⟨b, t', hrun, haligned', hr⟩ := hm hends
    exact ⟨b, t', hrun, haligned', himp _ _ _ hr⟩
  · exact hm

/-- Fewer ends may count. -/
theorem Mirrors.vital [Vital W ends] (h : Mirrors S W.Live m s m' t R) :
    Mirrors S ends m s m' t R := by
  intro haligned
  have hm := h haligned
  split at hm
  · exact fun hends => hm (Vital.live hends)
  · exact hm

/-- What may be assumed of aligned states may be assumed of those that a step is taken from. -/
theorem Mirrors.of_aligned (h : W.aligned s t → Mirrors S ends m s m' t R) :
    Mirrors S ends m s m' t R :=
  fun haligned => h haligned haligned

theorem Mirrors.of_dies (h : Dies S ends m s) : Mirrors S ends m s m' t R := by
  intro _
  unfold Dies at h
  split
  · rename_i hrun
    rw [hrun] at h
    exact fun hends => absurd hends h
  · rename_i hrun
    rw [hrun] at h
    exact fun hlive => absurd hlive h

/-- The state that a report is added to was live if the one with the report is. -/
theorem World.Coherent.live_of_report (hW : W.Coherent) {problem : Problem}
    (hkind : problem.cause.kind ≠ .missing) (h : W.live (s.report problem)) : W.live s :=
  hW.alive (Later.refl.push (Nat.le_refl _) hkind) h

/-- Whether an end is live does not depend on the nodes made. -/
theorem World.Coherent.live_of_same (hW : W.Coherent) {s' : State} (hsame : Same s s')
    (h : W.live s') : W.live s :=
  hW.alive (.of_problems hsame.1.ge hsame.2) h

theorem World.Coherent.kindLike (hW : W.Coherent) (haligned : W.aligned s t) (hclear : W.Clear s) :
    KindLike (kindAt W.left s.position) (kindAt W.right t.position) :=
  (hW.token haligned hclear).kind

/-- What comes behind an end that is not live comes to none. -/
theorem dies_of_dead (hS : S.Coherent) [Vital W ends] [Composed m] (h : ¬W.live s) :
    Dies S ends m s := by
  have hleads := Composed.onward (m := m) hS.deepens s
  unfold Dies
  split
  · rename_i hrun
    rw [hrun] at hleads
    exact fun hends => h (hS.world.alive hleads (Vital.live hends))
  · rename_i hrun
    rw [hrun] at hleads
    exact fun hlive => h (hS.world.alive hleads.1 (hS.world.live_of_report hleads.2 hlive))

theorem Dies.bind {f : α → Parse β} {ends' : β → State → Prop} (h : Dies S ends m s)
    (hf : ∀ a s', ¬ends a s' → Dies S ends' (f a) s') : Dies S ends' (m >>= f) s := by
  unfold Dies at h
  split at h
  · rename_i a s' hrun
    have := hf a s' h
    unfold Dies
    rwa [run_bind_ok hrun]
  · rename_i hrun
    unfold Dies
    rwa [run_bind_error hrun]

/-- A step, and another one behind those of its ends that count. -/
theorem Mirrors.bindTo {f : α → Parse β} {f' : α' → Parse β'} {R' : β → State → β' → Prop}
    {ends' : β → State → Prop} (h : Mirrors S ends m s m' t R)
    (hf : ∀ a s' a' t', ends a s' → R a s' a' → Mirrors S ends' (f a) s' (f' a') t' R')
    (hdies : ∀ a s', ¬ends a s' → Dies S ends' (f a) s') :
    Mirrors S ends' (m >>= f) s (m' >>= f') t R' := by
  intro haligned
  have hm := h haligned
  split at hm
  · rename_i a s₁ hrun
    rw [run_bind_ok hrun]
    by_cases hends : ends a s₁
    · obtain ⟨b, t', hrun', haligned', hr⟩ := hm hends
      rw [run_bind_ok hrun']
      exact hf _ _ _ _ hends hr haligned'
    · -- No right step belongs to this one, but nothing is asked of it.
      have hdead := hdies a s₁ hends
      unfold Dies at hdead
      split
      · rename_i hrun'
        rw [hrun'] at hdead
        exact fun h => absurd h hdead
      · rename_i hrun'
        rw [hrun'] at hdead
        exact fun h => absurd h hdead
  · rename_i e s₁ hrun
    rw [run_bind_error hrun]
    intro hlive
    obtain ⟨e', t', hrun', haligned', hproblem⟩ := hm hlive
    exact ⟨e', t', run_bind_error hrun', haligned', hproblem⟩

theorem Mirrors.bind (hS : S.Coherent) {ends : β → State → Prop} [Vital W ends] {f : α → Parse β}
    {f' : α' → Parse β'} {R' : β → State → β' → Prop} [∀ a, Composed (f a)]
    (h : Mirrors S W.Live m s m' t R)
    (hf : ∀ a s' a' t', R a s' a' → Mirrors S ends (f a) s' (f' a') t' R') :
    Mirrors S ends (m >>= f) s (m' >>= f') t R' :=
  h.bindTo (fun a s' a' t' _ => hf a s' a' t') fun _ _ => dies_of_dead hS

/-- Steps that change nothing, and others from the same states. -/
theorem Mirrors.bindStill (hS : S.Coherent) {ends : β → State → Prop} [Vital W ends]
    {f : α → Parse β} {f' : α' → Parse β'} {R' : β → State → β' → Prop} [∀ a, Composed (f a)]
    [Composed m] [hstill : Still m] [hstill' : Still m'] (h : Mirrors S W.Live m s m' t R)
    (hf : ∀ a a', R a s a' → Mirrors S ends (f a) s (f' a') t R') :
    Mirrors S ends (m >>= f) s (m' >>= f') t R' := by
  refine .of_aligned fun haligned => ?_
  have hm := h haligned
  have hleft := hstill.same S.left s
  have hright := hstill'.same S.right t
  cases hrun : m S.left s with
  | error e s' =>
    rw [hrun] at hm
    intro _
    rw [run_bind_error hrun]
    intro hlive
    obtain ⟨e', t', hrun', haligned', hproblem⟩ := hm hlive
    exact ⟨e', t', run_bind_error hrun', haligned', hproblem⟩
  | ok a s' =>
    rw [hrun] at hm hleft
    subst hleft
    by_cases hlive : W.live s'
    · obtain ⟨a', t', hrun', haligned', hr⟩ := hm hlive
      rw [hrun'] at hright
      subst hright
      intro _
      rw [run_bind_ok hrun, run_bind_ok hrun']
      exact hf a a' hr haligned'
    · exact .of_dies (dies_of_dead hS hlive)

/-- Equal conditions. -/
theorem Mirrors.ite {c c' : Prop} [Decidable c] [Decidable c'] {A B : Parse α} {A' B' : Parse α'}
    (hiff : c ↔ c') (hthen : c → Mirrors S ends A s A' t R)
    (helse : ¬c → Mirrors S ends B s B' t R) :
    Mirrors S ends (if c then A else B) s (if c' then A' else B') t R := by
  by_cases hc : c
  · rw [if_pos hc, if_pos (hiff.mp hc)]
    exact hthen hc
  · rw [if_neg hc, if_neg (hiff.not.mp hc)]
    exact helse hc

/-! ### What the left step does -/

/-- What is known of the left step from elsewhere. -/
theorem Mirrors.reading (hS : S.Coherent) {post : α → State → Prop}
    (hreads : Reads S.left (some s.position) m s post) (h : Mirrors S ends m s m' t R) :
    Mirrors S ends m s m' t fun a s' a' => R a s' a' ∧ post a s' := by
  intro haligned
  have hm := h haligned
  have hleft := hreads (fun b hb => (Option.some.inj hb).ge) (hS.world.inside haligned).1
  split at hm
  · rename_i hrun
    rw [hrun] at hleft
    intro hends
    obtain ⟨b, t', hrun', haligned', hr⟩ := hm hends
    exact ⟨b, t', hrun', haligned', hr, hleft.2⟩
  · exact hm

/-- A step that begins at a real token ends behind it. -/
theorem Mirrors.past (hS : S.Coherent) [hm : Forward m]
    (hreal : kindAt W.left s.position ≠ .endOfFile) (h : Mirrors S ends m s m' t R) :
    Mirrors S ends m s m' t fun a s' a' => R a s' a' ∧ s.position < s'.position := by
  intro haligned
  have hm' := h haligned
  have hpasses := hm.passes S.left hS.deepens hS.urges s hreal
  split at hm'
  · rename_i hrun
    rw [hrun] at hpasses
    intro hends
    obtain ⟨b, t', hrun', haligned', hr⟩ := hm' hends
    exact ⟨b, t', hrun', haligned', hr, hpasses.le⟩
  · exact hm'

/-- In front of a pending mark, reading on comes to no end that counts. -/
theorem dies_of_forward (hS : S.Coherent) [Vital W ends] [hm : Forward m] [Composed m]
    (hreal : kindAt W.left s.position ≠ .endOfFile) (hpending : ¬W.Clear s) :
    Dies S ends m s := by
  have hpasses := hm.passes S.left hS.deepens hS.urges s hreal
  have hleads := Composed.onward (m := m) hS.deepens s
  unfold Dies
  split
  · rename_i hrun
    rw [hrun] at hpasses
    exact fun hends => hpending (hS.world.settle hpasses (Vital.live hends))
  · rename_i hrun
    rw [hrun] at hleads
    exact fun hlive => hpending (hS.world.stern hleads.1 hleads.2 hlive)

/-- In front of a pending mark, a step that reads a token comes to no end that counts. At the end
there is none to read. -/
theorem dies_of_unclear (hS : S.Coherent) [Vital W ends] [Forward m] [Composed m]
    {post : α → State → Prop} (hreads : Reads S.left (some s.position) m s post)
    (hlt : ∀ a s', post a s' → s.position < s'.position) (haligned : W.aligned s t)
    (hpending : ¬W.Clear s) : Dies S ends m s := by
  by_cases hend : kindAt W.left s.position = .endOfFile
  · have hinside := (hS.world.inside haligned).1
    have hleft := hreads (fun b hb => (Option.some.inj hb).ge) hinside
    have hleads := Composed.onward (m := m) hS.deepens s
    unfold Dies
    split
    · rename_i hrun
      rw [hrun] at hleft
      have hlast := (hS.world.streamLeft.endOfFile _ hinside).mp hend
      have hinside' : _ < W.left.size := hleft.1.lt
      have := hlt _ _ hleft.2
      omega
    · rename_i hrun
      rw [hrun] at hleads
      exact fun hlive => hpending (hS.world.stern hleads.1 hleads.2 hlive)
  · exact dies_of_forward hS hend hpending

theorem Dies.ite {c : Prop} [Decidable c] {m m' : Parse α} (hthen : c → Dies S ends m s)
    (helse : ¬c → Dies S ends m' s) : Dies S ends (if c then m else m') s := by
  split
  · exact hthen ‹_›
  · exact helse ‹_›

/-- A step that comes to no end that counts in front of a pending mark needs to be looked at only
where nothing is pending. -/
theorem Mirrors.of_clear (hdies : W.aligned s t → ¬W.Clear s → Dies S ends m s)
    (h : W.Clear s → Mirrors S ends m s m' t R) : Mirrors S ends m s m' t R := by
  refine .of_aligned fun haligned => ?_
  by_cases hclear : W.Clear s
  · exact h hclear
  · exact .of_dies (hdies haligned hclear)

theorem Mirrors.fresh (hS : S.Coherent) [Vital W ends] [Forward m] [Composed m]
    {post : α → State → Prop} (hreads : Reads S.left (some s.position) m s post)
    (hlt : ∀ a s', post a s' → s.position < s'.position)
    (h : W.Clear s → Mirrors S ends m s m' t R) : Mirrors S ends m s m' t R :=
  .of_clear (dies_of_unclear hS hreads hlt) h

/-! ### Looking ahead -/

section Looking
variable {ends : β → State → Prop} {R : β → State → β' → Prop}

theorem mirrors_peek_bind {f : Token → Parse β} {f' : Token → Parse β'} :
    Mirrors S ends (peek >>= f) s (peek >>= f') t R ↔
      Mirrors S ends (f (tokenAt W.left s.position)) s (f' (tokenAt W.right t.position)) t R :=
  Iff.rfl

theorem mirrors_tokenAhead_bind {n : Nat} {f : Token → Parse β} {f' : Token → Parse β'} :
    Mirrors S ends (tokenAhead n >>= f) s (tokenAhead n >>= f') t R ↔
      Mirrors S ends (f (tokenAt W.left (s.position + n))) s
        (f' (tokenAt W.right (t.position + n))) t R :=
  Iff.rfl

theorem mirrors_peekKind_bind {f : TokenKind → Parse β} {f' : TokenKind → Parse β'} :
    Mirrors S ends (peekKind >>= f) s (peekKind >>= f') t R ↔
      Mirrors S ends (f (kindAt W.left s.position)) s (f' (kindAt W.right t.position)) t R :=
  Iff.rfl

theorem mirrors_kindAhead_bind {n : Nat} {f : TokenKind → Parse β} {f' : TokenKind → Parse β'} :
    Mirrors S ends (kindAhead n >>= f) s (kindAhead n >>= f') t R ↔
      Mirrors S ends (f (kindAt W.left (s.position + n))) s
        (f' (kindAt W.right (t.position + n))) t R :=
  Iff.rfl

theorem mirrors_atEnd_bind {f : Bool → Parse β} {f' : Bool → Parse β'} :
    Mirrors S ends (atEnd >>= f) s (atEnd >>= f') t R ↔
      Mirrors S ends (f (kindAt W.left s.position == .endOfFile)) s
        (f' (kindAt W.right t.position == .endOfFile)) t R :=
  Iff.rfl

theorem mirrors_sees_bind {mark : Punctuation} {f : Bool → Parse β} {f' : Bool → Parse β'} :
    Mirrors S ends (sees mark >>= f) s (sees mark >>= f') t R ↔
      Mirrors S ends (f ((kindAt W.left s.position).isPunctuation mark)) s
        (f' ((kindAt W.right t.position).isPunctuation mark)) t R :=
  Iff.rfl

theorem mirrors_seesOperator_bind {o : Operator} {f : Bool → Parse β} {f' : Bool → Parse β'} :
    Mirrors S ends (seesOperator o >>= f) s (seesOperator o >>= f') t R ↔
      Mirrors S ends (f ((kindAt W.left s.position).isOperator o)) s
        (f' ((kindAt W.right t.position).isOperator o)) t R :=
  Iff.rfl

theorem mirrors_seesWord_bind {word : Keyword} {f : Bool → Parse β} {f' : Bool → Parse β'} :
    Mirrors S ends (seesWord word >>= f) s (seesWord word >>= f') t R ↔
      Mirrors S ends (f ((kindAt W.left s.position).isKeyword word)) s
        (f' ((kindAt W.right t.position).isKeyword word)) t R :=
  Iff.rfl

theorem mirrors_seesIdentifier_bind {f : Bool → Parse β} {f' : Bool → Parse β'} :
    Mirrors S ends (seesIdentifier >>= f) s (seesIdentifier >>= f') t R ↔
      Mirrors S ends (f (kindAt W.left s.position).isIdentifier) s
        (f' (kindAt W.right t.position).isIdentifier) t R :=
  Iff.rfl

theorem dies_sees_bind {mark : Punctuation} {f : Bool → Parse β} :
    Dies S ends (sees mark >>= f) s ↔
      Dies S ends (f ((kindAt W.left s.position).isPunctuation mark)) s :=
  Iff.rfl

theorem dies_peekKind_bind {f : TokenKind → Parse β} :
    Dies S ends (peekKind >>= f) s ↔ Dies S ends (f (kindAt W.left s.position)) s :=
  Iff.rfl

/-- A choice that depends on the next token, where nothing is pending. -/
theorem Mirrors.same (hS : S.Coherent) {p : TokenKind → Bool}
    (hlike : ∀ {k k'}, KindLike k k' → p k = p k') {A B : Parse β} {A' B' : Parse β'}
    (hclear : W.Clear s)
    (hthen : p (kindAt W.left s.position) = true → Mirrors S ends A s A' t R)
    (helse : p (kindAt W.left s.position) = false → Mirrors S ends B s B' t R) :
    Mirrors S ends (if p (kindAt W.left s.position) = true then A else B) s
      (if p (kindAt W.right t.position) = true then A' else B') t R := by
  refine .of_aligned fun haligned => .ite ?_ hthen fun h => helse (Bool.eq_false_iff.mpr h)
  rw [hlike (hS.world.kindLike haligned hclear)]

/-- A choice that depends on the next tokens: reading on is chosen alike where nothing is pending, and
never on the right where something is. -/
theorem Mirrors.fork (hS : S.Coherent) [Vital W ends] {c c' : Prop} [Decidable c] [Decidable c']
    {A B : Parse β} {A' B' : Parse β'} [Forward A] [Composed A]
    (hiff : W.aligned s t → W.Clear s → (c ↔ c'))
    (hpending : ∀ mark ∈ [.semicolon, .rightBrace],
      kindAt W.right t.position = .punctuation mark → ¬c')
    (hreal : c → kindAt W.left s.position ≠ .endOfFile)
    (hthen : W.Clear s → c → Mirrors S ends A s A' t R)
    (helse : ¬c → Mirrors S ends B s B' t R) :
    Mirrors S ends (if c then A else B) s (if c' then A' else B') t R := by
  refine .of_aligned fun haligned => ?_
  by_cases hclear : W.Clear s
  · exact .ite (hiff haligned hclear) (hthen hclear) helse
  · obtain ⟨mark, hmark⟩ := Option.ne_none_iff_exists'.mp hclear
    obtain ⟨hright, hkinds⟩ := hS.world.ahead haligned hmark
    have hnone : ¬c' := by
      refine hpending mark ?_ hright
      rcases hkinds with rfl | ⟨rfl, _⟩ <;> simp
    by_cases hc : c
    · rw [if_pos hc]
      exact .of_dies (dies_of_forward hS (hreal hc) hclear)
    · rw [if_neg hc, if_neg hnone]
      exact helse hc

/-- A property that tokens alike share, and that neither the end nor a pending mark has. -/
structure Telling (p : TokenKind → Bool) : Prop where
  like : ∀ {k k'}, KindLike k k' → p k = p k'
  marks : ∀ mark ∈ [.semicolon, .rightBrace], p (.punctuation mark) = false
  real : p .endOfFile = false

theorem Telling.real_of {p : TokenKind → Bool} (hp : Telling p) {kind : TokenKind}
    (h : p kind = true) : kind ≠ .endOfFile := by
  rintro rfl
  rw [hp.real] at h
  cases h

theorem telling_mark (mark : Punctuation) (h : mark ∉ [.semicolon, .rightBrace]) :
    Telling (·.isPunctuation mark) where
  like hlike := hlike.isPunctuation_eq mark
  marks other hother := by
    rw [Bool.eq_false_iff, ne_eq, isPunctuation_iff]
    rintro ⟨⟩
    exact h hother
  real := rfl

theorem telling_operator (o : Operator) : Telling (·.isOperator o) where
  like h := h.isOperator_eq o
  marks _ _ := rfl
  real := rfl

theorem telling_word (word : Keyword) : Telling (·.isKeyword word) where
  like h := h.isKeyword_eq word
  marks _ _ := rfl
  real := rfl

theorem telling_identifier : Telling TokenKind.isIdentifier where
  like h := h.isIdentifier_eq
  marks _ _ := rfl
  real := rfl

/-- A choice that depends on the next token. -/
theorem Mirrors.branch (hS : S.Coherent) [Vital W ends] {p : TokenKind → Bool} (hp : Telling p)
    {A B : Parse β} {A' B' : Parse β'} [Forward A] [Composed A]
    (hthen : W.Clear s → p (kindAt W.left s.position) = true → Mirrors S ends A s A' t R)
    (helse : p (kindAt W.left s.position) = false → Mirrors S ends B s B' t R) :
    Mirrors S ends (if p (kindAt W.left s.position) = true then A else B) s
      (if p (kindAt W.right t.position) = true then A' else B') t R := by
  refine .fork hS (fun haligned hclear => ?_) (fun mark hmark hright => ?_) hp.real_of hthen
    fun hc => helse (Bool.eq_false_iff.mpr hc)
  · rw [hp.like (hS.world.kindLike haligned hclear)]
  · rw [hright, hp.marks mark hmark]
    exact Bool.false_ne_true

/-- A choice that depends on the next two tokens. -/
theorem Mirrors.branchTwo (hS : S.Coherent) [Vital W ends] {mark : Punctuation}
    {q : TokenKind → Bool} (hmark : mark ∉ [.semicolon, .rightBrace])
    (hherald : .punctuation mark ∈ World.heralds) (hq : ∀ {k k'}, KindLike k k' → q k = q k')
    {A B : Parse β} {A' B' : Parse β'} [Forward A] [Composed A]
    (hthen : kindAt W.left s.position = .punctuation mark →
      q (kindAt W.left (s.position + 1)) = true → Mirrors S ends A s A' t R)
    (helse : Mirrors S ends B s B' t R) :
    Mirrors S ends
      (if ((kindAt W.left s.position).isPunctuation mark &&
        q (kindAt W.left (s.position + 1))) = true then A else B) s
      (if ((kindAt W.right t.position).isPunctuation mark &&
        q (kindAt W.right (t.position + 1))) = true then A' else B') t R := by
  have hp := telling_mark mark hmark
  refine .fork hS (fun haligned hclear => ?_) (fun other hother hright => ?_) (fun hc => ?_)
    (fun _ hc => ?_) fun _ => helse
  · rw [← hp.like (hS.world.kindLike haligned hclear)]
    cases hfirst : (kindAt W.left s.position).isPunctuation mark with
    | false => exact Iff.rfl
    | true =>
      have hnext := (hS.world.foreseen haligned hclear).next
      rw [isPunctuation_iff.mp hfirst] at hnext
      rw [hq (hnext hherald)]
  · rw [hright, hp.marks other hother]
    exact Bool.false_ne_true
  · exact hp.real_of (Bool.and_eq_true_iff.mp hc).1
  · rw [Bool.and_eq_true] at hc
    exact hthen (isPunctuation_iff.mp hc.1) hc.2

end Looking

end Steps

end ScriptTree.Parsing
