import Mathlib
import ScriptTree.Proofs.Mirror.Primitives
import ScriptTree.Proofs.Mirror.Operands

/-! Steps that succeed.

`Yields scope m ks ks' post` says that in front of tokens of the kinds `ks` the step `m` succeeds, reads
up to where `ks'` are left, reports nothing and gives what `post` asks for. There is a rule for each way
in which steps are put together. Those for repetition need no count of rounds: one that goes on has read
a token (`Loops`). -/
namespace ScriptTree.Parsing

/-- The kinds of the tokens from the next one on. -/
def ahead (tokens : Array Token) (s : State) : List TokenKind :=
  (tokens.toList.drop s.position).map Token.kind

section Ahead
variable {tokens : Array Token} {s : State} {k : TokenKind} {ks : List TokenKind}

theorem length_ahead : (ahead tokens s).length = tokens.size - s.position := by simp [ahead]

theorem lt_size_of_ahead (h : ahead tokens s = k :: ks) : s.position < tokens.size := by
  have hlength := congrArg List.length h
  rw [length_ahead, List.length_cons] at hlength
  omega

theorem ahead_eq_cons (h : s.position < tokens.size) : ahead tokens s =
    kindAt tokens s.position :: ahead tokens { s with position := s.position + 1 } := by
  have hlist : s.position < tokens.toList.length := by rwa [Array.length_toList]
  rw [ahead, List.drop_eq_getElem_cons hlist, List.map_cons, kindAt, tokenAt]
  simp [ahead, h]

theorem kindAt_of_ahead (h : ahead tokens s = k :: ks) : kindAt tokens s.position = k :=
  (List.cons.inj ((ahead_eq_cons (lt_size_of_ahead h)).symm.trans h)).1

/-- What is ahead behind the next token. -/
theorem ahead_succ (h : ahead tokens s = k :: ks) {made : Array Built} :
    ahead tokens { s with position := s.position + 1, made } = ks :=
  (List.cons.inj ((ahead_eq_cons (lt_size_of_ahead h)).symm.trans h)).2

end Ahead

/-- Whether a step succeeds on the way from some tokens to others. -/
def Yields {α : Type} (scope : Scope) (m : Parse α) (ks ks' : List TokenKind) (post : α → Prop) : Prop :=
  ∀ s, ahead scope.tokens s = ks → ∃ a s', m scope s = .ok a s' ∧ ahead scope.tokens s' = ks' ∧
    s'.problems = s.problems ∧ post a

namespace Yields
variable {α β : Type} {scope : Scope} {m : Parse α} {ks ks₁ ks' : List TokenKind} {k : TokenKind}
  {post : α → Prop} {post' : β → Prop}

theorem pure {a : α} (h : post a) : Yields scope (Pure.pure a) ks ks post :=
  fun s hs => ⟨a, s, rfl, hs, rfl, h⟩

theorem bind {f : α → Parse β} (h : Yields scope m ks ks₁ post)
    (hf : ∀ a, post a → Yields scope (f a) ks₁ ks' post') : Yields scope (m >>= f) ks ks' post' := by
  intro s hs
  obtain ⟨a, s₁, hrun, hahead, hproblems, ha⟩ := h s hs
  obtain ⟨b, s', hrun', hahead', hproblems', hb⟩ := hf a ha s₁ hahead
  exact ⟨b, s', by rw [run_bind_ok hrun, hrun'], hahead', hproblems'.trans hproblems, hb⟩

theorem mono {weaker : α → Prop} (h : Yields scope m ks ks' post) (hpost : ∀ a, post a → weaker a) :
    Yields scope m ks ks' weaker := by
  intro s hs
  obtain ⟨a, s', hrun, hahead, hproblems, ha⟩ := h s hs
  exact ⟨a, s', hrun, hahead, hproblems, hpost a ha⟩

/-! ### Looking ahead -/

theorem peekKind : Yields scope peekKind (k :: ks) (k :: ks) (· = k) :=
  fun s hs => ⟨_, s, rfl, hs, rfl, kindAt_of_ahead hs⟩

theorem peek : Yields scope peek (k :: ks) (k :: ks) fun _ => True :=
  fun s hs => ⟨_, s, rfl, hs, rfl, trivial⟩

theorem kindAhead (offset : Nat) : Yields scope (kindAhead offset) ks ks fun _ => True :=
  fun s hs => ⟨_, s, rfl, hs, rfl, trivial⟩

/-- The kind of a token that is not the next one. -/
theorem kindAhead_of {offset : Nat} (h : ks[offset]? = some k) :
    Yields scope (Parsing.kindAhead offset) ks ks (· = k) := by
  intro s hs
  refine ⟨_, s, rfl, hs, rfl, ?_⟩
  rw [← hs, ahead, List.getElem?_map, List.getElem?_drop, Array.getElem?_toList] at h
  obtain ⟨t, ht, rfl⟩ := Option.map_eq_some_iff.mp h
  show (tokenAt scope.tokens (s.position + offset)).kind = t.kind
  rw [tokenAt, Array.getD_eq_getD_getElem?, ht, Option.getD_some]

theorem sees {mark : Punctuation} :
    Yields scope (sees mark) (k :: ks) (k :: ks) (· = k.isPunctuation mark) :=
  fun s hs => ⟨_, s, rfl, hs, rfl, congrArg (·.isPunctuation mark) (kindAt_of_ahead hs)⟩

theorem seesOperator {o : Operator} :
    Yields scope (seesOperator o) (k :: ks) (k :: ks) (· = k.isOperator o) :=
  fun s hs => ⟨_, s, rfl, hs, rfl, congrArg (·.isOperator o) (kindAt_of_ahead hs)⟩

theorem seesWord {word : Keyword} :
    Yields scope (seesWord word) (k :: ks) (k :: ks) (· = k.isKeyword word) :=
  fun s hs => ⟨_, s, rfl, hs, rfl, congrArg (·.isKeyword word) (kindAt_of_ahead hs)⟩

theorem seesIdentifier : Yields scope seesIdentifier (k :: ks) (k :: ks) (· = k.isIdentifier) :=
  fun s hs => ⟨_, s, rfl, hs, rfl, congrArg TokenKind.isIdentifier (kindAt_of_ahead hs)⟩

/-- No token with a property follows a bracket if no token at all has it. -/
theorem closesBefore {p : TokenKind → Bool} (hnone : ∀ i, p (kindAt scope.tokens i) = false) :
    Yields scope (closesBefore p) ks ks (· = false) := by
  intro s hs
  refine ⟨_, s, run_closesBefore p, hs, rfl, ?_⟩
  rw [World.closes]
  cases matchingClose? scope.tokens s.position with
  | none => rfl
  | some i => exact hnone (i + 1)

/-! ### Making nodes -/

theorem node {kind : NodeKind} {children : Array Node} :
    Yields scope (node kind children) ks ks (· = .ofChildren kind children.toList) :=
  fun s hs => ⟨_, { s with made := keep s.made _ }, rfl, hs, rfl, rfl⟩

/-- A token read as a leaf. -/
theorem bumpSymbol {symbol : Symbol} (hreal : k ≠ .endOfFile) :
    Yields scope (bumpSymbol symbol) (k :: ks) ks fun n => ∃ i, kindAt scope.tokens i = k ∧
      n = .leaf symbol (spanAt scope.tokens i) := by
  intro s hs
  have hkind := kindAt_of_ahead hs
  have hrun : advance scope s = _ := run_advance (by rwa [hkind])
  let n := Node.leaf symbol (spanAt scope.tokens s.position)
  exact ⟨n, { s with position := s.position + 1, made := keep s.made n }, run_bind_ok hrun,
    ahead_succ hs, rfl, s.position, hkind, rfl⟩

theorem bump (hreal : k ≠ .endOfFile) :
    Yields scope bump (k :: ks) ks fun n => ∃ i, kindAt scope.tokens i = k ∧
      n = .leaf (symbolOf k) (spanAt scope.tokens i) := by
  refine peekKind.bind fun kind hkind => ?_
  rw [hkind]
  exact bumpSymbol hreal

/-- A token that has to be there, and is. -/
theorem required {sees : Parse Bool} {otherwise : Parse Node}
    (hsees : Yields scope sees (k :: ks) (k :: ks) (· = true)) (hreal : k ≠ .endOfFile) :
    Yields scope (do if ← sees then Parsing.bump else otherwise) (k :: ks) ks fun n =>
      ∃ i, kindAt scope.tokens i = k ∧ n = .leaf (symbolOf k) (spanAt scope.tokens i) := by
  refine hsees.bind fun b hb => ?_
  rw [if_pos hb]
  exact bump hreal

theorem sees_self {mark : Punctuation} : Yields scope (Parsing.sees mark) (.punctuation mark :: ks)
    (.punctuation mark :: ks) (· = true) :=
  sees.mono fun _ h => h.trans (beq_self_eq_true _)

theorem expect {mark : Punctuation} :
    Yields scope (expect mark) (.punctuation mark :: ks) ks
      fun n => ∃ i, kindAt scope.tokens i = .punctuation mark ∧
        n = .leaf (.punctuation mark) (spanAt scope.tokens i) :=
  required sees_self (by simp)

theorem expectOrMissing {mark : Punctuation} :
    Yields scope (expectOrMissing mark) (.punctuation mark :: ks) ks
      fun n => ∃ i, kindAt scope.tokens i = .punctuation mark ∧
        n = .leaf (.punctuation mark) (spanAt scope.tokens i) :=
  required sees_self (by simp)

theorem expectOperator {o : Operator} :
    Yields scope (expectOperator o) (.operator o :: ks) ks
      fun n => ∃ i, kindAt scope.tokens i = .operator o ∧
        n = .leaf (.operator o) (spanAt scope.tokens i) :=
  required (seesOperator.mono fun _ h => h.trans (beq_self_eq_true _)) (by simp)

theorem expectIdentifier {kind : NodeKind} {what : Expected} {name : String} :
    Yields scope (expectIdentifier kind what) (.identifier name :: ks) ks
      fun n => ∃ i, kindAt scope.tokens i = .identifier name ∧
        n = .leaf (.named kind) (spanAt scope.tokens i) := by
  refine seesIdentifier.bind fun b hb => ?_
  rw [if_pos (show b = true from hb)]
  exact bumpSymbol (by simp)

end Yields

/-! ### Repetition -/

/-- Whether rounds succeed on the way from some tokens to others, given a round for every token. -/
def Loops {α : Type} (scope : Scope) (round : α → Parse (Round α)) (ks ks' : List TokenKind) (a : α)
    (post : α → Prop) : Prop :=
  ∀ fuel, ks.length ≤ fuel → Yields scope (rounds round (fuel + 1) a) ks ks' post

namespace Loops
variable {α : Type} {scope : Scope} {round : α → Parse (Round α)} {ks ks₁ ks' : List TokenKind} {a : α}
  {post : α → Prop}

theorem done (h : Yields scope (round a) ks ks' fun r => ∃ b, r = .done b ∧ post b) :
    Loops scope round ks ks' a post := by
  intro fuel _
  refine h.bind fun r hr => ?_
  obtain ⟨b, rfl, hb⟩ := hr
  exact .pure hb

/-- A round that reads something, and those behind it. -/
theorem more
    (h : Yields scope (round a) ks ks₁ fun r => ∃ b, r = .more b ∧ Loops scope round ks₁ ks' b post)
    (hless : ks₁.length < ks.length) :
    Loops scope round ks ks' a post := by
  intro fuel hfuel
  obtain ⟨fuel, rfl⟩ : ∃ n, fuel = n + 1 := ⟨fuel - 1, by omega⟩
  refine h.bind fun r hr => ?_
  obtain ⟨b, rfl, hloops⟩ := hr
  exact hloops fuel (by omega)

theorem repeatFrom (h : Loops scope round ks ks' a post) :
    Yields scope (repeatFrom a round) ks ks' post := by
  intro s hs
  have hlength : (ahead scope.tokens s).length = scope.tokens.size - s.position := length_ahead
  rw [hs] at hlength
  exact h _ hlength.le s hs

end Loops

/-! ### Lists -/

/-- A round of reading a list. -/
def listRound (closing : Punctuation) (item : Parse Node) (children : Array Node) :
    Parse (Round (Array Node)) := do
  if ← sees closing then return .done children
  if ← sees .comma then return .more (children.push (← bump))
  let children := children.push (← item)
  if ← sees .comma then return .more (children.push (← bump))
  return .done children

theorem listOf_eq (kind : NodeKind) (opening closing : Punctuation) (item : Parse Node) :
    listOf kind opening closing item = (do
      let children ← repeatFrom #[← expect opening] (listRound closing item)
      node kind (children.push (← expect closing))) := rfl

/-- A round that reads an item, as far as the mark behind it. -/
theorem Yields.listRound_item {scope : Scope} {closing : Punctuation} {item : Parse Node}
    {children : Array Node} {k : TokenKind} {ks ks₁ ks' : List TokenKind} {content : Node → Prop}
    {post : Round (Array Node) → Prop} (hclosing : k ≠ .punctuation closing)
    (hcomma : k ≠ .punctuation .comma) (hitem : Yields scope item (k :: ks) ks₁ content)
    (hbehind : ∀ n, content n → Yields scope (do
      if ← Parsing.sees .comma then return .more ((children.push n).push (← Parsing.bump))
      return .done (children.push n)) ks₁ ks' post) :
    Yields scope (listRound closing item children) (k :: ks) ks' post := by
  refine Yields.sees.bind fun b hb => ?_
  rw [hb, show k.isPunctuation closing = false from beq_false_of_ne hclosing]
  refine Yields.sees.bind fun b hb => ?_
  rw [hb, show k.isPunctuation .comma = false from beq_false_of_ne hcomma]
  exact hitem.bind hbehind

end ScriptTree.Parsing
