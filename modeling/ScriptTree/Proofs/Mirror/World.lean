import Mathlib
import ScriptTree.Proofs.Parsing.Forward
import ScriptTree.Proofs.Parsing.Statements

/-! Two token lists side by side.

A `World` says what two runs of the parser have in common: which states belong together (`aligned`),
which nodes and which problems (`like`, `problem`). The right tokens may have marks that the left ones
lack; a state is `clear` unless such a mark stands ahead of it.

Nothing need be said of a left run that cannot end as it has to. A state from which it cannot is not
`live`, and as parsing goes forward, none behind it is. `World.Coherent` collects what every
production asks of the two token lists. -/
namespace ScriptTree.Parsing

/-! ### Tokens alike -/

/-- Whether two tokens are the same to every production: names that stand for the same builtin type,
numbers that are both decimal integers or both not, strings with the same quotes, or any regular
expressions. -/
inductive KindLike : TokenKind → TokenKind → Prop
  | refl (kind : TokenKind) : KindLike kind kind
  | identifier {a b : String} (h : primitiveType? a = primitiveType? b) :
      KindLike (.identifier a) (.identifier b)
  | number {a b : String} (h : a.all Char.isDigit = b.all Char.isDigit) :
      KindLike (.number a) (.number b)
  | string {quote : Punctuation} {parts parts' : List StringPart} :
      KindLike (.string quote parts) (.string quote parts')
  | regex {pattern pattern' : Span} {flags flags' : Option Span} :
      KindLike (.regex pattern flags) (.regex pattern' flags')

namespace KindLike
variable {k k' : TokenKind}

theorem isPunctuation_eq (h : KindLike k k') (mark : Punctuation) :
    k.isPunctuation mark = k'.isPunctuation mark := by
  cases h <;> rfl

theorem isOperator_eq (h : KindLike k k') (o : Operator) : k.isOperator o = k'.isOperator o := by
  cases h <;> rfl

theorem isKeyword_eq (h : KindLike k k') (word : Keyword) :
    k.isKeyword word = k'.isKeyword word := by
  cases h <;> rfl

theorem isIdentifier_eq (h : KindLike k k') : k.isIdentifier = k'.isIdentifier := by
  cases h <;> rfl

theorem symbolOf_eq (h : KindLike k k') : symbolOf k = symbolOf k' := by
  cases h <;> rfl

theorem eq_endOfFile (h : KindLike k k') : k = .endOfFile ↔ k' = .endOfFile := by
  cases h <;> simp

theorem isNumber_iff (h : KindLike k k') :
    (∃ text, k = .number text) ↔ ∃ text, k' = .number text := by
  cases h <;> simp

theorem isSign_eq (h : KindLike k k') : isSign k = isSign k' := by
  cases h <;> rfl

theorem binaryOperator_eq (h : KindLike k k') : binaryOperator? k = binaryOperator? k' := by
  cases h <;> rfl

theorem bracket_eq (h : KindLike k k') : bracket? k = bracket? k' := by
  cases h <;> rfl

theorem brace_eq (h : KindLike k k') : brace? k = brace? k' := by
  cases h <;> rfl

theorem startsStatement_eq (h : KindLike k k') (brackets : Nat) :
    startsStatement brackets k = startsStatement brackets k' := by
  cases h <;> rfl

theorem continues_eq (h : KindLike k k') {p : TokenKind → Bool}
    (hp : p ∈ [(TokenKind.isPunctuation · .colon), (TokenKind.isOperator · .assign)]) :
    p k = p k' := by
  simp only [List.mem_cons, List.not_mem_nil, or_false] at hp
  rcases hp with rfl | rfl
  · exact h.isPunctuation_eq _
  · exact h.isOperator_eq _

end KindLike

/-! ### Worlds -/

/-- A state with one more report. -/
def State.report (s : State) (problem : Problem) : State :=
  { s with problems := s.problems.push problem }

structure World where
  left : Array Token
  right : Array Token
  /-- Whether two states belong together. -/
  aligned : State → State → Prop
  /-- Whether a state of the left run is one from which it can still end as it has to. -/
  live : State → Prop
  /-- The mark ahead of a state of the left run that stands on the right only. -/
  pending : State → Option Punctuation
  like : Node → Node → Prop
  problem : Problem → Problem → Prop

namespace World

/-- Whether the next tokens are alike. -/
def Clear (W : World) (s : State) : Prop := W.pending s = none

/-- Nodes alike, one by one. -/
def Alike (W : World) (a b : Array Node) : Prop := List.Forall₂ W.like a.toList b.toList

theorem Alike.push {W : World} {a b : Array Node} {n n' : Node} (h : W.Alike a b)
    (hn : W.like n n') : W.Alike (a.push n) (b.push n') := by
  unfold Alike
  rw [Array.toList_push, Array.toList_push]
  exact List.rel_append h (.cons hn .nil)

theorem Alike.append {W : World} {a b c d : Array Node} (h : W.Alike a b) (h' : W.Alike c d) :
    W.Alike (a ++ c) (b ++ d) := by
  unfold Alike
  rw [Array.toList_append, Array.toList_append]
  exact List.rel_append h h'

/-- Tokens that are read alike and blamed alike. -/
structure TokenLike (W : World) (t t' : Token) : Prop where
  kind : KindLike t.kind t'.kind
  leaf : ∀ symbol, W.like (.leaf symbol t.span) (.leaf symbol t'.span)
  literal : ∀ n n', literalNode? t = some n → literalNode? t' = some n' → W.like n n'
  blamed : ∀ cause, W.problem ⟨cause, t.span⟩ ⟨cause, t'.span⟩
  expected : ∀ what, W.problem ⟨.expected what t.kind.describe, t.span⟩
    ⟨.expected what t'.kind.describe, t'.span⟩

/-- Whether the brace at an index opens an object and no block. -/
def opens (tokens : Array Token) (i : Nat) : Bool :=
  (kindAt tokens (i + 1)).isIdentifier && ((kindAt tokens (i + 2)).isPunctuation .colon ||
    (kindAt tokens (i + 2)).isPunctuation .comma || (kindAt tokens (i + 2)).isPunctuation .rightBrace)

/-- Whether a token with a property follows the bracket that closes the one at an index. -/
def closes (tokens : Array Token) (p : TokenKind → Bool) (i : Nat) : Bool :=
  ((matchingClose? tokens i).map fun close => p (kindAt tokens (close + 1))).getD false

/-- The report of a mark that is made up in front of an index. -/
def missing (tokens : Array Token) (i : Nat) (mark : Punctuation) : Problem :=
  ⟨.missingMark mark (kindAt tokens i).describe, .empty (stopBefore tokens i)⟩

/-- The leaf of a mark that is made up in front of an index. -/
def absent (tokens : Array Token) (i : Nat) (mark : Punctuation) : Node :=
  .absent (.punctuation mark) (stopBefore tokens i)

/-- Where parsing resumes after a statement that began at one index and failed at another. -/
def resumption (tokens : Array Token) (start failed : Nat) : Nat :=
  resumeFrom tokens start failed (depthBetween tokens start failed)

/-- The state in which parsing goes on after a statement that began at index `start` and failed. -/
def resumed (tokens : Array Token) (start : Nat) (s : State) (problem : Problem) : State :=
  { s.report problem with position := resumption tokens start s.position }

/-- The damage over the tokens from one index up to another; none if there are none. -/
def damage? (tokens : Array Token) (p m : Nat) : Option Node :=
  if p < m then some (damageOver tokens p m) else none

/-- What is done about a statement that fails: the same tokens are skipped on both sides. -/
structure Recovered (W : World) (s t s' t' : State) (problem problem' : Problem) : Prop where
  aligned : W.aligned (resumed W.left s.position s' problem) (resumed W.right t.position t' problem')
  damage : Option.Rel W.like
    (damage? W.left s.position (resumption W.left s.position s'.position))
    (damage? W.right t.position (resumption W.right t.position t'.position))

/-- Nodes alike stay so when other nodes are made of them. -/
structure Natural (W : World) : Prop where
  kind : ∀ {n n'}, W.like n n' → n.kind? = n'.kind?
  children : ∀ {n n'}, W.like n n' → List.Forall₂ W.like n.children n'.children
  withField : ∀ {n n'} field, W.like n n' → W.like (n.withField field) (n'.withField field)
  inner : ∀ kind {cs cs'}, List.Forall₂ W.like cs cs' → cs ≠ [] →
    W.like (.ofChildren kind cs) (.ofChildren kind cs')
  blamed : ∀ {n n'} cause, W.like n n' → W.problem ⟨cause, n.span⟩ ⟨cause, n'.span⟩
  merged : ∀ {t t' n n'} cause, W.TokenLike t t' → W.like n n' →
    W.problem ⟨cause, t.span.merge n.span⟩ ⟨cause, t'.span.merge n'.span⟩

/-- Tokens behind which the next one is looked at, whatever it is. -/
def heralds : List TokenKind :=
  [.keyword .functionWord, .punctuation .questionDot, .punctuation .leftBracket, .punctuation .dot]

/-- What two token lists have in common behind the next token. -/
structure Foreseen (W : World) (s t : State) : Prop where
  next : kindAt W.left s.position ∈ heralds →
    KindLike (kindAt W.left (s.position + 1)) (kindAt W.right (t.position + 1))
  /-- Behind a comma, nothing is pending. -/
  comma : kindAt W.left s.position = .punctuation .comma →
    W.Clear { s with position := s.position + 1 }
  colon : (kindAt W.left s.position).isIdentifier = true →
    (kindAt W.left (s.position + 1)).isPunctuation .colon =
      (kindAt W.right (t.position + 1)).isPunctuation .colon
  paired : kindAt W.left s.position = .punctuation .hash →
    (kindAt W.left (s.position + 1)).isIdentifier = true →
      (kindAt W.left (s.position + 2)).isPunctuation .colon =
        (kindAt W.right (t.position + 2)).isPunctuation .colon
  signed : isSign (kindAt W.left s.position) = true →
    W.TokenLike (tokenAt W.left (s.position + 1)) (tokenAt W.right (t.position + 1)) ∧
      ((∃ text, kindAt W.left (s.position + 1) = .number text) →
        ((spanAt W.left s.position).stop == (spanAt W.left (s.position + 1)).start) =
          ((spanAt W.right t.position).stop == (spanAt W.right (t.position + 1)).start)) ∧
      W.like
        (.leaf (.named .number) ((spanAt W.left s.position).merge (spanAt W.left (s.position + 1))))
        (.leaf (.named .number)
          ((spanAt W.right t.position).merge (spanAt W.right (t.position + 1))))
  opens : kindAt W.left s.position = .punctuation .leftBrace →
    World.opens W.left s.position = World.opens W.right t.position
  closes : bracket? (kindAt W.left s.position) = some .opening →
    ∀ p ∈ [(TokenKind.isPunctuation · .colon), (TokenKind.isOperator · .assign)],
      World.closes W.left p s.position = World.closes W.right p t.position

structure Coherent (W : World) : Prop extends Natural W where
  streamLeft : IsStream W.left
  streamRight : IsStream W.right
  /-- What cannot end well any more does not. -/
  alive : ∀ {s t}, Later W.left s t → W.live t → W.live s
  /-- In front of a pending mark, nothing is read. -/
  settle : ∀ {s t}, Past W.left s t → W.live t → W.Clear s
  /-- In front of a pending mark, nothing fails. -/
  stern : ∀ {s t problem}, Later W.left s t → problem.cause.kind ≠ .missing →
    W.live (t.report problem) → W.Clear s
  ahead : ∀ {s t mark}, W.aligned s t → W.pending s = some mark →
    kindAt W.right t.position = .punctuation mark ∧
      (mark = .semicolon ∨ mark = .rightBrace ∧ kindAt W.left s.position = .endOfFile)
  /-- No fewer tokens are left on the right. -/
  inside : ∀ {s t}, W.aligned s t → s.position < W.left.size ∧
    W.left.size + t.position ≤ W.right.size + s.position
  same : ∀ {s s' t t'}, W.aligned s t → Same s s' → Same t t' → W.aligned s' t'
  clear : ∀ {s s'}, Same s s' → W.Clear s → W.Clear s'
  token : ∀ {s t}, W.aligned s t → W.Clear s →
    W.TokenLike (tokenAt W.left s.position) (tokenAt W.right t.position)
  advance : ∀ {s t}, W.aligned s t → W.Clear s → kindAt W.left s.position ≠ .endOfFile →
    W.live { s with position := s.position + 1 } →
      W.aligned { s with position := s.position + 1 } { t with position := t.position + 1 }
  foreseen : ∀ {s t}, W.aligned s t → W.Clear s → W.Foreseen s t
  /-- Where a mark is pending, no other is made up. -/
  lacking : ∀ {s mark}, W.live (s.report (missing W.left s.position mark)) →
    W.Clear s ∨ W.pending s = some mark
  /-- A mark is made up on both sides. -/
  lacked : ∀ {s t mark}, W.aligned s t → W.Clear s →
    W.live (s.report (missing W.left s.position mark)) →
      W.aligned (s.report (missing W.left s.position mark))
        (t.report (missing W.right t.position mark)) ∧
      W.like (absent W.left s.position mark) (absent W.right t.position mark)
  /-- A mark is made up on the left and read on the right. -/
  supplied : ∀ {s t mark}, W.aligned s t → W.pending s = some mark →
    W.live (s.report (missing W.left s.position mark)) →
      W.aligned (s.report (missing W.left s.position mark))
        { t with position := t.position + 1 } ∧
      W.like (absent W.left s.position mark)
        (.leaf (.punctuation mark) (spanAt W.right t.position))
  recovered : ∀ {s t s' t' problem problem'}, W.aligned s t → W.aligned s' t' →
    s.position ≤ s'.position → W.problem problem problem' → problem.cause.kind ≠ .missing →
      W.live (s'.report problem) → W.live (resumed W.left s.position s' problem) →
        W.Recovered s t s' t' problem problem'

end World

end ScriptTree.Parsing
