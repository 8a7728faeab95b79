import Mathlib
import ScriptTree.Proofs.Grammar.Precedence
import ScriptTree.Proofs.Parsing.Stream

/-! Where chains of operators end.

An expression goes on as long as the next token does not stop it (`Continues`). Only behind an
assignment, which has its own end, may an operator follow that was not read, and then no division
can be meant: `Stops` says this of an expression that ends in front of an index. `Operand` is what
this comes to for an operand that may get an operator behind it. -/
namespace ScriptTree.Parsing

/-! ### Slashes that divide -/

/-- Whether the token is a slash that divides. -/
def isDivision : TokenKind → Bool
  | .operator .divide | .operator .divideAssign => true
  | _ => false

/-- Whether a slash at an index has to divide: only behind the end of an operand. -/
def Settled (tokens : Array Token) (q : Nat) : Prop :=
  isDivision (kindAt tokens q) = true → (kindAt tokens (q - 1)).endsOperand = false

/-! ### Nodes in their places -/

/-- The kinds that end an expression with a semicolon. -/
def settledKinds : List NodeKind := [.assignmentExpression, .callStatement, .returnStatement]

/-- The kinds that end with a brace of their own. Only that of a block may be made up. -/
def closedKinds : List NodeKind :=
  [.enumDeclaration, .matchExpression, .objectLiteral, .objectPattern, .templateSubstitution]

/-- Whether a colon among children stands behind a key. -/
def Keyed (children : List Node) : Prop :=
  children.IsChain fun a b => b.symbol = .punctuation .colon → a.field = some .key

theorem Keyed.append {children more : List Node} (h : Keyed children) (hmore : Keyed more)
    (hhead : ∀ n ∈ more.head?, n.symbol ≠ .punctuation .colon) : Keyed (children ++ more) :=
  List.isChain_append.mpr ⟨h, hmore, fun _ _ n hn hcolon => absurd hcolon (hhead n hn)⟩

theorem Keyed.push {children : List Node} {n : Node} (h : Keyed children)
    (hn : n.symbol ≠ .punctuation .colon) : Keyed (children ++ [n]) :=
  h.append (.singleton n) (by simpa using hn)

/-- Whether a child of a block is no damage that starts with the brace that closes the block. -/
def Sheltered (n : Node) : Prop :=
  n.symbol = .named .error → ∀ c ∈ n.children.head?, c.symbol ≠ .punctuation .rightBrace

/-- The kinds whose numbers are conditions of a case, or the ends of a range. -/
def conditionKinds : List NodeKind := [.matchCase, .matchRange]

/-- Whether a number is a decimal integer: a token of digits, or a sign and the digits it touches. -/
inductive IsInteger (tokens : Array Token) (n : Node) : Prop
  | plain {i text} (number : kindAt tokens i = .number text) (digits : text.all Char.isDigit = true)
      (span : n.span = spanAt tokens i)
  | signed {i text} (sign : isSign (kindAt tokens i) = true)
      (number : kindAt tokens (i + 1) = .number text) (digits : text.all Char.isDigit = true)
      (touching : (spanAt tokens i).stop = (spanAt tokens (i + 1)).start)
      (span : n.span = (spanAt tokens i).merge (spanAt tokens (i + 1)))

theorem IsInteger.withField {tokens : Array Token} {n : Node} (h : IsInteger tokens n)
    (field : Field) : IsInteger tokens (n.withField field) := by
  cases h with
  | plain number digits span => exact .plain number digits span
  | signed sign number digits touching span => exact .signed sign number digits touching span

/-- Whether the numbers among children are decimal integers. -/
def Integral (tokens : Array Token) (children : List Node) : Prop :=
  ∀ c ∈ children, c.symbol = .named .number → IsInteger tokens c

namespace Integral
variable {tokens : Array Token} {n : Node} {a b : List Node}

theorem single (h : n.symbol = .named .number → IsInteger tokens n) : Integral tokens [n] :=
  List.forall_mem_singleton.mpr h

/-- A node in one of some roles that no number has. -/
theorem of_role {roles : List Role} (hrole : n.role ∈ roles)
    (hother : Symbol.named .number ∉ roles.map Prod.snd) : Integral tokens [n] :=
  single fun hsymbol => absurd (hsymbol ▸ List.mem_map_of_mem hrole) hother

theorem label (h : Integral tokens [n]) (field : Field) : Integral tokens [n.withField field] :=
  single fun hsymbol => (h n (List.mem_singleton_self n) hsymbol).withField field

theorem append (ha : Integral tokens a) (hb : Integral tokens b) : Integral tokens (a ++ b) :=
  List.forall_mem_append.mpr ⟨ha, hb⟩

end Integral

/-- Whether the children of a node that ends in front of an index fit each other and what
follows. -/
structure Orderly (tokens : Array Token) (q : Nat) (kind : NodeKind) (children : List Node) :
    Prop where
  fits : FitsOperator kind children
  settled : kind ∈ settledKinds → Settled tokens q
  closed : kind ∈ closedKinds → ∀ c ∈ children.getLast?, c.missing = false
  keyed : kind = .objectLiteral → Keyed children
  sheltered : kind = .blockStatement → ∀ c ∈ children, Sheltered c
  integral : kind ∈ conditionKinds → Integral tokens children

/-- Whether nothing is asked of the children of a kind beyond its row and its closing brace. -/
def isPlain (kind : NodeKind) : Bool :=
  kind != .binaryExpression && kind != .unaryExpression && !settledKinds.contains kind &&
    kind != .objectLiteral && kind != .blockStatement && !conditionKinds.contains kind

/-- Whether nothing is asked of the children of a kind beyond its row. -/
def isFree (kind : NodeKind) : Bool := isPlain kind && !closedKinds.contains kind

namespace Orderly
variable {tokens : Array Token} {q : Nat} {kind : NodeKind} {children : List Node}

theorem plain (h : isPlain kind = true)
    (hclosed : kind ∈ closedKinds → ∀ c ∈ children.getLast?, c.missing = false) :
    Orderly tokens q kind children := by
  simp only [isPlain, Bool.and_eq_true, bne_iff_ne] at h
  obtain ⟨⟨⟨⟨⟨hbinary, hunary⟩, hsettled⟩, hobject⟩, hblock⟩, hcondition⟩ := h
  refine ⟨?_, fun hmem => ?_, hclosed, fun hkind => absurd hkind hobject,
    fun hkind => absurd hkind hblock, fun hmem => ?_⟩
  · unfold FitsOperator
    split
    · exact absurd rfl hbinary
    · exact absurd rfl hunary
    · trivial
  · simp [hmem] at hsettled
  · simp [hmem] at hcondition

theorem free (h : isFree kind = true) : Orderly tokens q kind children := by
  obtain ⟨hplain, hopen⟩ := Bool.and_eq_true_iff.mp h
  exact .plain hplain fun hmem => absurd hmem (by simpa using hopen)

/-- The children of a kind that ends with a semicolon. -/
theorem ended (h : kind ∈ settledKinds) (hsettled : Settled tokens q) :
    Orderly tokens q kind children := by
  simp only [settledKinds, List.mem_cons, List.not_mem_nil, or_false] at h
  rcases h with rfl | rfl | rfl <;>
    exact ⟨trivial, fun _ => hsettled, fun h => absurd h (by decide), by simp, by simp,
      fun h => absurd h (by decide)⟩

/-- The children of a block. -/
theorem block (h : ∀ c ∈ children, Sheltered c) : Orderly tokens q .blockStatement children :=
  ⟨trivial, fun h => absurd h (by decide), fun h => absurd h (by decide), nofun, fun _ => h,
    fun h => absurd h (by decide)⟩

/-- The children of a case or a range, which end it with no brace of their own. -/
theorem integers (h : kind ∈ conditionKinds) (hchildren : Integral tokens children) :
    Orderly tokens q kind children := by
  simp only [conditionKinds, List.mem_cons, List.not_mem_nil, or_false] at h
  rcases h with rfl | rfl <;>
    exact ⟨trivial, fun h => absurd h (by decide), fun h => absurd h (by decide), nofun, nofun,
      fun _ => hchildren⟩

end Orderly

/-! ### Ends of expressions -/

/-- Whether a token goes on with an expression in front of it: a binary operator of at least some
precedence, or the sign of an assignment. -/
def Continues (least : Nat) (kind : TokenKind) : Prop :=
  (∃ binding, (binaryOperator? kind).bind Operator.binding? = some binding ∧ least ≤ binding.1) ∨
    ∃ o, kind = .operator o ∧ o.isAssignment = true

theorem Continues.mono {least least' : Nat} {kind : TokenKind}
    (h : Continues least' kind) (hle : least ≤ least') : Continues least kind :=
  h.imp_left fun ⟨binding, hbinding, hleast⟩ => ⟨binding, hbinding, hle.trans hleast⟩

theorem continues_of_isDivision {kind : TokenKind} (h : isDivision kind = true) :
    Continues 0 kind := by
  unfold isDivision at h
  split at h
  · exact .inl ⟨_, rfl, Nat.zero_le _⟩
  · exact .inr ⟨_, rfl, rfl⟩
  · cases h

/-- Whether an expression that ends in front of an index ends there for good. -/
def Stops (tokens : Array Token) (least : Nat) (n : Node) (q : Nat) : Prop :=
  Continues least (kindAt tokens q) → n.Assigns ∧ Settled tokens q

section Stops
variable {tokens : Array Token} {least : Nat} {n m : Node} {q : Nat}

theorem Stops.mono {least' : Nat} (h : Stops tokens least n q) (hle : least ≤ least') :
    Stops tokens least' n q :=
  fun hcontinues => h (hcontinues.mono hle)

theorem Stops.label (h : Stops tokens least n q) (field : Field) :
    Stops tokens least (n.withField field) q :=
  fun hcontinues => (h hcontinues).imp_left Node.assigns_withField.mpr

/-- What ends with an expression ends where that ends. -/
theorem Stops.above (h : Stops tokens least m q) (hm : m ∈ n.children) :
    Stops tokens least n q :=
  fun hcontinues => ⟨Node.assigns_iff.mpr (.inr ⟨m, hm, (h hcontinues).1⟩), (h hcontinues).2⟩

theorem Stops.settled (h : Stops tokens 0 n q) : Settled tokens q :=
  fun hdivision => (h (continues_of_isDivision hdivision)).2 hdivision

/-- Behind an expression and a semicolon, there or made up, a slash has to divide only if it has to
behind the expression. -/
theorem Stops.settled_behind (h : Stops tokens 0 n q) {q' : Nat}
    (hnext : kindAt tokens q = .punctuation .semicolon ∧ q' = q + 1 ∨ q' = q) :
    Settled tokens q' := by
  rcases hnext with ⟨hkind, rfl⟩ | rfl
  · intro _
    rw [Nat.add_sub_cancel, hkind]
    rfl
  · exact h.settled

/-- An assignment ends where its semicolon is, there or made up. -/
theorem stops_of_assignment (hkind : n.kind? = some .assignmentExpression)
    (hsettled : Settled tokens q) : Stops tokens least n q :=
  fun _ => ⟨Node.assigns_iff.mpr (.inl hkind), hsettled⟩

end Stops

/-- What an operand has that may get an operator behind it. -/
structure Operand (tokens : Array Token) (n : Node) (q : Nat) : Prop where
  stops : Stops tokens Operator.unaryPrecedence n q
  binary : n.Binds fun own => Stops tokens (leastAfter own) n q
  assignment : isAssignment n = true → Stops tokens 0 n q

namespace Operand
variable {tokens : Array Token} {n : Node} {q : Nat}

/-- An operand that is no binary expression and no assignment. -/
theorem of_stops {kind : NodeKind} (h : Stops tokens Operator.unaryPrecedence n q)
    (hkind : n.kind? = some kind) (hother : kind ∉ [.binaryExpression, .assignmentExpression,
      .augmentedAssignmentExpression]) : Operand tokens n q := by
  simp only [List.mem_cons, List.not_mem_nil, or_false, not_or] at hother
  refine ⟨h, .of_kind ?_, fun hassignment => ?_⟩
  · rw [hkind]
    simpa using hother.1
  · simp [isAssignment, hkind, hother] at hassignment

/-- An operand behind which no operator is read. -/
theorem of_ended (h : Stops tokens 0 n q) (hbinary : n.kind? ≠ some .binaryExpression) :
    Operand tokens n q :=
  ⟨h.mono (Nat.zero_le _), .of_kind hbinary, fun _ => h⟩

end Operand

/-- Whether a binary expression has an operator of at least some precedence, the test for a private
member apart. -/
def Heads (least : Nat) (n : Node) : Prop :=
  n.testsPrivate = false → n.Binds fun own => least ≤ own.1

/-! ### Precedence climbing -/

section Climbing
variable {tokens : Array Token} {q : Nat} {n left right : Node} {own : Nat × Associativity}

/-- The operator in front of an index is read as itself. -/
theorem binding?_symbolOf {kind : TokenKind} (hword : ∀ o, kind = .operator o → o.isWord = false)
    (h : (binaryOperator? kind).bind Operator.binding? = some own) :
    (symbolOf kind).operator?.bind Operator.binding? = some own := by
  obtain ⟨o, ho, hown⟩ := Option.bind_eq_some_iff.mp h
  suffices hsymbol : (symbolOf kind).operator? = some o by rw [hsymbol, Option.bind_some, hown]
  rw [binaryOperator?.eq_def] at ho
  split at ho <;> cases ho
  · have := hword o rfl
    cases o <;> first | (cases this; done) | rfl
  · rfl
  · rfl

theorem precedence_lt_unary {o : Operator} {binding : Nat × Associativity}
    (h : o.binding? = some binding) : binding.1 < Operator.unaryPrecedence := by
  cases o <;> cases h <;> decide

/-- Operators of one precedence group alike. -/
theorem associativity_eq {o o' : Operator} {binding binding' : Nat × Associativity}
    (h : o.binding? = some binding) (h' : o'.binding? = some binding')
    (hprecedence : binding.1 = binding'.1) : binding = binding' := by
  have halike : ∀ o : Operator, ∀ p ∈ o.binding?,
      p.2 = if p.1 = Operator.power.precedence then .right else .left := by
    intro o
    cases o <;> decide
  refine Prod.ext hprecedence ?_
  rw [halike o _ h, halike o' _ h', hprecedence]

/-- Behind an operand without an assignment sign, nothing binds as tightly as a unary operator. -/
theorem stops_unary (h : ∀ o, kindAt tokens q = .operator o → o.isAssignment = false) :
    Stops tokens Operator.unaryPrecedence n q := by
  rintro (⟨binding, hbinding, hle⟩ | ⟨o, ho, hassign⟩)
  · obtain ⟨o, _, ho⟩ := Option.bind_eq_some_iff.mp hbinding
    exact absurd (precedence_lt_unary ho) (not_lt.mpr hle)
  · cases (h o ho).symm.trans hassign

theorem leastAfter_le {o : Operator} {binding : Nat × Associativity}
    (h : o.binding? = some binding) : leastAfter binding ≤ Operator.unaryPrecedence := by
  cases o <;> cases h <;> decide

/-- An operand that no operator of some precedence follows ends for good. -/
theorem Operand.stops_of_lt {least : Nat} (h : Operand tokens n q)
    (hlt : ∀ binding, (binaryOperator? (kindAt tokens q)).bind Operator.binding? = some binding →
      binding.1 < least) : Stops tokens least n q := by
  rintro (⟨binding, hbinding, hleast⟩ | hassign)
  · exact absurd (hlt binding hbinding) (by omega)
  · exact h.stops (.inr hassign)

/-- What was read as the left operand binds tightly enough for the operator behind it, as it would
have gone on with that operator otherwise. -/
theorem Operand.left_fits (h : Operand tokens left q)
    (hown : (binaryOperator? (kindAt tokens q)).bind Operator.binding? = some own)
    (hfree : ¬left.Assigns) : left.Binds (LeftFits own) := by
  intro hkind
  obtain ⟨inner, hinner, hstops⟩ := h.binary hkind
  have hlt : own.1 < leastAfter inner := by
    by_contra hle
    exact hfree (hstops (.inl ⟨own, hown, not_lt.mp hle⟩)).1
  obtain ⟨o, _, ho⟩ := Option.bind_eq_some_iff.mp hown
  obtain ⟨o', ho'⟩ := Node.exists_operator_of_binding? hinner
  refine ⟨inner, hinner, ?_⟩
  rcases own with ⟨precedence, _ | _⟩ <;> rcases inner with ⟨precedence', _ | _⟩ <;>
    simp only [leastAfter, LeftFits] at hlt ⊢
  · omega
  · omega
  · -- An operator that groups from the left cannot have the precedence of one that does not.
    refine lt_of_le_of_ne (by omega) fun heq => ?_
    cases associativity_eq ho ho' heq
  · exact hlt

/-- What was read as the right operand binds tightly enough. -/
theorem Heads.right_fits (h : Heads (leastAfter own) right) :
    right.testsPrivate = false → right.Binds (RightFits own) := by
  intro htests hkind
  obtain ⟨inner, hinner, hle⟩ := h htests hkind
  refine ⟨inner, hinner, ?_⟩
  rcases own with ⟨precedence, _ | _⟩
  · exact hle
  · exact hle

end Climbing


end ScriptTree.Parsing
