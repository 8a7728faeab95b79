import Mathlib
import ScriptTree.Proofs.Parsing.Chaining
import ScriptTree.Proofs.Printing.Sketch
import ScriptTree.Proofs.Printing.Term

/-! Terms are read back from their tokens.

What is read as an operand, as a unary and as a binary expression goes on as long as the tokens behind it
allow, so for each of these it is said what happens from there: `ReadsOperand`, `ReadsUnary` and
`ReadsBinary`. A token that stops an expression (`Stops`) is no part of it. Everything follows by one
induction over proper terms (`Term.Proper.reads`), with a level for each token. -/
namespace ScriptTree

open Parsing

/-! ### Kinds of tokens -/

/-- The token that an operator is. -/
def Operator.tokenKind : Operator → TokenKind
  | instanceOf => .keyword .instanceofWord
  | membership => .keyword .inWord
  | typeOf => .keyword .typeofWord
  | voidOf => .keyword .voidWord
  | o => .operator o

theorem Operator.tokenKind?_lexeme (o : Operator) (start : Nat) :
    o.lexeme.tokenKind? start = some o.tokenKind := by
  cases o <;> rfl

namespace Operator
variable {o : Operator} {own : Nat × Associativity}

theorem tokenKind_ne_punctuation (mark : Punctuation) : o.tokenKind ≠ .punctuation mark := by
  cases o <;> simp [tokenKind]

theorem tokenKind_ne_endOfFile : o.tokenKind ≠ .endOfFile := by
  cases o <;> simp [tokenKind]

theorem operator?_symbolOf (o : Operator) : (symbolOf o.tokenKind).operator? = some o := by
  cases o <;> decide +kernel

theorem binaryOperator?_tokenKind (h : o.binding? = some own) :
    binaryOperator? o.tokenKind = some o := by
  cases o
  all_goals first | rfl | cases h

theorem isAssignment_of_binding? (h : o.binding? = some own) : o.isAssignment = false := by
  cases o
  all_goals first | rfl | cases h

theorem mem_of_isUnary (h : o.isUnary) : o = plus ∨ o = minus ∨ o = logicalNot ∨ o = bitNot ∨
    o = typeOf ∨ o = voidOf := by
  revert h
  cases o <;> decide

/-- Every binary operator binds looser than every one in front of an operand. -/
theorem leastAfter_le (h : o.binding? = some own) : leastAfter own ≤ unaryPrecedence := by
  cases o <;> cases h <;> decide

theorem precedence_lt (h : o.binding? = some own) : own.1 < unaryPrecedence := by
  cases o <;> cases h <;> decide

theorem precedence_of_left {precedence : Nat} (h : o.binding? = some (precedence, .left)) :
    precedence < power.precedence := by
  cases o <;> cases h <;> decide

theorem precedence_of_right {precedence : Nat} (h : o.binding? = some (precedence, .right)) :
    precedence = power.precedence := by
  cases o <;> cases h
  rfl

end Operator

theorem le_leastAfter (own : Nat × Associativity) : own.1 ≤ leastAfter own := by
  obtain ⟨precedence, _ | _⟩ := own
  · exact Nat.le_succ _
  · exact Nat.le_refl _

theorem RightFits.leastAfter_le {own right : Nat × Associativity} (h : RightFits own right) :
    leastAfter own ≤ right.1 := by
  obtain ⟨precedence, _ | _⟩ := own
  · exact h
  · exact h

theorem LeftFits.le {own left : Nat × Associativity} (h : LeftFits own left) : own.1 ≤ left.1 := by
  obtain ⟨precedence, _ | _⟩ := own
  · exact h
  · exact Nat.le_of_lt h

/-- An operator does not take the right operand away from one on whose right side it may stand. -/
theorem LeftFits.lt {o other : Operator} {own left : Nat × Associativity} (h : LeftFits own left)
    (hown : o.binding? = some own) (hleft : other.binding? = some left) : own.1 < leastAfter left := by
  obtain ⟨precedence, _ | _⟩ := own
  · obtain ⟨precedence', _ | _⟩ := left
    · exact Nat.lt_succ_of_le h
    · -- Of one precedence, operators group alike.
      have hless := Operator.precedence_of_left hown
      rwa [← Operator.precedence_of_right hleft] at hless
  · exact h.trans_le (le_leastAfter left)

namespace Term

def kinds (e : Term) : List TokenKind := e.lexemes.filterMap (·.tokenKind? 0)

def argumentKinds (arguments : List Term) : List TokenKind :=
  (argumentLexemes arguments).filterMap (·.tokenKind? 0)

section Kinds
variable (name : String) (e e' : Term) (arguments : List Term) (o : Operator)

@[simp] theorem kinds_identifier : (identifier name).kinds = [.identifier name] := by
  simp [kinds, lexemes, Lexeme.tokenKind?]

@[simp] theorem kinds_number : (number name).kinds = [.number name] := by
  simp [kinds, lexemes, Lexeme.tokenKind?]

@[simp] theorem kinds_parenthesized : (parenthesized e).kinds =
    .punctuation .leftParen :: e.kinds ++ [.punctuation .rightParen] := by
  simp [kinds, lexemes, Lexeme.tokenKind?]

@[simp] theorem kinds_member :
    (member e name).kinds = e.kinds ++ [.punctuation .dot, .identifier name] := by
  simp [kinds, lexemes, Lexeme.tokenKind?]

@[simp] theorem kinds_call : (call e arguments).kinds =
    e.kinds ++ .punctuation .leftParen :: argumentKinds arguments ++ [.punctuation .rightParen] := by
  simp [kinds, argumentKinds, lexemes, Lexeme.tokenKind?]

@[simp] theorem kinds_unary : (unary o e).kinds = o.tokenKind :: e.kinds := by
  simp [kinds, lexemes, Operator.tokenKind?_lexeme]

@[simp] theorem kinds_binary : (binary o e e').kinds = e.kinds ++ o.tokenKind :: e'.kinds := by
  simp [kinds, lexemes, Operator.tokenKind?_lexeme]

@[simp] theorem argumentKinds_nil : argumentKinds [] = [] := by simp [argumentKinds, argumentLexemes]

@[simp] theorem argumentKinds_singleton : argumentKinds [e] = e.kinds := by
  simp [argumentKinds, argumentLexemes, kinds]

@[simp] theorem argumentKinds_cons_cons : argumentKinds (e :: e' :: arguments) =
    e.kinds ++ .punctuation .comma :: argumentKinds (e' :: arguments) := by
  simp [argumentKinds, argumentLexemes, kinds, Lexeme.tokenKind?]

end Kinds

/-- Whether an operand may start with a token. -/
def Opens (k : TokenKind) : Prop :=
  (∃ name, k = .identifier name) ∨ (∃ digits, k = .number digits) ∨ k = .punctuation .leftParen

theorem Proper.opens {e : Term} (h : e.Proper) (hoperand : e.isOperand) :
    ∃ k ks, e.kinds = k :: ks ∧ Opens k := by
  induction h with
  | identifier => exact ⟨_, [], kinds_identifier _, .inl ⟨_, rfl⟩⟩
  | number => exact ⟨_, [], kinds_number _, .inr (.inl ⟨_, rfl⟩)⟩
  | parenthesized => exact ⟨_, _, kinds_parenthesized _, .inr (.inr rfl)⟩
  | @member object _ accessible _ _ ih =>
    have hobject : object.isOperand := by
      cases object <;> first | rfl | cases accessible
    obtain ⟨k, ks, hks, hk⟩ := ih hobject
    exact ⟨k, _, by rw [kinds_member, hks]; rfl, hk⟩
  | call callable _ _ ih =>
    obtain ⟨k, ks, hks, hk⟩ := ih callable
    exact ⟨k, _, by rw [kinds_call, hks]; rfl, hk⟩
  | unary | binary => cases hoperand

/-- Of all marks, only an opening parenthesis stands at the head of a term. -/
theorem Proper.head {e : Term} (h : e.Proper) :
    ∃ k ks, e.kinds = k :: ks ∧ ∀ mark, k = .punctuation mark → mark = .leftParen := by
  induction h with
  | identifier => exact ⟨_, [], kinds_identifier _, nofun⟩
  | number => exact ⟨_, [], kinds_number _, nofun⟩
  | parenthesized =>
    refine ⟨_, _, kinds_parenthesized _, fun mark hmark => ?_⟩
    cases hmark
    rfl
  | unary =>
    exact ⟨_, _, kinds_unary .., fun mark hmark => absurd hmark (Operator.tokenKind_ne_punctuation mark)⟩
  | member _ _ _ ih =>
    obtain ⟨k, ks, hks, hmarks⟩ := ih
    exact ⟨k, _, by rw [kinds_member, hks]; rfl, hmarks⟩
  | call _ _ _ ih =>
    obtain ⟨k, ks, hks, hmarks⟩ := ih
    exact ⟨k, _, by rw [kinds_call, hks]; rfl, hmarks⟩
  | binary _ _ _ _ _ ih =>
    obtain ⟨k, ks, hks, hmarks⟩ := ih
    exact ⟨k, _, by rw [kinds_binary, hks]; rfl, hmarks⟩

/-- The least precedence that an operator behind a term must not have. -/
def tightness (e : Term) : Nat := (e.binding?.map leastAfter).getD Operator.unaryPrecedence

/-- The kind of the node of a term as an operand. -/
def operandKind (e : Term) : NodeKind := if e.isPrimary then .primaryExpression else .callExpression

end Term

/-! ### Where an expression stops -/

/-- Whether an expression that may go on with operators of at least the precedence `least` ends in front
of a token. -/
structure Stops (least : Nat) (k : TokenKind) : Prop where
  uncalled : k ∉ [.punctuation .leftParen, .punctuation .dot, .punctuation .questionDot]
  unassigned : ∀ o, k = .operator o → o.isAssignment = false
  loose : ∀ own, (binaryOperator? k).bind Operator.binding? = some own → own.1 < least

theorem Stops.mono {least least' : Nat} {k : TokenKind} (h : Stops least k) (hle : least ≤ least') :
    Stops least' k :=
  ⟨h.uncalled, h.unassigned, fun own hown => (h.loose own hown).trans_le hle⟩

/-- Marks behind which nothing of an expression follows. -/
theorem Stops.of_mark {mark : Punctuation} (least : Nat)
    (h : mark ∈ [.rightParen, .rightBracket, .rightBrace, .comma, .semicolon]) :
    Stops least (.punctuation mark) := by
  have hall : ∀ mark ∈ [Punctuation.rightParen, .rightBracket, .rightBrace, .comma, .semicolon],
      TokenKind.punctuation mark ∉ [.punctuation .leftParen, .punctuation .dot, .punctuation .questionDot] := by
    decide
  exact ⟨hall mark h, nofun, nofun⟩

theorem Stops.of_operator {o : Operator} {own : Nat × Associativity} {least : Nat}
    (h : o.binding? = some own) (hless : own.1 < least) : Stops least o.tokenKind where
  uncalled := by simp [o.tokenKind_ne_punctuation]
  unassigned other hother := by
    have := o.isAssignment_of_binding? h
    cases o <;> cases hother <;> exact this
  loose other hother := by
    rw [o.binaryOperator?_tokenKind h, Option.bind_some, h] at hother
    cases hother
    exact hless

section Stopping
variable {scope : Scope} {k : TokenKind} {ks : List TokenKind} {least : Nat} {n : Node}
  {post : Node → Prop}

theorem extend_stops (huncalled : k ∉ [.punctuation .leftParen, .punctuation .dot, .punctuation .questionDot])
    (h : post n) : Loops scope extend (k :: ks) (k :: ks) n post := by
  refine .done (Yields.peekKind.bind fun kind hkind => ?_)
  subst hkind
  split
  · simp at huncalled
  · simp at huncalled
  · simp at huncalled
  · exact .pure ⟨n, rfl, h⟩

theorem assignmentOr_stops (hstops : Stops least k) (h : post n) :
    Yields scope (assignmentOr n) (k :: ks) (k :: ks) post := by
  refine Yields.peekKind.bind fun kind hkind => ?_
  subst hkind
  split
  · rename_i o
    have hunassigned := hstops.unassigned o rfl
    have hne : o ≠ .assign := by
      rintro rfl
      cases hunassigned
    rw [if_neg hne, if_neg (by simp [Operator.isAugmentedAssignment, hunassigned])]
    exact .pure h
  · exact .pure h

theorem operateOn_stops (hstops : Stops least k) (h : post n) :
    Loops scope (operateOn least) (k :: ks) (k :: ks) n post := by
  refine .done ?_
  rw [operateOn]
  split
  · exact .pure ⟨n, rfl, h⟩
  · refine Yields.peekKind.bind fun kind hkind => ?_
    subst hkind
    cases hbinding : (binaryOperator? kind).bind Operator.binding? with
    | none => exact .pure ⟨n, rfl, h⟩
    | some own =>
      dsimp only
      rw [if_pos (hstops.loose own hbinding)]
      exact .pure ⟨n, rfl, h⟩

end Stopping

/-! ### Simple operands -/

namespace Parsing.Yields
variable {scope : Scope} {k : TokenKind} {ks ks₁ ks' rest : List TokenKind} {post : Node → Prop}

/-- A primary expression with the calls and accesses behind it. -/
theorem operand {content : Node → Prop} (hcontent : Yields scope primaryContent ks rest content)
    (hloops : ∀ inner, content inner →
      Loops scope extend rest ks' (.ofChildren .primaryExpression [inner]) post) :
    Yields scope Parsing.operand ks ks' post := by
  have hprimary : Yields scope primary ks rest
      fun n => ∃ inner, content inner ∧ n = .ofChildren .primaryExpression [inner] :=
    hcontent.bind fun inner hinner => Yields.node.mono fun n hn => ⟨inner, hinner, hn⟩
  refine hprimary.bind fun n hn => ?_
  obtain ⟨inner, hinner, rfl⟩ := hn
  exact (hloops inner hinner).repeatFrom

theorem primaryContent_name (name : String) :
    Yields scope primaryContent (.identifier name :: rest) rest fun n =>
      ∃ i, kindAt scope.tokens i = .identifier name ∧
        n = .leaf (.named .identifier) (spanAt scope.tokens i) := by
  refine Yields.peekKind.bind fun kind hkind => ?_
  subst hkind
  exact Yields.bump (by simp)

theorem primaryContent_number (digits : String) :
    Yields scope primaryContent (.number digits :: rest) rest fun n =>
      ∃ i, kindAt scope.tokens i = .number digits ∧
        n = .leaf (.named .number) (spanAt scope.tokens i) := by
  refine Yields.peekKind.bind fun kind hkind => ?_
  subst hkind
  exact Yields.bump (by simp)

/-- A name that nothing behind it goes on with. -/
theorem operand_name (name : String)
    (h : k ∉ [.punctuation .leftParen, .punctuation .dot, .punctuation .questionDot]) :
    Yields scope Parsing.operand (.identifier name :: k :: rest) (k :: rest) fun n =>
      ∃ i, kindAt scope.tokens i = .identifier name ∧ n = .ofChildren .primaryExpression
        [.leaf (.named .identifier) (spanAt scope.tokens i)] := by
  refine .operand (primaryContent_name name) fun inner hinner => ?_
  obtain ⟨i, hkind, rfl⟩ := hinner
  exact extend_stops h ⟨i, hkind, rfl⟩

theorem accessMark_dot : Yields scope accessMark (.punctuation .dot :: rest) rest fun n =>
    ∃ i, n = .leaf (.punctuation .dot) (spanAt scope.tokens i) := by
  refine Yields.sees.bind fun b hb => ?_
  subst hb
  exact (Yields.bump (by simp)).mono fun n ⟨i, _, hn⟩ => ⟨i, hn⟩

theorem propertyName_plain {name : String} :
    Yields scope propertyName (.identifier name :: rest) rest fun n =>
      ∃ i, kindAt scope.tokens i = .identifier name ∧
        n = .leaf (.named .propertyIdentifier) (spanAt scope.tokens i) := by
  refine Yields.sees.bind fun b hb => ?_
  subst hb
  exact Yields.expectIdentifier

/-- The member of a primary expression. -/
theorem access {object : Node} {marks names : Node → Prop}
    (hkind : object.kind? = some .primaryExpression) (hmark : Yields scope accessMark ks ks₁ marks)
    (hname : Yields scope propertyName ks₁ rest names) :
    Yields scope (access object) ks rest fun n => ∃ mark property, marks mark ∧ names property ∧
      n = .ofChildren .primaryExpression [.ofChildren .memberExpression
        [object.withField .object, mark, property.withField .property]] := by
  have hrequired : Yields scope (requirePrimary object) ks ks fun _ => True := by
    rw [requirePrimary, if_pos hkind]
    exact .pure trivial
  refine hrequired.bind fun _ _ => ?_
  refine Yields.bind (hmark.bind fun mark hmark => hname.bind fun property hname =>
    Yields.node.mono fun n hn => (⟨mark, property, hmark, hname, hn⟩ : ∃ mark property, marks mark ∧
      names property ∧ n = .ofChildren .memberExpression
        [object.withField .object, mark, property.withField .property])) fun inner hinner => ?_
  obtain ⟨mark, property, hmark, hname, rfl⟩ := hinner
  exact Yields.node.mono fun n hn => ⟨mark, property, hmark, hname, hn⟩

/-- A member access behind an operand. Behind `?.` a parenthesis would be a call. -/
theorem extend_access {n : Node} {mark : Punctuation}
    (hmark : mark = .dot ∨ mark = .questionDot ∧ k ≠ .punctuation .leftParen)
    (h : Yields scope (Parsing.access n) (.punctuation mark :: k :: ks) ks' post) :
    Yields scope (extend n) (.punctuation mark :: k :: ks) ks' fun r => ∃ m, r = .more m ∧ post m := by
  have hmore : Yields scope (do return Round.more (← Parsing.access n)) (.punctuation mark :: k :: ks) ks'
      fun r => ∃ m, r = .more m ∧ post m :=
    h.bind fun m hm => .pure ⟨m, rfl, hm⟩
  refine Yields.peekKind.bind fun kind hkind => ?_
  subst hkind
  rcases hmark with rfl | ⟨rfl, hcall⟩
  · exact hmore
  · refine (Yields.kindAhead_of (k := k) rfl).bind fun next hnext => ?_
    rw [hnext, show k.isPunctuation .leftParen = false from beq_false_of_ne hcall]
    exact hmore

end Parsing.Yields

/-! ### What is read from the tokens of a term -/

/-- What parses with this many levels left may use. -/
def Parsing.Scope.withLevels (tokens : Array Token) (maxDepth levels : Nat) : Scope :=
  ⟨tokens, level tokens maxDepth levels⟩

namespace Term

section Reading
variable (source : String) (tokens : Array Token) (maxDepth : Nat)

/-- Whether an operand is read that goes on as the node of the term does. -/
def ReadsOperand (e : Term) : Prop :=
  ∀ levels rest ks' post, e.lexemes.length ≤ levels + 1 →
    (∀ n, n.term? source = some e → n.kind? = some e.operandKind →
      Loops (.withLevels tokens maxDepth levels) extend rest ks' n post) →
    Yields (.withLevels tokens maxDepth levels) operand (e.kinds ++ rest) ks' post

def ReadsUnary (e : Term) : Prop :=
  ∀ levels k rest, e.lexemes.length ≤ levels + 1 → Stops Operator.unaryPrecedence k →
    Yields (.withLevels tokens maxDepth levels) (production .unary) (e.kinds ++ k :: rest) (k :: rest)
      fun n => n.term? source = some e

/-- Whether a binary expression is read that goes on as the node of the term does. -/
def ReadsBinary (e : Term) : Prop :=
  ∀ levels least k rest ks' post, e.lexemes.length ≤ levels + 1 → (∀ own ∈ e.binding?, least ≤ own.1) →
    Stops e.tightness k →
    (∀ n, n.term? source = some e →
      Loops (.withLevels tokens maxDepth levels) (operateOn least) (k :: rest) ks' n post) →
    Yields (.withLevels tokens maxDepth levels) (production (.binary least)) (e.kinds ++ k :: rest) ks'
      post

structure Reads (e : Term) : Prop where
  asOperand : e.isOperand → ReadsOperand source tokens maxDepth e
  asUnary : ¬e.isBinary → ReadsUnary source tokens maxDepth e
  asBinary : ReadsBinary source tokens maxDepth e

end Reading

section Steps
variable {source : String} {tokens : Array Token} {maxDepth : Nat} {e : Term}

theorem length_lexemes (h : e.Proper) : 0 < e.lexemes.length := by
  obtain ⟨k, ks, hks, _⟩ := h.head
  refine List.length_pos_of_ne_nil fun hnil => ?_
  simp [kinds, hnil] at hks

/-- One level deeper, everything of a term that is not taken by operators behind it is read. -/
theorem ReadsBinary.descend (h : ReadsBinary source tokens maxDepth e) (hproper : e.Proper)
    {levels least : Nat} {k : TokenKind} {rest : List TokenKind} (hlevels : e.lexemes.length ≤ levels)
    (htight : ∀ own ∈ e.binding?, least ≤ own.1) (hleast : least ≤ Operator.unaryPrecedence)
    (hstops : Stops least k) :
    Yields (.withLevels tokens maxDepth levels) (Parsing.descend (.binary least)) (e.kinds ++ k :: rest)
      (k :: rest) fun n => n.term? source = some e := by
  obtain ⟨levels, rfl⟩ : ∃ n, levels = n + 1 := ⟨levels - 1, by have := length_lexemes hproper; omega⟩
  refine h levels least k rest _ _ hlevels htight (hstops.mono ?_) fun n hn => operateOn_stops hstops hn
  rw [tightness]
  cases hbinding : e.binding? with
  | none => exact hleast
  | some own => exact (htight own hbinding).trans (le_leastAfter own)

/-- Behind anything but a binary expression, operators follow. -/
theorem ReadsUnary.binary (h : ReadsUnary source tokens maxDepth e) (hbare : ¬e.isBinary) :
    ReadsBinary source tokens maxDepth e := by
  intro levels least k rest ks' post hlevels _ hstops hloops
  have hnone : e.binding? = none := by
    cases e <;> first | rfl | exact absurd rfl hbare
  rw [tightness, hnone] at hstops
  exact (h levels k rest hlevels hstops).bind fun n hn => (hloops n hn).repeatFrom

/-- An operand without an assignment behind it. -/
theorem ReadsOperand.unary (h : ReadsOperand source tokens maxDepth e) (hproper : e.Proper)
    (hoperand : e.isOperand) : ReadsUnary source tokens maxDepth e := by
  intro levels k rest hlevels hstops
  have hwhole : Yields (.withLevels tokens maxDepth levels) (do assignmentOr (← Parsing.operand))
      (e.kinds ++ k :: rest) (k :: rest) fun n => n.term? source = some e :=
    (h levels (k :: rest) (k :: rest) _ hlevels fun n hn _ =>
      extend_stops hstops.uncalled hn).bind fun n hn =>
      assignmentOr_stops hstops hn
  obtain ⟨first, ks, hks, hopens⟩ := hproper.opens hoperand
  rw [hks] at hwhole ⊢
  refine Yields.peekKind.bind fun kind hkind => ?_
  rw [hkind]
  rcases hopens with ⟨_, rfl⟩ | ⟨_, rfl⟩ | rfl
  · exact hwhole
  · exact hwhole
  · exact hwhole

theorem Reads.of_operand (h : ReadsOperand source tokens maxDepth e) (hproper : e.Proper)
    (hoperand : e.isOperand) : Reads source tokens maxDepth e := by
  have hunary := h.unary hproper hoperand
  have hbare : ¬e.isBinary := by
    cases e with
    | binary => cases hoperand
    | _ => nofun
  exact ⟨fun _ => h, fun _ => hunary, hunary.binary hbare⟩

/-! ### Operands -/

section Operands
variable {levels : Nat} {ks ks' rest : List TokenKind} {post : Node → Prop}

/-- A primary expression with the calls and accesses behind it. -/
theorem readsOperand_of_primary
    (hcontent : Yields (.withLevels tokens maxDepth levels) primaryContent ks rest
      fun n => n.term? source = some e)
    (hloops : ∀ n, n.term? source = some e → n.kind? = some .primaryExpression →
      Loops (.withLevels tokens maxDepth levels) extend rest ks' n post) :
    Yields (.withLevels tokens maxDepth levels) operand ks ks' post :=
  .operand hcontent fun _ hinner => hloops _ hinner rfl

section Spelled
variable (hspells : AllSpelled source tokens)
include hspells

theorem readsOperand_identifier (name : String) :
    ReadsOperand source tokens maxDepth (.identifier name) := by
  intro levels rest ks' post _ hloops
  rw [kinds_identifier]
  refine readsOperand_of_primary ((Yields.primaryContent_name name).mono fun n hn => ?_) hloops
  obtain ⟨i, hkind, rfl⟩ := hn
  exact congrArg (some ∘ identifier) (hspells.slice_eq hkind rfl)

theorem readsOperand_number (digits : String) :
    ReadsOperand source tokens maxDepth (.number digits) := by
  intro levels rest ks' post _ hloops
  rw [kinds_number]
  refine readsOperand_of_primary ((Yields.primaryContent_number digits).mono fun n hn => ?_) hloops
  obtain ⟨i, hkind, rfl⟩ := hn
  exact congrArg (some ∘ number) (hspells.slice_eq hkind rfl)

/-- The member of an object that has been read. -/
theorem access_yields {object : Node} {name : String} (hobject : object.term? source = some e)
    (hkind : object.kind? = some .primaryExpression) :
    Yields (.withLevels tokens maxDepth levels) (access object)
      (.punctuation .dot :: .identifier name :: rest) rest
      fun n => n.term? source = some (.member e name) ∧ n.kind? = some .primaryExpression := by
  refine (Yields.access hkind (Yields.accessMark_dot) Yields.propertyName_plain).mono fun n hn => ?_
  obtain ⟨mark, property, ⟨i, rfl⟩, ⟨j, hname, rfl⟩, rfl⟩ := hn
  have hslice : (spanAt tokens j).slice source = name := hspells.slice_eq hname rfl
  exact ⟨Node.term?_member (by rwa [Node.term?_withField]) rfl rfl hslice, rfl⟩

theorem ReadsOperand.member {name : String} (h : ReadsOperand source tokens maxDepth e)
    (haccessible : e.isPrimary) : ReadsOperand source tokens maxDepth (.member e name) := by
  intro levels rest ks' post hlevels hloops
  rw [kinds_member, List.append_assoc]
  rw [lexemes, List.length_append] at hlevels
  refine h levels _ ks' post (by omega) fun n hn hkind => ?_
  rw [operandKind, if_pos haccessible] at hkind
  have hround : Yields (.withLevels tokens maxDepth levels) (extend n)
      (.punctuation .dot :: .identifier name :: rest) rest fun r => ∃ m, r = .more m ∧
        Loops (.withLevels tokens maxDepth levels) extend rest ks' m post :=
    .extend_access (.inl rfl) ((access_yields hspells hn hkind).mono fun m hm => hloops m hm.1 hm.2)
  exact .more hround (by simp)

end Spelled

/-- A parenthesis that no colon follows opens no function. -/
theorem ReadsBinary.parenthesized (h : ReadsBinary source tokens maxDepth e) (hproper : e.Proper)
    (hcolon : ∀ i, (kindAt tokens i).isPunctuation .colon = false) :
    ReadsOperand source tokens maxDepth (.parenthesized e) := by
  intro levels rest ks' post hlevels hloops
  have hlevels : e.lexemes.length ≤ levels := by
    simp only [lexemes, List.length_cons, List.length_append] at hlevels
    omega
  have hinner : Yields (.withLevels tokens maxDepth levels) Parsing.parenthesized
      (.punctuation .leftParen :: (e.kinds ++ .punctuation .rightParen :: rest)) rest
      fun n => n.term? source = some (.parenthesized e) := by
    refine Yields.expect.bind fun opening hopening => ?_
    refine (h.descend hproper hlevels (fun _ _ => Nat.zero_le _) (Nat.zero_le _)
      (.of_mark 0 (by simp))).bind fun n hn => ?_
    refine Yields.expect.bind fun closing hclosing => Yields.node.mono fun m hm => ?_
    subst hm
    obtain ⟨i, _, rfl⟩ := hopening
    obtain ⟨j, _, rfl⟩ := hclosing
    exact Node.term?_parenthesized hn rfl rfl
  have hks : (Term.parenthesized e).kinds ++ rest =
      .punctuation .leftParen :: (e.kinds ++ .punctuation .rightParen :: rest) := by simp
  rw [hks]
  refine readsOperand_of_primary (Yields.peekKind.bind fun kind hkind => ?_) hloops
  subst hkind
  refine (Yields.closesBefore (hcolon ·)).bind fun b hb => ?_
  subst hb
  exact hinner

/-! ### Calls -/

theorem argument_yields {k : TokenKind} (h : ReadsBinary source tokens maxDepth e)
    (hproper : e.Proper) (hlevels : e.lexemes.length ≤ levels) (hstops : Stops 0 k) :
    Yields (.withLevels tokens maxDepth levels) argument (e.kinds ++ k :: rest) (k :: rest)
      fun n => n.term? source = some e := by
  have hexpression : Yields (.withLevels tokens maxDepth levels) expression (e.kinds ++ k :: rest)
      (k :: rest) fun n => n.term? source = some e :=
    h.descend hproper hlevels (fun _ _ => Nat.zero_le _) (Nat.zero_le _) hstops
  obtain ⟨first, ks, hks, hmarks⟩ := hproper.head
  rw [hks] at hexpression ⊢
  refine Yields.sees.bind fun b hb => ?_
  have hfalse : first.isPunctuation .ellipsis = false := by
    refine beq_false_of_ne fun hmark => ?_
    cases hmarks _ hmark
  rw [hb, hfalse]
  exact hexpression

/-- A round that reads an argument, as far as the mark behind it. -/
theorem argumentRound_yields {k : TokenKind} {children : Array Node}
    {posted : Round (Array Node) → Prop} (h : ReadsBinary source tokens maxDepth e)
    (hproper : e.Proper) (hlevels : e.lexemes.length ≤ levels) (hstops : Stops 0 k)
    (hbehind : ∀ n, n.term? source = some e →
      Yields (.withLevels tokens maxDepth levels) (do
        if ← sees .comma then return .more ((children.push n).push (← bump))
        return .done (children.push n)) (k :: rest) ks' posted) :
    Yields (.withLevels tokens maxDepth levels) (listRound .rightParen argument children)
      (e.kinds ++ k :: rest) ks' posted := by
  have hargument : Yields (.withLevels tokens maxDepth levels) argument (e.kinds ++ k :: rest)
      (k :: rest) fun n => n.term? source = some e :=
    argument_yields h hproper hlevels hstops
  obtain ⟨first, ks, hks, hmarks⟩ := hproper.head
  rw [hks] at hargument ⊢
  have hne {mark : Punctuation} (hmark : mark ≠ .leftParen) : first ≠ .punctuation mark :=
    fun hkind => hmark (hmarks _ hkind)
  exact .listRound_item (hne (by decide)) (hne (by decide)) hargument hbehind

/-- Arguments up to the mark that closes them. -/
theorem arguments_loop {es : List Term} (h : ∀ e ∈ es, ReadsBinary source tokens maxDepth e)
    (hproper : ∀ e ∈ es, e.Proper) (hlevels : (argumentLexemes es).length ≤ levels)
    (children : Array Node) :
    Loops (.withLevels tokens maxDepth levels) (listRound .rightParen argument)
      (argumentKinds es ++ .punctuation .rightParen :: rest) (.punctuation .rightParen :: rest) children
      fun all => ∃ items, all.toList = children.toList ++ items ∧
        ∀ closing : Node, closing.symbol = .punctuation .rightParen →
          Node.arguments? source (items ++ [closing]) = some es := by
  induction es generalizing children with
  | nil =>
    refine .done (Yields.sees_self.bind fun b hb => ?_)
    subst hb
    exact .pure ⟨children, rfl, [], (List.append_nil _).symm, fun _ _ => rfl⟩
  | cons e es ih =>
    obtain ⟨he, hes⟩ := List.forall_mem_cons.mp h
    obtain ⟨heproper, hesproper⟩ := List.forall_mem_cons.mp hproper
    cases es with
    | nil =>
      rw [argumentLexemes] at hlevels
      rw [argumentKinds_singleton]
      refine .done (argumentRound_yields he heproper hlevels (.of_mark 0 (by simp)) fun n hn => ?_)
      refine Yields.sees.bind fun b hb => ?_
      subst hb
      exact .pure ⟨_, rfl, [n], Array.toList_push, fun _ => Node.arguments?_last hn⟩
    | cons e' es =>
      rw [argumentLexemes, List.length_append, List.length_cons] at hlevels
      rw [argumentKinds_cons_cons, List.append_assoc, List.cons_append]
      have hround : Yields (.withLevels tokens maxDepth levels)
          (listRound .rightParen argument children) (e.kinds ++ .punctuation .comma ::
            (argumentKinds (e' :: es) ++ .punctuation .rightParen :: rest))
          (argumentKinds (e' :: es) ++ .punctuation .rightParen :: rest)
          fun r => ∃ all, r = .more all ∧
            Loops (.withLevels tokens maxDepth levels) (listRound .rightParen argument)
            (argumentKinds (e' :: es) ++ .punctuation .rightParen :: rest)
            (.punctuation .rightParen :: rest) all fun all => ∃ items,
              all.toList = children.toList ++ items ∧
              ∀ closing : Node, closing.symbol = .punctuation .rightParen →
                Node.arguments? source (items ++ [closing]) = some (e :: e' :: es) := by
        refine argumentRound_yields he heproper (by omega) (.of_mark 0 (by simp)) fun n hn => ?_
        refine Yields.sees_self.bind fun b hb => ?_
        subst hb
        refine (Yields.bump (by simp)).bind fun mark hmark => .pure ⟨_, rfl, ?_⟩
        obtain ⟨i, _, rfl⟩ := hmark
        intro fuel hfuel
        refine (ih hes hesproper (by omega) _ fuel hfuel).mono fun all hall => ?_
        obtain ⟨items, hitems, hread⟩ := hall
        refine ⟨n :: .leaf (.punctuation .comma) (spanAt tokens i) :: items, ?_,
          fun closing hclosing => ?_⟩
        · rw [hitems, Array.toList_push, Array.toList_push]
          simp [Scope.withLevels, symbolOf]
        · exact Node.arguments?_cons hn rfl (hread closing hclosing)
      refine .more hround ?_
      simp only [List.length_append, List.length_cons]
      omega

theorem arguments_yields {es : List Term} (h : ∀ e ∈ es, ReadsBinary source tokens maxDepth e)
    (hproper : ∀ e ∈ es, e.Proper) (hlevels : (argumentLexemes es).length ≤ levels) :
    Yields (.withLevels tokens maxDepth levels) Parsing.arguments
      (.punctuation .leftParen :: (argumentKinds es ++ .punctuation .rightParen :: rest)) rest
      fun n => ∃ opening closing : Node, ∃ items,
        n = .ofChildren .argumentList (opening :: (items ++ [closing])) ∧
        opening.symbol = .punctuation .leftParen ∧ closing.symbol = .punctuation .rightParen ∧
        Node.arguments? source (items ++ [closing]) = some es := by
  refine Yields.expect.bind fun opening hopening => ?_
  refine (arguments_loop h hproper hlevels #[opening]).repeatFrom.bind fun all hall => ?_
  refine Yields.expect.bind fun closing hclosing => Yields.node.mono fun n hn => ?_
  obtain ⟨items, hitems, hes⟩ := hall
  have hopens : opening.symbol = .punctuation .leftParen := by
    obtain ⟨i, _, rfl⟩ := hopening
    rfl
  have hcloses : closing.symbol = .punctuation .rightParen := by
    obtain ⟨i, _, rfl⟩ := hclosing
    rfl
  refine ⟨opening, closing, items, ?_, hopens, hcloses, hes closing hcloses⟩
  rw [hn, Array.toList_push, hitems]
  rfl

theorem ReadsOperand.call {es : List Term} (h : ReadsOperand source tokens maxDepth e)
    (hproper : e.Proper) (hitems : ∀ a ∈ es, ReadsBinary source tokens maxDepth a)
    (hitemsProper : ∀ a ∈ es, a.Proper) : ReadsOperand source tokens maxDepth (.call e es) := by
  intro levels rest ks' post hlevels hloops
  have hcallee := length_lexemes hproper
  simp only [lexemes, List.length_cons, List.length_append] at hlevels
  have hks : (Term.call e es).kinds ++ rest =
      e.kinds ++ .punctuation .leftParen :: (argumentKinds es ++ .punctuation .rightParen :: rest) := by
    simp
  rw [hks]
  refine h levels _ ks' post (by omega) fun n hn _ => ?_
  have hcall : Yields (.withLevels tokens maxDepth levels) (Parsing.call n)
      (.punctuation .leftParen :: (argumentKinds es ++ .punctuation .rightParen :: rest)) rest
      fun m => m.term? source = some (.call e es) ∧ m.kind? = some .callExpression := by
    refine (arguments_yields hitems hitemsProper (by omega)).bind fun list hlist => ?_
    obtain ⟨opening, closing, items, rfl, hopening, hclosing, hread⟩ := hlist
    refine Yields.node.mono fun m hm => ?_
    subst hm
    exact ⟨Node.term?_call (by rwa [Node.term?_withField]) hopening hclosing hread, rfl⟩
  have hround : Yields (.withLevels tokens maxDepth levels) (extend n)
      (.punctuation .leftParen :: (argumentKinds es ++ .punctuation .rightParen :: rest)) rest
      fun r => ∃ m, r = .more m ∧
        Loops (.withLevels tokens maxDepth levels) extend rest ks' m post := by
    refine Yields.peekKind.bind fun k hk => ?_
    subst hk
    exact hcall.bind fun m hm => .pure ⟨m, rfl, hloops m hm.1 hm.2⟩
  refine .more hround ?_
  simp only [List.length_append, List.length_cons]
  omega

end Operands

/-! ### Operators -/

/-- An operator in front of its operand. -/
theorem ReadsUnary.unary {o : Operator} (h : ReadsUnary source tokens maxDepth e)
    (hproper : e.Proper) (hprefixed : o.isUnary) :
    ReadsUnary source tokens maxDepth (.unary o e) := by
  intro levels k rest hlevels hstops
  have hpositive := length_lexemes hproper
  rw [lexemes, List.length_cons] at hlevels
  obtain ⟨levels, rfl⟩ : ∃ n, levels = n + 1 := ⟨levels - 1, by omega⟩
  have hdeeper : Yields (.withLevels tokens maxDepth (levels + 1)) (Parsing.descend .unary)
      (e.kinds ++ k :: rest) (k :: rest) fun n => n.term? source = some e :=
    h levels k rest (by omega) hstops
  have hoperation : Yields (.withLevels tokens maxDepth (levels + 1)) unaryOperation
      (o.tokenKind :: (e.kinds ++ k :: rest)) (k :: rest)
      fun n => n.term? source = some (.unary o e) := by
    refine (Yields.bump o.tokenKind_ne_endOfFile).bind fun sign hsign => ?_
    obtain ⟨i, _, rfl⟩ := hsign
    refine hdeeper.bind fun n hn => Yields.node.mono fun m hm => ?_
    subst hm
    exact Node.term?_unary o.operator?_symbolOf (by rwa [Node.term?_withField])
  rw [kinds_unary, List.cons_append]
  refine Yields.peekKind.bind fun kind hkind => ?_
  subst hkind
  rcases o.mem_of_isUnary hprefixed with rfl | rfl | rfl | rfl | rfl | rfl <;> exact hoperation

/-- An operator between its operands, the first of which has been read with what binds tighter. -/
theorem ReadsBinary.operator {o : Operator} {right : Term} {own : Nat × Associativity}
    (h : ReadsBinary source tokens maxDepth e) (h' : ReadsBinary source tokens maxDepth right)
    (hproper : e.Proper) (hproper' : right.Proper) (hbetween : o.binding? = some own)
    (hleft : ∀ other ∈ e.binding?, LeftFits own other)
    (hright : ∀ other ∈ right.binding?, RightFits own other) :
    ReadsBinary source tokens maxDepth (.binary o e right) := by
  intro levels least k rest ks' post hlevels htight hstops hloops
  have hpositive := length_lexemes hproper
  rw [lexemes, List.length_append, List.length_cons] at hlevels
  have hleast : least ≤ own.1 := htight own hbetween
  rw [tightness, binding?, hbetween] at hstops
  have hsplit : (binary o e right).kinds ++ k :: rest =
      e.kinds ++ o.tokenKind :: (right.kinds ++ k :: rest) := by simp
  rw [hsplit]
  have hends : own.1 < e.tightness := by
    rw [tightness]
    cases hinner : e.binding? with
    | none => exact o.precedence_lt hbetween
    | some inner =>
      obtain ⟨o', ho'⟩ : ∃ o' : Operator, o'.binding? = some inner := by
        cases e <;> first | exact ⟨_, hinner⟩ | cases hinner
      exact LeftFits.lt (hleft inner hinner) hbetween ho'
  refine h levels least o.tokenKind _ ks' post (by omega)
    (fun inner hinner => hleast.trans (LeftFits.le (hleft inner hinner))) (.of_operator hbetween hends)
    fun n hn => ?_
  have hround : Yields (.withLevels tokens maxDepth levels) (operateOn least n)
      (o.tokenKind :: (right.kinds ++ k :: rest)) (k :: rest) fun r => ∃ m, r = .more m ∧
        Loops (.withLevels tokens maxDepth levels) (operateOn least) (k :: rest) ks' m post := by
    rw [operateOn, Node.isAssignment_of_term? hn]
    refine Yields.peekKind.bind fun kind hkind => ?_
    subst hkind
    rw [o.binaryOperator?_tokenKind hbetween, Option.bind_some, hbetween]
    dsimp only
    rw [if_neg (by omega)]
    refine (Yields.bump o.tokenKind_ne_endOfFile).bind fun sign hsign => ?_
    obtain ⟨i, _, rfl⟩ := hsign
    refine (h'.descend hproper' (by omega) (fun inner hinner => RightFits.leastAfter_le (hright inner hinner))
      (o.leastAfter_le hbetween) hstops).bind fun m hm => ?_
    refine Yields.node.bind fun whole hwhole => .pure ⟨whole, rfl, hloops whole ?_⟩
    subst hwhole
    exact Node.term?_binary (by rwa [Node.term?_withField]) o.operator?_symbolOf
      (by rwa [Node.term?_withField])
  refine .more hround ?_
  simp only [List.length_append, List.length_cons]
  omega

/-! ### All terms -/

/-- The tokens of a term that needs no more brackets are read as that term. -/
theorem Proper.reads (h : e.Proper) (hspells : AllSpelled source tokens)
    (hcolon : ∀ i, (kindAt tokens i).isPunctuation .colon = false) :
    Reads source tokens maxDepth e := by
  induction h with
  | @identifier name spelled =>
    exact .of_operand (readsOperand_identifier hspells name) (.identifier spelled) rfl
  | @number digits spelled =>
    exact .of_operand (readsOperand_number hspells digits) (.number spelled) rfl
  | parenthesized below ih =>
    exact .of_operand (ih.asBinary.parenthesized below hcolon) (.parenthesized below) rfl
  | @member object name accessible below spelled ih =>
    have hoperand : object.isOperand := by
      cases object <;> first | rfl | cases accessible
    exact .of_operand ((ih.asOperand hoperand).member hspells accessible)
      (.member accessible below spelled) rfl
  | call callable below items ih ihitems =>
    exact .of_operand
      ((ih.asOperand callable).call below (fun a ha => (ihitems a ha).asBinary) items)
      (.call callable below items) rfl
  | unary prefixed bare below ih =>
    have hunary := (ih.asUnary bare).unary below prefixed
    exact ⟨nofun, fun _ => hunary, hunary.binary nofun⟩
  | binary between fitsLeft fitsRight below behind ih ih' =>
    exact ⟨nofun, fun hbare => absurd rfl hbare,
      ih.asBinary.operator ih'.asBinary below behind between fitsLeft fitsRight⟩

end Steps

end Term

end ScriptTree
