import Mathlib
import ScriptTree.Proofs.Calls.Routines
import ScriptTree.Proofs.Parsing.Composed

/-! What functions are put together from.

A function can do few things itself: what calls nothing back, call another function, call one that is one
level deeper, and go on after something that failed. `Woven risky m` says that the part `m` is put together
from these, as all functions are (`body_woven`), and that it calls the function of statements that may
fail only if `risky` holds; one function alone does. An induction over `Woven` has one case for each,
whatever the grammar. The first of them is about the depth counter: whatever a function does, behind it
the counter is what it was in front (`exec_restores`), for it is only raised to call one function, and
set back whether that succeeds or fails. -/
namespace ScriptTree.Calls

open Parsing

/-- Whether a function is that of statements that may fail. -/
@[reducible] def Routine.recovers : {α : Type} → Routine α → Bool
  | _, .statementOrError => true
  | _, _ => false

/-- Whether a function is that of sequences of statements. -/
@[reducible] def Routine.repeatsStatements : {α : Type} → Routine α → Bool
  | _, .statements _ _ => true
  | _, _ => false

/-- Whether a test comes out false. -/
class Off (b : Bool) : Prop where
  off : b = false

instance : Off false := ⟨rfl⟩

/-- Whether a part of a function is put together from the parts of functions, and whether it may call
that of statements that may fail. -/
class inductive Woven (risky : Bool) : {α : Type} → Step α → Prop
  | pure {α : Type} (a : α) : Woven risky (Pure.pure a)
  | bind {α β : Type} {m : Step α} {f : α → Step β} (first : Woven risky m)
      (rest : ∀ a, Woven risky (f a)) : Woven risky (m >>= f)
  | lift {α : Type} (p : Parse α) (composed : Composed p) : Woven risky (liftM p : Step α)
  | recover (start mark : Nat) (problem : Problem) :
    Woven risky (liftM (recover start mark problem) : Step (Option Node))
  | call {α : Type} (r : Routine α) (risk : r.recovers = true → risky = true) :
    Woven risky (Step.call r)
  | nested (goal : Goal) : Woven risky (Step.nested goal)
  | recovering {α : Type} {m : Step α} {handle : Problem → Step α} (first : Woven risky m)
      (rest : ∀ e, Woven risky (handle e)) : Woven risky (Step.recovering m handle)

namespace Woven
variable {risky : Bool} {α β : Type}

attribute [instance] pure recover nested

instance (m : Step α) (f : α → Step β) [hm : Woven risky m] [hf : ∀ a, Woven risky (f a)] :
    Woven risky (m >>= f) := bind hm hf

theorem next {m : Step α} {f : α → Step β} [Woven risky m] (h : ∀ a, Woven risky (f a)) :
    Woven risky (m >>= f) :=
  bind inferInstance h

instance ite (c : Prop) [Decidable c] (m m' : Step α) [Woven risky m] [Woven risky m'] :
    Woven risky (if c then m else m') := by
  split <;> infer_instance

instance map (f : α → β) (m : Step α) [h : Woven risky m] : Woven risky (f <$> m) :=
  bind h fun a => pure (f a)

instance (p : Parse α) [hp : Composed p] : Woven risky (liftM p : Step α) := lift p hp

instance (r : Routine α) [h : Off r.recovers] : Woven risky (Step.call r) :=
  call r fun hrecovers => absurd (h.off.symm.trans hrecovers) Bool.false_ne_true

instance (r : Routine α) : Woven true (Step.call r) := call r fun _ => rfl

instance statement : Woven risky Step.statement := nested _

instance expression : Woven risky Step.expression := nested _

instance type : Woven risky Step.type := nested _

instance (m : Step α) (handle : Problem → Step α) [hm : Woven risky m]
    [hh : ∀ e, Woven risky (handle e)] : Woven risky (Step.recovering m handle) := recovering hm hh

instance optionally (there : Bool) (m : Step (Array Node)) [Woven risky m] :
    Woven risky (Step.optionally there m) := by
  unfold Step.optionally
  infer_instance

theorem rounds {round : α → Step (Round α)} (h : ∀ a, Woven risky (round a)) (n : Nat) (a : α) :
    Woven risky (Step.rounds round n a) := by
  induction n generalizing a with
  | zero => exact pure a
  | succ n ih =>
    unfold Step.rounds
    refine bind (h a) fun outcome => ?_
    cases outcome with
    | more a => exact ih a
    | done a => exact pure a

/-- The bound on rounds is read off the state. -/
theorem repeatFrom_eq (start : α) (round : α → Step (Round α)) :
    Step.repeatFrom start round = (do
      let bound ← (do return (← read).tokens.size - (← get).position + 1 : Parse Nat)
      Step.rounds round bound start) :=
  rfl

instance repeatFrom (start : α) (round : α → Step (Round α)) [h : ∀ a, Woven risky (round a)] :
    Woven risky (Step.repeatFrom start round) := by
  rw [repeatFrom_eq]
  exact bind inferInstance fun n => rounds h n start

set_option synthInstance.maxSize 256 in
instance listOf (kind : NodeKind) (opening closing : Punctuation) (item : Step Node)
    [Woven risky item] : Woven risky (Step.listOf kind opening closing item) := by
  unfold Step.listOf
  dsimp only
  infer_instance

end Woven

/-! ### All functions -/

/-- One more statement, unless the end or the closing brace of the block is ahead. -/
def Step.statementsRound (inBlock : Bool) (children : Array Node) : Step (Round (Array Node)) := do
  if ← atEnd then return .done children
  if inBlock && (← sees .rightBrace) then return .done children
  match ← call .statementOrError with
  | some n => return .more (children.push n)
  | none => return .more children

theorem Step.statements_eq (inBlock : Bool) (children : Array Node) :
    Step.statements inBlock children = repeatFrom children (statementsRound inBlock) := rfl

instance (inBlock : Bool) (children : Array Node) :
    Woven true (Step.statementsRound inBlock children) := by
  unfold Step.statementsRound
  refine .next fun ended => ?_
  split
  · infer_instance
  refine .next fun closing => ?_
  split
  · infer_instance
  refine .next fun n => ?_
  cases n <;> infer_instance

set_option synthInstance.maxSize 256 in
/-- What functions do is put together from parts, and only that of statements calls the one that
recovers. -/
theorem body_woven {α : Type} (r : Routine α) : Woven r.repeatsStatements r.body := by
  cases r with
  | typeAscription =>
    show Woven false Step.typeAscription
    unfold Step.typeAscription
    infer_instance
  | tupleType =>
    show Woven false Step.tupleType
    unfold Step.tupleType
    infer_instance
  | typeAtom =>
    show Woven false Step.typeAtom
    unfold Step.typeAtom
    refine .next fun kind => ?_
    split
    · cases primitiveType? _ <;> infer_instance
    · infer_instance
    · infer_instance
    · cases literalKind? _ <;> infer_instance
  | postfixType =>
    show Woven false Step.postfixType
    unfold Step.postfixType
    infer_instance
  | firstOperand =>
    show Woven false Step.firstOperand
    unfold Step.firstOperand
    infer_instance
  | unionType =>
    show Woven false Step.unionType
    unfold Step.unionType
    infer_instance
  | templateSubstitution =>
    show Woven false Step.templateSubstitution
    unfold Step.templateSubstitution
    infer_instance
  | templateString =>
    show Woven false Step.templateString
    unfold Step.templateString
    refine .next fun opening => ?_
    refine .bind (@Woven.repeatFrom _ _ _ _ fun children => ?_) inferInstance
    refine .next fun kind => ?_
    split <;> infer_instance
  | arrayLiteral =>
    show Woven false Step.arrayLiteral
    unfold Step.arrayLiteral
    infer_instance
  | objectMember children =>
    show Woven false (Step.objectMember children)
    unfold Step.objectMember
    infer_instance
  | objectLiteral =>
    show Woven false Step.objectLiteral
    unfold Step.objectLiteral
    infer_instance
  | statementOrError =>
    show Woven false Step.statementOrError
    unfold Step.statementOrError
    infer_instance
  | statements inBlock children =>
    show Woven true (Step.statements inBlock children)
    rw [Step.statements_eq]
    infer_instance
  | block =>
    show Woven false Step.block
    unfold Step.block
    infer_instance
  | parameter =>
    show Woven false Step.parameter
    unfold Step.parameter
    infer_instance
  | parameters =>
    show Woven false Step.parameters
    unfold Step.parameters
    infer_instance
  | returnType =>
    show Woven false Step.returnType
    unfold Step.returnType
    infer_instance
  | blockOrExpression =>
    show Woven false Step.blockOrExpression
    unfold Step.blockOrExpression
    infer_instance
  | functionDeclaration =>
    show Woven false Step.functionDeclaration
    unfold Step.functionDeclaration
    infer_instance
  | anonymousFunction =>
    show Woven false Step.anonymousFunction
    unfold Step.anonymousFunction
    infer_instance
  | arrowFunction =>
    show Woven false Step.arrowFunction
    unfold Step.arrowFunction
    infer_instance
  | parenthesized =>
    show Woven false Step.parenthesized
    unfold Step.parenthesized
    infer_instance
  | matchCase =>
    show Woven false Step.matchCase
    unfold Step.matchCase
    infer_instance
  | matchElse =>
    show Woven false Step.matchElse
    unfold Step.matchElse
    infer_instance
  | matchExpression =>
    show Woven false Step.matchExpression
    unfold Step.matchExpression
    infer_instance
  | primaryContent =>
    show Woven false Step.primaryContent
    unfold Step.primaryContent
    refine .next fun kind => ?_
    split <;> first | infer_instance | (cases literalKind? _ <;> infer_instance)
  | primary =>
    show Woven false Step.primary
    unfold Step.primary
    infer_instance
  | argument =>
    show Woven false Step.argument
    unfold Step.argument
    infer_instance
  | arguments =>
    show Woven false Step.arguments
    unfold Step.arguments
    infer_instance
  | call operand =>
    show Woven false (Step.callOf operand)
    unfold Step.callOf
    infer_instance
  | optionalCall operand =>
    show Woven false (Step.optionalCall operand)
    unfold Step.optionalCall
    infer_instance
  | extend operand =>
    show Woven false (Step.extend operand)
    unfold Step.extend
    refine .next fun kind => ?_
    split <;> infer_instance
  | operand =>
    show Woven false Step.operand
    unfold Step.operand
    infer_instance
  | assignmentRest target =>
    show Woven false (Step.assignmentRest target)
    unfold Step.assignmentRest
    infer_instance
  | augmentedRest target =>
    show Woven false (Step.augmentedRest target)
    unfold Step.augmentedRest
    infer_instance
  | assignmentOr operand =>
    show Woven false (Step.assignmentOr operand)
    unfold Step.assignmentOr
    refine .next fun kind => ?_
    split <;> infer_instance
  | target =>
    show Woven false Step.target
    unfold Step.target
    refine .next fun kind => ?_
    split <;> infer_instance
  | restPattern =>
    show Woven false Step.restPattern
    unfold Step.restPattern
    infer_instance
  | patternContent =>
    show Woven false Step.patternContent
    unfold Step.patternContent
    infer_instance
  | pattern =>
    show Woven false Step.pattern
    unfold Step.pattern
    infer_instance
  | patternWithDefault =>
    show Woven false Step.patternWithDefault
    unfold Step.patternWithDefault
    infer_instance
  | pairRest key =>
    show Woven false (Step.pairRest key)
    unfold Step.pairRest
    infer_instance
  | objectPatternMember =>
    show Woven false Step.objectPatternMember
    unfold Step.objectPatternMember
    refine .next fun kind => ?_
    split <;> infer_instance
  | objectPattern =>
    show Woven false Step.objectPattern
    unfold Step.objectPattern
    infer_instance
  | arrayPattern =>
    show Woven false Step.arrayPattern
    unfold Step.arrayPattern
    infer_instance
  | destructuringPattern =>
    show Woven false Step.destructuringPattern
    unfold Step.destructuringPattern
    infer_instance
  | destructuringAssignment =>
    show Woven false Step.destructuringAssignment
    unfold Step.destructuringAssignment
    infer_instance
  | unaryOperation =>
    show Woven false Step.unaryOperation
    unfold Step.unaryOperation
    infer_instance
  | privateMembership =>
    show Woven false Step.privateMembership
    unfold Step.privateMembership
    infer_instance
  | ifTernary =>
    show Woven false Step.ifTernary
    unfold Step.ifTernary
    infer_instance
  | unary =>
    show Woven false Step.unary
    unfold Step.unary
    refine .next fun kind => ?_
    split <;> infer_instance
  | operateOn least left =>
    show Woven false (Step.operateOn least left)
    unfold Step.operateOn
    split
    · infer_instance
    refine .next fun kind => ?_
    cases (binaryOperator? kind).bind Operator.binding? <;> infer_instance
  | binary least =>
    show Woven false (Step.binary least)
    unfold Step.binary
    infer_instance
  | initializer =>
    show Woven false Step.initializer
    unfold Step.initializer
    infer_instance
  | variableDeclaration =>
    show Woven false Step.variableDeclaration
    unfold Step.variableDeclaration
    infer_instance
  | alternative =>
    show Woven false Step.alternative
    unfold Step.alternative
    infer_instance
  | elseBranch =>
    show Woven false Step.elseBranch
    unfold Step.elseBranch
    infer_instance
  | ifStatement =>
    show Woven false Step.ifStatement
    unfold Step.ifStatement
    infer_instance
  | returnStatement =>
    show Woven false Step.returnStatement
    unfold Step.returnStatement
    infer_instance
  | expressionStatement =>
    show Woven false Step.expressionStatement
    unfold Step.expressionStatement
    refine .next fun start => .next fun value => ?_
    split <;> infer_instance
  | anyStatement =>
    show Woven false Step.anyStatement
    unfold Step.anyStatement
    refine .next fun kind => ?_
    split <;> infer_instance

/-! ### The depth counter -/

/-- Whether the counter is at a depth, unless the stack overflowed. -/
def Outcome.At {α : Type} (depth : Nat) : Outcome α → Prop
  | .ok _ _ depth' | .error _ _ depth' => depth' = depth
  | .overflow => True

/-- Whether calls set the counter back. -/
def Frame.Restores (frame : Frame) : Prop :=
  ∀ {α : Type} (r : Routine α) depth s, (frame.call r depth s).At depth

section Counter
variable {α : Type}

theorem at_lift (p : Parse α) (frame : Frame) (depth : Nat) (s : State) :
    (Step.lift p frame depth s).At depth := by
  unfold Step.lift
  split <;> rfl

/-- A part of a function sets the counter back if the functions that it calls do. -/
theorem Woven.restores {risky : Bool} {m : Step α} (h : Woven risky m) {frame : Frame}
    (hframe : frame.Restores) (depth : Nat) (s : State) : (m frame depth s).At depth := by
  induction h generalizing depth s with
  | pure a => rfl
  | @bind α β m f _ _ hm hf =>
    have hfirst := hm depth s
    simp only [Bind.bind]
    cases hrun : m frame depth s with
    | ok a s' depth' =>
      rw [hrun] at hfirst
      obtain rfl : depth' = depth := hfirst
      exact hf a depth' s'
    | error e s' depth' =>
      rw [hrun] at hfirst
      exact hfirst
    | overflow => trivial
  | lift p => exact at_lift p frame depth s
  | recover start mark problem => exact at_lift _ frame depth s
  | call r => exact hframe r depth s
  | nested goal =>
    have hcall := hframe (.ofGoal goal) (depth + 1) s
    unfold Step.nested
    split
    · rfl
    · cases hrun : frame.call (.ofGoal goal) (depth + 1) s with
      | ok n s' depth' =>
        rw [hrun] at hcall
        obtain rfl : depth' = depth + 1 := hcall
        exact Nat.add_sub_cancel ..
      | error e s' depth' =>
        rw [hrun] at hcall
        obtain rfl : depth' = depth + 1 := hcall
        exact Nat.add_sub_cancel ..
      | overflow => trivial
  | @recovering α m handle _ _ hm hh =>
    have hfirst := hm depth s
    unfold Step.recovering
    cases hrun : m frame depth s with
    | ok a s' depth' =>
      rw [hrun] at hfirst
      exact hfirst
    | error e s' depth' =>
      rw [hrun] at hfirst
      obtain rfl : depth' = depth := hfirst
      exact hh e depth' s'
    | overflow => trivial

end Counter

/-- Behind a call the depth counter is what it was in front of it. -/
theorem exec_restores (tokens : Array Token) (maxDepth stack : Nat) {α : Type} (r : Routine α)
    (depth : Nat) (s : State) : (exec tokens maxDepth stack r depth s).At depth := by
  induction stack generalizing α depth s with
  | zero => trivial
  | succ stack ih => exact (body_woven r).restores (fun r depth s => ih r depth s) depth s

end ScriptTree.Calls
