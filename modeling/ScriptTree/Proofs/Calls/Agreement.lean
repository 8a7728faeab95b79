import Mathlib
import ScriptTree.Proofs.Calls.Routines

/-! Functions that do what productions do.

`Agrees frame depth m p` says that a part of a function and a part of a production have the same
outcome at a depth, and that the depth counter is what it was. It goes by the way parts are put
together; what calls nothing back is the same on both sides, as it does not go deeper (`Grounded`). -/
namespace ScriptTree.Calls

open Parsing

/-! ### The same outcome -/

/-- The outcome of a production at a depth. -/
def Outcome.ofResult {α : Type} (depth : Nat) : EStateM.Result Problem State α → Outcome α
  | .ok a s => .ok a s depth
  | .error e s => .error e s depth

/-- What a production may use at a depth. -/
def Frame.scope (frame : Frame) (depth : Nat) : Scope :=
  ⟨frame.tokens, level frame.tokens frame.maxDepth (frame.maxDepth - depth)⟩

section Agrees
variable {α β : Type} {frame : Frame} {depth : Nat}

/-- Whether a part of a function does at a depth what a part of a production does. -/
class Agrees (frame : Frame) (depth : Nat) (m : Step α) (p : Parse α) : Prop where
  same : ∀ s, m frame depth s = .ofResult depth (p (frame.scope depth) s)

/-- Whether calls that go one level deeper do what a production does there. -/
class Nests (frame : Frame) (depth : Nat) : Prop where
  nested : ∀ goal, Agrees frame depth (Step.nested goal) (descend goal)

/-- Whether a part of a production does not go deeper. -/
class Grounded (p : Parse α) : Prop where
  same : ∀ tokens deeper deeper' s, p ⟨tokens, deeper⟩ s = p ⟨tokens, deeper'⟩ s

namespace Agrees

instance pure (a : α) : Agrees frame depth (Pure.pure a) (Pure.pure a) := ⟨fun _ => rfl⟩

instance bind (m : Step α) (p : Parse α) (f : α → Step β) (g : α → Parse β)
    [hm : Agrees frame depth m p] [hf : ∀ a, Agrees frame depth (f a) (g a)] :
    Agrees frame depth (m >>= f) (p >>= g) where
  same s := by
    have hfirst := hm.same s
    simp only [Bind.bind, ReaderT.bind, EStateM.bind]
    rw [hfirst]
    cases p (frame.scope depth) s with
    | ok a s => exact (hf a).same s
    | error e s => rfl

instance ite (c : Prop) [Decidable c] (m m' : Step α) (p p' : Parse α)
    [Agrees frame depth m p] [Agrees frame depth m' p'] :
    Agrees frame depth (if c then m else m') (if c then p else p') := by
  split <;> infer_instance

instance map (f : α → β) (m : Step α) (p : Parse α) [Agrees frame depth m p] :
    Agrees frame depth (f <$> m) (f <$> p) := by
  rw [map_eq_pure_bind f p]
  exact bind m p (fun a => Pure.pure (f a)) (fun a => Pure.pure (f a))

instance lift (p : Parse α) [hp : Grounded p] : Agrees frame depth (liftM p : Step α) p where
  same s := by
    have hscope : p ⟨frame.tokens, fun _ s => .error ⟨.tooDeep 0, .empty 0⟩ s⟩ s =
        p (frame.scope depth) s := hp.same ..
    show Step.lift p frame depth s = _
    rw [Step.lift, hscope]
    cases p (frame.scope depth) s <;> rfl

instance nested [h : Nests frame depth] (goal : Goal) :
    Agrees frame depth (Step.nested goal) (descend goal) :=
  h.nested goal

instance statement [Nests frame depth] : Agrees frame depth Step.statement Parsing.statement :=
  nested .statement

instance expression [Nests frame depth] : Agrees frame depth Step.expression Parsing.expression :=
  nested (.binary 0)

instance type [Nests frame depth] : Agrees frame depth Step.type Parsing.type :=
  nested .type

instance recovering (m : Step α) (p : Parse α) (handle : Problem → Step α)
    (handle' : Problem → Parse α) [hm : Agrees frame depth m p]
    [hh : ∀ e, Agrees frame depth (handle e) (handle' e)] :
    Agrees frame depth (Step.recovering m handle) (tryCatch p handle') where
  same s := by
    have hfirst := hm.same s
    simp only [Step.recovering, tryCatch, tryCatchThe, MonadExceptOf.tryCatch, EStateM.tryCatch]
    rw [hfirst]
    cases p (frame.scope depth) s with
    | ok a s => rfl
    | error e s => exact (hh e).same s

instance optionally (there : Bool) (m : Step (Array Node)) (p : Parse (Array Node))
    [Agrees frame depth m p] :
    Agrees frame depth (Step.optionally there m) (Parsing.optionally there p) := by
  unfold Step.optionally Parsing.optionally
  infer_instance

theorem rounds {round : α → Step (Round α)} {round' : α → Parse (Round α)}
    (h : ∀ a, Agrees frame depth (round a) (round' a)) (n : Nat) (a : α) :
    Agrees frame depth (Step.rounds round n a) (Parsing.rounds round' n a) := by
  induction n generalizing a with
  | zero => exact pure a
  | succ n ih =>
    unfold Step.rounds Parsing.rounds
    refine @bind _ _ _ _ _ _ _ _ (h a) fun outcome => ?_
    cases outcome with
    | more a => exact ih a
    | done a => exact pure a

instance repeatFrom (start : α) (round : α → Step (Round α)) (round' : α → Parse (Round α))
    [h : ∀ a, Agrees frame depth (round a) (round' a)] :
    Agrees frame depth (Step.repeatFrom start round) (Parsing.repeatFrom start round') :=
  ⟨fun s => (rounds h _ start).same s⟩

theorem of_eq {m : Step α} {p : Parse α} (q : Parse α) (h : p = q) [hq : Agrees frame depth m q] :
    Agrees frame depth m p :=
  h ▸ hq

/-- What a first part gives decides how it goes on. -/
theorem next {m : Step α} {p : Parse α} {f : α → Step β} {g : α → Parse β}
    [Agrees frame depth m p] (h : ∀ a, Agrees frame depth (f a) (g a)) :
    Agrees frame depth (m >>= f) (p >>= g) :=
  bind m p f g

end Agrees

end Agrees

/-! ### Parts that do not go deeper -/

namespace Grounded
variable {α β : Type}

instance pure (a : α) : Grounded (Pure.pure a : Parse α) := ⟨fun _ _ _ _ => rfl⟩

instance bind (p : Parse α) (g : α → Parse β) [hp : Grounded p] [hg : ∀ a, Grounded (g a)] :
    Grounded (p >>= g) where
  same tokens deeper deeper' s := by
    simp only [Bind.bind, ReaderT.bind, EStateM.bind]
    rw [hp.same tokens deeper deeper']
    cases p ⟨tokens, deeper'⟩ s with
    | ok a s => exact (hg a).same tokens deeper deeper' s
    | error e s => rfl

instance ite (c : Prop) [Decidable c] (p p' : Parse α) [Grounded p] [Grounded p'] :
    Grounded (if c then p else p') := by
  split <;> infer_instance

/-- Of what a production may use, the tokens may be asked for. -/
theorem reading (g : Array Token → Parse α) (h : ∀ tokens, Grounded (g tokens)) :
    Grounded ((read : Parse Scope) >>= fun scope => g scope.tokens) :=
  ⟨fun tokens deeper deeper' s => (h tokens).same tokens deeper deeper' s⟩

instance state : Grounded (get : Parse State) := ⟨fun _ _ _ _ => rfl⟩

instance change (f : State → State) : Grounded (modify f : Parse PUnit) := ⟨fun _ _ _ _ => rfl⟩

instance throw (problem : Problem) : Grounded (throw problem : Parse α) := ⟨fun _ _ _ _ => rfl⟩

instance tokenAhead (n : Nat) : Grounded (tokenAhead n) := ⟨fun _ _ _ _ => rfl⟩

instance peek : Grounded peek := ⟨fun _ _ _ _ => rfl⟩

instance kindAhead (n : Nat) : Grounded (kindAhead n) := ⟨fun _ _ _ _ => rfl⟩

instance peekKind : Grounded peekKind := ⟨fun _ _ _ _ => rfl⟩

instance atEnd : Grounded atEnd := ⟨fun _ _ _ _ => rfl⟩

instance sees (mark : Punctuation) : Grounded (sees mark) := ⟨fun _ _ _ _ => rfl⟩

instance seesOperator (o : Operator) : Grounded (seesOperator o) := ⟨fun _ _ _ _ => rfl⟩

instance seesWord (word : Keyword) : Grounded (seesWord word) := ⟨fun _ _ _ _ => rfl⟩

instance seesIdentifier : Grounded seesIdentifier := ⟨fun _ _ _ _ => rfl⟩

instance lastStop : Grounded lastStop := ⟨fun _ _ _ _ => rfl⟩

instance madeCount : Grounded madeCount := ⟨fun _ _ _ _ => rfl⟩

instance make (n : Node) : Grounded (make n) := ⟨fun _ _ _ _ => rfl⟩

instance leaf (symbol : Symbol) (span : Span) : Grounded (leaf symbol span) := make _

instance node (kind : NodeKind) (children : Array Node) : Grounded (node kind children) := make _

instance closesBefore (f : TokenKind → Bool) : Grounded (closesBefore f) where
  same tokens _ _ s := by
    show (match matchingClose? tokens s.position with
      | some i => (do return f (tokenAt tokens (i + 1)).kind : Parse Bool)
      | none => (do return false)) _ s = (match matchingClose? tokens s.position with
        | some i => (do return f (tokenAt tokens (i + 1)).kind : Parse Bool)
        | none => (do return false)) _ s
    cases matchingClose? tokens s.position <;> rfl

instance opensAssignment : Grounded opensAssignment := closesBefore _

instance advance : Grounded advance := by
  unfold Parsing.advance
  infer_instance

instance bumpSymbol (symbol : Symbol) : Grounded (bumpSymbol symbol) := by
  unfold Parsing.bumpSymbol
  infer_instance

instance bumpAs (kind : NodeKind) : Grounded (bumpAs kind) := bumpSymbol _

instance bump : Grounded bump := by
  unfold Parsing.bump
  infer_instance

instance unexpected (what : Expected) : Grounded (unexpected what : Parse α) :=
  ⟨fun _ _ _ _ => rfl⟩

instance demand (holds : Bool) (what : Expected) : Grounded (demand holds what) := by
  unfold Parsing.demand
  infer_instance

instance expect (mark : Punctuation) : Grounded (expect mark) := by
  unfold Parsing.expect
  infer_instance

instance expectOperator (o : Operator) : Grounded (expectOperator o) := by
  unfold Parsing.expectOperator
  infer_instance

instance expectWord (word : Keyword) (what : Expected) : Grounded (expectWord word what) := by
  unfold Parsing.expectWord
  infer_instance

instance expectIdentifier (kind : NodeKind) (what : Expected) :
    Grounded (expectIdentifier kind what) := by
  unfold Parsing.expectIdentifier
  infer_instance

instance expectOrMissing (mark : Punctuation) : Grounded (expectOrMissing mark) := by
  unfold Parsing.expectOrMissing
  infer_instance

instance mapM (f : α → Parse β) [hf : ∀ a, Grounded (f a)] (items : List α) :
    Grounded (items.mapM f) := by
  induction items with
  | nil => exact pure []
  | cons a items ih =>
    rw [List.mapM_cons]
    infer_instance

theorem rounds {round : α → Parse (Round α)} (h : ∀ a, Grounded (round a)) (n : Nat) (a : α) :
    Grounded (rounds round n a) := by
  induction n generalizing a with
  | zero => exact pure a
  | succ n ih =>
    unfold Parsing.rounds
    refine @bind _ _ _ _ (h a) fun outcome => ?_
    cases outcome with
    | more a => exact ih a
    | done a => exact pure a

instance repeatFrom (start : α) (round : α → Parse (Round α)) [h : ∀ a, Grounded (round a)] :
    Grounded (repeatFrom start round) :=
  ⟨fun _ _ _ s => (rounds h _ start).same _ _ _ s⟩

instance opensObject : Grounded opensObject := by
  unfold Parsing.opensObject
  infer_instance

instance requirePrimary (operand : Node) : Grounded (requirePrimary operand) := by
  unfold Parsing.requirePrimary
  infer_instance

instance assignmentTarget (operand : Node) (allowed : List NodeKind) :
    Grounded (assignmentTarget operand allowed) := by
  unfold Parsing.assignmentTarget
  split <;> infer_instance

instance privateName : Grounded privateName := by
  unfold Parsing.privateName
  infer_instance

instance comptimeIdentifier : Grounded comptimeIdentifier := by
  unfold Parsing.comptimeIdentifier
  infer_instance

instance access (operand : Node) : Grounded (access operand) := by
  unfold Parsing.access member accessMark propertyName
  infer_instance

instance closingLeaf (symbol : Symbol) (closed : Bool) (offset : Nat) :
    Grounded (closingLeaf symbol closed offset) := by
  unfold Parsing.closingLeaf
  infer_instance

instance partLeaf (part : StringPart) : Grounded (partLeaf part) := by
  unfold Parsing.partLeaf
  split <;> infer_instance

instance stringLiteral (quote : Punctuation) (parts : List StringPart) :
    Grounded (stringLiteral quote parts) := by
  unfold Parsing.stringLiteral
  dsimp only
  infer_instance

instance regexLiteral (pattern : Span) (flags : Option Span) :
    Grounded (regexLiteral pattern flags) := by
  unfold Parsing.regexLiteral
  cases flags <;> infer_instance

instance requireInteger (token : Token) : Grounded (requireInteger token) := by
  unfold Parsing.requireInteger
  split <;> infer_instance

instance signedInteger : Grounded signedInteger := by
  unfold Parsing.signedInteger
  infer_instance

instance integerCondition : Grounded integerCondition := by
  unfold Parsing.integerCondition
  infer_instance

instance pathCondition (children : Array Node) : Grounded (pathCondition children) := by
  unfold Parsing.pathCondition
  infer_instance

instance condition (children : Array Node) : Grounded (condition children) := by
  unfold Parsing.condition
  refine @bind _ _ _ _ _ fun kind => ?_
  split
  · infer_instance
  · infer_instance
  · infer_instance
  · infer_instance
  · infer_instance
  · split <;> infer_instance

instance conditions (children : Array Node) : Grounded (conditions children) := by
  unfold Parsing.conditions
  infer_instance

instance enumDeclaration : Grounded enumDeclaration := by
  unfold Parsing.enumDeclaration enumMember
  dsimp only
  infer_instance

instance breakStatement : Grounded breakStatement := by
  unfold Parsing.breakStatement
  infer_instance

instance errorNode? (start stop : Nat) : Grounded (errorNode? start stop) := by
  unfold Parsing.errorNode?
  dsimp only
  have hskip := reading (fun tokens => do
    let leaves ← (tokens.extract start stop).toList.mapM fun token =>
      Parsing.leaf (symbolOf token.kind) token.span
    return some (← Parsing.node .error leaves.toArray)) fun tokens => inferInstance
  split
  · infer_instance
  · exact hskip

instance recover (start mark : Nat) (problem : Problem) : Grounded (recover start mark problem) := by
  unfold Parsing.recover
  exact reading (fun tokens => do
    let failed := (← get).position
    let stop := resumeFrom tokens start failed (depthBetween tokens start failed)
    modify fun s =>
      { position := stop, problems := s.problems.push problem, made := s.made.shrink mark }
    Parsing.errorNode? start stop) fun tokens => inferInstance

end Grounded

section ListOf
variable {frame : Frame} {depth : Nat}

set_option synthInstance.maxSize 256 in
instance (kind : NodeKind) (opening closing : Punctuation) (item : Step Node)
    (item' : Parse Node) [Agrees frame depth item item'] :
    Agrees frame depth (Step.listOf kind opening closing item)
      (listOf kind opening closing item') := by
  unfold Step.listOf listOf
  dsimp only
  infer_instance

end ListOf

end ScriptTree.Calls
