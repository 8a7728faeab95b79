import Mathlib
import ScriptTree.Proofs.Building.Standing
import ScriptTree.Proofs.Calls.Agreement
import ScriptTree.Proofs.Parsing.Progress

/-! What steps cost.

Nodes are paid for with bytes: each byte in front of the token ahead pays for 39 nodes.
`Costs facing m need gain` says that the step `m` makes no more nodes than the bytes that it reads pay for
and `need` more, and that it leaves `gain` over if it gives a value. What a step costs is put together from
what its parts cost, one instance for each way of putting steps together. Only what reads a token is paid
for anything, so the instances keep track of what is known of the token ahead (`Facing`). -/
namespace ScriptTree

/-- The nodes that a goal may make beyond those that it pays for: the word of a conditional statement is
read whatever is ahead. -/
def Goal.need : Goal → Nat
  | .ifStatement => 1
  | _ => 0

/-- The nodes that a goal pays for and does not make. Of a statement nothing is left if it fails. -/
def Goal.gain : Goal → Nat
  | .statement => 0
  | .pattern => 28
  | _ => 29

namespace Parsing

open Calls (Grounded)

/-! ### Paying with bytes -/

/-- The nodes that the bytes in front of the token ahead pay for. -/
def worth (tokens : Array Token) (s : State) : Nat := 39 * (spanAt tokens s.position).start

/-- Tokens that are as wide as what is made of them: each covers something, and a string its two marks
and its parts. -/
structure Metered (tokens : Array Token) : Prop where
  stream : IsStream tokens
  pieces : ∀ i quote parts, kindAt tokens i = .string quote parts →
    (spanAt tokens i).start + parts.length + 1 ≤ (spanAt tokens i).stop

/-- Whether what is read between two states pays for the nodes made there, if `before` more are paid for
in front, and `after` are left over behind. -/
structure Spends (tokens : Array Token) (before after : Nat) (s s' : State) : Prop where
  inside : s'.position < tokens.size
  paid : worth tokens s + s'.made.size + after ≤ before + worth tokens s' + s.made.size

/-- Whether a step has paid for its nodes; only if it gives a value, something is left over. -/
def Pays {α : Type} (tokens : Array Token) (before after : Nat) (s : State) :
    EStateM.Result Problem State α → Prop
  | .ok _ s' => Spends tokens before after s s'
  | .error _ s' => Spends tokens before 0 s s'

section Paying
variable {α : Type} {tokens : Array Token} {before between after k : Nat} {s s' s'' : State}
  {result : EStateM.Result Problem State α}

theorem Spends.refl (hs : s.position < tokens.size) : Spends tokens k k s s := ⟨hs, by omega⟩

theorem Spends.trans (h : Spends tokens before between s s')
    (h' : Spends tokens between after s' s'') : Spends tokens before after s s'' := by
  have hfirst := h.paid
  have hrest := h'.paid
  exact ⟨h'.inside, by omega⟩

theorem Spends.weaken (h : Spends tokens before between s s') (hle : after ≤ between) :
    Spends tokens before after s s' :=
  ⟨h.inside, (Nat.add_le_add_left hle _).trans h.paid⟩

theorem Pays.weaken (h : Pays tokens before between s result) (hle : after ≤ between) :
    Pays tokens before after s result := by
  cases result with
  | ok a s' => exact Spends.weaken h hle
  | error e s' => exact h

/-- What is paid for in front is still there behind. -/
theorem Pays.frame (h : Pays tokens before after s result) (k : Nat) :
    Pays tokens (k + before) (k + after) s result := by
  cases result with
  | ok a s' | error e s' =>
    have hpaid := Spends.paid h
    exact ⟨Spends.inside h, by omega⟩

theorem Spends.pays (h : Spends tokens before between s s')
    (h' : Pays tokens between after s' result) : Pays tokens before after s result := by
  cases result with
  | ok a s'' => exact h.trans h'
  | error e s'' => exact h.trans h'

/-- Tokens cover a byte each. -/
theorem IsStream.start_add_le (h : IsStream tokens) {i j : Nat} (hij : i ≤ j)
    (hj : j < tokens.size) : (spanAt tokens i).start + (j - i) ≤ (spanAt tokens j).start := by
  induction j, hij using Nat.le_induction with
  | base => omega
  | succ j hij ih =>
    have hbefore := ih (by omega)
    have hproper := h.proper j hj
    have hordered := h.ordered j hj
    omega

end Paying

/-! ### Sections -/

/-- Whether a step falls into sections each of which either goes one level deeper or does not go deeper. -/
class inductive Sectioned : {α : Type} → Parse α → Prop
  | grounded {α : Type} {m : Parse α} (composed : Composed m) (grounded : Grounded m) : Sectioned m
  | bind {α β : Type} {m : Parse α} {f : α → Parse β} (first : Sectioned m)
      (rest : ∀ a, Sectioned (f a)) : Sectioned (m >>= f)
  | descend (goal : Goal) : Sectioned (descend goal)
  | statementOrError : Sectioned statementOrError

theorem Sectioned.composed {α : Type} {m : Parse α} (h : Sectioned m) : Composed m := by
  induction h with
  | grounded composed => exact composed
  | bind _ _ hm hf => exact .bind hm hf
  | descend goal => infer_instance
  | statementOrError => infer_instance

instance {α : Type} (m : Parse α) [hc : Composed m] [hm : Grounded m] : Sectioned m :=
  .grounded hc hm

/-! ### Costs -/

/-- Whether between two states a step goes on in the tokens and keeps the nodes that were there. -/
structure Grows (tokens : Array Token) (s s' : State) : Prop where
  proceeds : Proceeds tokens s s'
  size_le : s.made.size ≤ s'.made.size

theorem Grows.refl {tokens : Array Token} {s : State} : Grows tokens s s :=
  ⟨fun h => ⟨Nat.le_refl _, h⟩, Nat.le_refl _⟩

theorem Grows.trans {tokens : Array Token} {s s' s'' : State} (h : Grows tokens s s')
    (h' : Grows tokens s' s'') : Grows tokens s s'' where
  proceeds hs := by
    obtain ⟨hle, hlt⟩ := h.proceeds hs
    obtain ⟨hle', hlt'⟩ := h'.proceeds hlt
    exact ⟨hle.trans hle', hlt'⟩
  size_le := h.size_le.trans h'.size_le

/-- What holds of a scope in which whatever is parsed deeper down pays for its nodes. -/
structure Frugal (scope : Scope) : Prop where
  metered : Metered scope.tokens
  grows : ∀ goal s, Leads (Grows scope.tokens) (fun _ => True) s (scope.deeper goal s)
  pays : ∀ goal s, s.position < scope.tokens.size →
    Pays scope.tokens goal.need goal.gain s (scope.deeper goal s)

/-- What is known of the token ahead. -/
inductive Facing where
  | anything
  /-- It is not the end. -/
  | token
  | kind (known : TokenKind)

def Facing.Holds : Facing → TokenKind → Prop
  | .anything, _ => True
  | .token, ahead => ahead ≠ .endOfFile
  | .kind known, ahead => ahead = known

/-- Kinds of tokens other than the end. -/
class Real (kind : TokenKind) : Prop where
  ne : kind ≠ .endOfFile

instance (word : Keyword) : Real (.keyword word) := ⟨by simp⟩

instance (o : Operator) : Real (.operator o) := ⟨by simp⟩

instance (mark : Punctuation) : Real (.punctuation mark) := ⟨by simp⟩

instance (name : String) : Real (.identifier name) := ⟨by simp⟩

instance (text : String) : Real (.number text) := ⟨by simp⟩

instance (quote : Punctuation) (parts : List StringPart) : Real (.string quote parts) := ⟨by simp⟩

instance (pattern : Span) (flags : Option Span) : Real (.regex pattern flags) := ⟨by simp⟩

instance : Real .templateChars := ⟨by simp⟩

instance : Real .templateEscape := ⟨by simp⟩

/-- Steps that pay for their nodes if they are faced with such a token and `before` are paid for. -/
class Costs {α : Type} (facing : Facing) (before : Nat) (m : Parse α) (after : outParam Nat) :
    Prop where
  sectioned : Sectioned m
  pays : ∀ scope, Frugal scope → ∀ s, s.position < scope.tokens.size →
    facing.Holds (kindAt scope.tokens s.position) → Pays scope.tokens before after s (m scope s)

/-- Rounds each of which pays for itself. -/
class Sustains {α : Type} (round : α → Parse (Round α)) : Prop where
  costs : ∀ a, Costs .anything 0 (round a) 0

/-- The lesser of two numbers, by computation. -/
class Least (a b : Nat) (least : outParam Nat) : Prop where
  left : least ≤ a
  right : least ≤ b

instance (a b : Nat) : Least a b (a - (a - b)) := ⟨Nat.sub_le _ _, by omega⟩

namespace Costs
variable {α β : Type} {facing : Facing} {m : Parse α} {before between after after' k : Nat}

theorem weaken (hm : Costs facing before m between) (hle : after ≤ between) :
    Costs facing before m after :=
  ⟨hm.sectioned, fun scope hscope s hs hfacing => (hm.pays scope hscope s hs hfacing).weaken hle⟩

theorem frame (hm : Costs facing before m after) (k : Nat) :
    Costs facing (k + before) m (k + after) :=
  ⟨hm.sectioned, fun scope hscope s hs hfacing => (hm.pays scope hscope s hs hfacing).frame k⟩

/-- What a step leaves over that pays for itself. -/
theorem leaves (hm : Costs facing 0 m between) (hle : after ≤ between) :
    Costs facing k m (k + after) :=
  (hm.weaken hle).frame k

/-- What a step leaves over that one node is paid for in front of. -/
theorem leaves_of_one (hm : Costs facing 1 m between) (hle : after ≤ between) :
    Costs facing (k + 1) m (k + after) :=
  (hm.weaken hle).frame k

/-- What is left over need not be used. -/
theorem keeps (hm : Costs facing 0 m between) : Costs facing k m k :=
  (hm.weaken (Nat.zero_le _)).frame k

theorem of_anything (hm : Costs .anything before m after) : Costs facing before m after :=
  ⟨hm.sectioned, fun scope hscope s hs _ => hm.pays scope hscope s hs trivial⟩

instance (priority := low) of_token (kind : TokenKind) (m : Parse α) [hkind : Real kind]
    [hm : Costs .token before m after] : Costs (.kind kind) before m after :=
  ⟨hm.sectioned, fun scope hscope s hs hfacing =>
    hm.pays scope hscope s hs fun hend => hkind.ne (Eq.trans (Eq.symm hfacing) hend)⟩

/-! ### Sequences -/

instance bind (m : Parse α) (f : α → Parse β) [hm : Costs facing before m between]
    [hf : ∀ a, Costs .anything between (f a) after] : Costs facing before (m >>= f) after where
  sectioned := .bind hm.sectioned fun a => (hf a).sectioned
  pays scope hscope s hs hfacing := by
    have hfirst := hm.pays scope hscope s hs hfacing
    cases hrun : m scope s with
    | ok a s' =>
      rw [hrun] at hfirst
      rw [run_bind_ok hrun]
      exact Spends.pays hfirst ((hf a).pays scope hscope s' hfirst.inside trivial)
    | error e s' =>
      rw [hrun] at hfirst
      rw [run_bind_error hrun]
      exact hfirst

/-- What only looks leaves what is known of the token ahead as it is. -/
instance (priority := high) look (m : Parse α) (f : α → Parse β) [hsame : Still m]
    [hm : Sectioned m] [hf : ∀ a, Costs facing before (f a) after] :
    Costs facing before (m >>= f) after where
  sectioned := .bind hm fun a => (hf a).sectioned
  pays scope hscope s hs hfacing := by
    have hfirst := hsame.same scope s
    cases hrun : m scope s with
    | ok a s' =>
      rw [hrun] at hfirst
      obtain rfl : s' = s := hfirst
      rw [run_bind_ok hrun]
      exact (hf a).pays scope hscope s' hs hfacing
    | error e s' =>
      rw [hrun] at hfirst
      obtain rfl : s' = s := hfirst
      rw [run_bind_error hrun]
      exact (Spends.refl hs).weaken (Nat.zero_le before)

/-- A step that does nothing else costs nothing. -/
instance (priority := low) still (m : Parse α) [hsame : Still m] [hm : Sectioned m] :
    Costs facing k m k where
  sectioned := hm
  pays scope _ s hs _ := by
    have hfirst := hsame.same scope s
    cases hrun : m scope s with
    | ok a s' =>
      rw [hrun] at hfirst
      obtain rfl : s' = s := hfirst
      exact Spends.refl hs
    | error e s' =>
      rw [hrun] at hfirst
      obtain rfl : s' = s := hfirst
      exact (Spends.refl hs).weaken (Nat.zero_le k)

instance ite (c : Prop) [Decidable c] (m m' : Parse α) [hm : Costs facing before m between]
    [hm' : Costs facing before m' after'] [hleast : Least between after' after] :
    Costs facing before (if c then m else m') after := by
  split
  · exact hm.weaken hleast.left
  · exact hm'.weaken hleast.right

instance (priority := high) chosen (m m' : Parse α) [hm : Costs facing before m after] :
    Costs facing before (if true = true then m else m') after := hm

instance (priority := high) otherwise (m m' : Parse α) [hm' : Costs facing before m' after] :
    Costs facing before (if false = true then m else m') after := hm'

instance (priority := high) neither (b : Bool) (m m' : Parse α)
    [hm' : Costs facing before m' after] :
    Costs facing before (if (false && b) = true then m else m') after := hm'

/-! ### Values and failures -/

instance pure (a : α) : Costs facing k (Pure.pure a) k where
  sectioned := inferInstance
  pays _ _ _ hs _ := Spends.refl hs

/-- Nothing comes behind a failure, so it leaves over whatever is asked for. -/
theorem fails {m : Parse α} [hm : Composed m] [hgrounded : Grounded m]
    (h : ∀ scope s, ∃ e, m scope s = .error e s) : Costs facing k m after where
  sectioned := inferInstance
  pays scope _ s hs _ := by
    obtain ⟨e, hrun⟩ := h scope s
    rw [hrun]
    exact (Spends.refl hs).weaken (Nat.zero_le k)

instance throw (cause : Cause) (span : Span) [Blamable cause] :
    Costs facing k (throw ⟨cause, span⟩ : Parse α) (k + 100) := fails fun _ _ => ⟨_, rfl⟩

instance unexpected (what : Expected) : Costs facing k (unexpected what : Parse α) (k + 100) :=
  fails fun _ _ => ⟨_, rfl⟩

instance (priority := high) denied (what : Expected) (f : Unit → Parse β)
    [hf : Costs .token k (f ()) after] : Costs facing k (demand false what >>= f) (k + 100) where
  sectioned := .bind inferInstance fun _ => hf.sectioned
  pays _ _ _ hs _ := (Spends.refl hs).weaken (Nat.zero_le k)

/-! ### Looking ahead -/

/-- What a token ahead decides; only a token can be seen. -/
theorem see {m : Parse Bool} {f : Bool → Parse β} [hsection : Sectioned m]
    (seen : TokenKind → Bool)
    (hm : ∀ scope s, m scope s = .ok (seen (kindAt scope.tokens s.position)) s)
    (hend : seen .endOfFile = false) (htrue : Costs .token before (f true) between)
    (hfalse : Costs facing before (f false) after') (hleast : Least between after' after) :
    Costs facing before (m >>= f) after where
  sectioned := .bind hsection fun b => by
    cases b
    · exact hfalse.sectioned
    · exact htrue.sectioned
  pays scope hscope s hs hfacing := by
    rw [run_bind_ok (hm scope s)]
    cases hseen : seen (kindAt scope.tokens s.position) with
    | false => exact (hfalse.pays scope hscope s hs hfacing).weaken hleast.right
    | true =>
      have hreal : kindAt scope.tokens s.position ≠ .endOfFile := by
        intro heof
        rw [heof, hend] at hseen
        cases hseen
      exact (htrue.pays scope hscope s hs hreal).weaken hleast.left

section Seeing
variable (f : Bool → Parse β) [htrue : Costs .token before (f true) between]
  [hfalse : Costs facing before (f false) after'] [hleast : Least between after' after]

instance (priority := high) sees (mark : Punctuation) :
    Costs facing before (sees mark >>= f) after :=
  see (·.isPunctuation mark) (fun _ _ => rfl) rfl htrue hfalse hleast

instance (priority := high) seesOperator (o : Operator) :
    Costs facing before (seesOperator o >>= f) after :=
  see (·.isOperator o) (fun _ _ => rfl) rfl htrue hfalse hleast

instance (priority := high) seesWord (word : Keyword) :
    Costs facing before (seesWord word >>= f) after :=
  see (·.isKeyword word) (fun _ _ => rfl) rfl htrue hfalse hleast

instance (priority := high) seesIdentifier :
    Costs facing before (seesIdentifier >>= f) after :=
  see (·.isIdentifier) (fun _ _ => rfl) rfl htrue hfalse hleast

end Seeing

/-- Where the end is not, a token is. -/
instance (priority := high) atEnd (f : Bool → Parse β) [htrue : Costs facing before (f true) between]
    [hfalse : Costs .token before (f false) after'] [hleast : Least between after' after] :
    Costs facing before (atEnd >>= f) after where
  sectioned := .bind inferInstance fun b => by
    cases b
    · exact hfalse.sectioned
    · exact htrue.sectioned
  pays scope hscope s hs hfacing := by
    show Pays _ _ _ _ (f (kindAt scope.tokens s.position == .endOfFile) scope s)
    cases hend : kindAt scope.tokens s.position == .endOfFile with
    | true => exact (htrue.pays scope hscope s hs hfacing).weaken hleast.left
    | false =>
      exact (hfalse.pays scope hscope s hs (beq_eq_false_iff_ne.mp hend)).weaken hleast.right

/-- What the kind ahead decides. -/
theorem peekKind {f : TokenKind → Parse β} (h : ∀ kind, Costs (.kind kind) before (f kind) after) :
    Costs facing before (peekKind >>= f) after :=
  ⟨.bind inferInstance fun kind => (h kind).sectioned, fun scope hscope s hs _ =>
    (h (kindAt scope.tokens s.position)).pays scope hscope s hs rfl⟩

/-! ### Reading and making -/

/-- What a token covers pays. -/
theorem pays_advance {scope : Scope} (hscope : Frugal scope) {s : State}
    (hs : s.position < scope.tokens.size) (hreal : kindAt scope.tokens s.position ≠ .endOfFile)
    {width : Nat} (hwidth : (spanAt scope.tokens s.position).start + width ≤
      (spanAt scope.tokens s.position).stop) :
    Pays scope.tokens k (k + 39 * width) s (Parsing.advance scope s) := by
  have hnext := hscope.metered.stream.succ_lt hs hreal
  have hordered := hscope.metered.stream.ordered _ hnext
  rw [run_advance hreal]
  refine ⟨hnext, ?_⟩
  show 39 * _ + s.made.size + _ ≤ k + 39 * (spanAt scope.tokens (s.position + 1)).start +
    s.made.size
  omega

instance advance : Costs .token k advance (k + 39) where
  sectioned := inferInstance
  pays scope hscope s hs hreal := by
    have hwidth : (spanAt scope.tokens s.position).start + 1 ≤
        (spanAt scope.tokens s.position).stop :=
      hscope.metered.stream.proper _ (hscope.metered.stream.succ_lt hs hreal)
    exact pays_advance hscope hs hreal hwidth

/-- A string pays for its node and its marks, and for its parts. -/
instance advanceString (quote : Punctuation) (parts : List StringPart) :
    Costs (.kind (.string quote parts)) k Parsing.advance (k + 36 + 2 + parts.length + 1) where
  sectioned := inferInstance
  pays scope hscope s hs hkind := by
    have hreal : kindAt scope.tokens s.position ≠ .endOfFile := by
      rw [show kindAt scope.tokens s.position = _ from hkind]
      exact Real.ne
    have hwidth := hscope.metered.pieces _ quote parts hkind
    rw [Nat.add_assoc] at hwidth
    exact (pays_advance hscope hs hreal hwidth).weaken (by omega)

instance advanceAny : Costs .anything k Parsing.advance k where
  sectioned := inferInstance
  pays scope hscope s hs _ := by
    by_cases hreal : kindAt scope.tokens s.position ≠ .endOfFile
    · exact (advance.pays scope hscope s hs hreal).weaken (Nat.le_add_right _ _)
    · show Pays _ _ _ _ ((if ((tokenAt scope.tokens s.position).kind != .endOfFile) = true
        then _ else _ : Parse Token) scope s)
      split
      · exact absurd (bne_iff_ne.mp ‹_›) hreal
      · exact Spends.refl hs

instance make (n : Node) : Costs facing (k + 1) (make n) k where
  sectioned := inferInstance
  pays scope _ s hs _ := by
    refine ⟨hs, ?_⟩
    show _ + (keep s.made n).size + k ≤ k + 1 + worth scope.tokens s + _
    rw [size_keep]
    omega

instance leaf (symbol : Symbol) (span : Span) : Costs facing (k + 1) (leaf symbol span) k := make _

instance node (kind : NodeKind) (children : Array Node) :
    Costs facing (k + 1) (node kind children) k := make _

section Bumping
variable (symbol : Symbol) (kind : NodeKind) (mark : Punctuation) (o : Operator) (word : Keyword)
  (what : Expected)

instance bumpSymbol : Costs .token k (bumpSymbol symbol) (k + 38) := by
  unfold Parsing.bumpSymbol
  infer_instance

instance bumpSymbolAny : Costs .anything (k + 1) (Parsing.bumpSymbol symbol) k := by
  unfold Parsing.bumpSymbol
  infer_instance

instance bumpAs : Costs .token k (bumpAs kind) (k + 38) := Costs.bumpSymbol _

instance bump : Costs .token k bump (k + 38) := by
  unfold Parsing.bump
  infer_instance

instance bumpAny : Costs .anything (k + 1) Parsing.bump k := by
  unfold Parsing.bump
  infer_instance

instance expect : Costs facing k (expect mark) (k + 38) := by
  unfold Parsing.expect
  exact leaves inferInstance (by decide)

instance expectOperator : Costs facing k (expectOperator o) (k + 38) := by
  unfold Parsing.expectOperator
  exact leaves inferInstance (by decide)

instance expectWord : Costs facing k (expectWord word what) (k + 38) := by
  unfold Parsing.expectWord
  exact leaves inferInstance (by decide)

instance expectIdentifier : Costs facing k (expectIdentifier kind what) (k + 38) := by
  unfold Parsing.expectIdentifier
  exact leaves inferInstance (by decide)

/-- A mark that is made up is not paid for. -/
instance expectOrMissing : Costs facing (k + 1) (expectOrMissing mark) k where
  sectioned := inferInstance
  pays scope hscope s hs hfacing := by
    show Pays _ _ _ _ ((if (kindAt scope.tokens s.position).isPunctuation mark then Parsing.bump
      else _ : Parse Node) scope s)
    split
    · exact (bumpAny.pays scope hscope s hs trivial)
    · refine ⟨hs, ?_⟩
      show _ + (keep s.made _).size + k ≤ k + 1 + worth scope.tokens s + _
      rw [size_keep]
      omega

end Bumping

/-! ### Options and repetition -/

section Repetition

instance (priority := high) optionallyTrue (part : Parse (Array Node))
    [hpart : Costs facing before part after] :
    Costs facing before (Parsing.optionally true part) after := hpart

instance (priority := high) optionallyFalse (part : Parse (Array Node)) :
    Costs facing k (Parsing.optionally false part) k := Costs.pure #[]

instance rounds (round : α → Parse (Round α)) [hround : ∀ a, Costs .anything 0 (round a) 0]
    (n : Nat) (a : α) : Costs .anything 0 (rounds round n a) 0 := by
  induction n generalizing a with
  | zero => exact .pure a
  | succ n ih =>
    have hnext (outcome : Round α) : Costs .anything 0 (match outcome with
        | .more a => Parsing.rounds round n a
        | .done a => Pure.pure a) 0 := by
      cases outcome with
      | more a => exact ih a
      | done a => infer_instance
    rw [Parsing.rounds]
    infer_instance

instance (round : α → Parse (Round α)) [hround : ∀ a, Costs .anything 0 (round a) after] :
    Sustains round :=
  ⟨fun a => (hround a).weaken (Nat.zero_le _)⟩

/-- A loop pays for itself if every round does. -/
instance repeatFrom (start : α) (round : α → Parse (Round α)) [hround : Sustains round] :
    Costs facing k (repeatFrom start round) k := by
  let bound : Parse Nat := do return (← read).tokens.size - (← get).position + 1
  have hgrounded : Grounded bound := ⟨fun _ _ _ _ => rfl⟩
  have hstill : Still bound := ⟨fun _ _ => rfl⟩
  have hround := hround.costs
  have hrounds (n : Nat) : Costs facing k (Parsing.rounds round n start) k :=
    (rounds round n start).of_anything.frame k
  exact (inferInstance : Costs facing k (bound >>= fun n => Parsing.rounds round n start) k)

set_option synthInstance.maxSize 256 in
instance listOf (kind : NodeKind) (opening closing : Punctuation) (item : Parse Node)
    [hitem : Costs .anything 0 item after] :
    Costs facing k (listOf kind opening closing item) (k + 75) := by
  have hitem' : Costs .anything 0 item 0 := hitem.weaken (Nat.zero_le _)
  unfold Parsing.listOf
  dsimp only
  exact leaves inferInstance (by decide)

instance mapM (f : α → Parse Node) (l : List α) [hf : ∀ k a, Costs .anything (k + 1) (f a) k] :
    Costs .anything (k + l.length) (l.mapM f) k := by
  induction l with
  | nil => exact .pure []
  | cons a l ih =>
    rw [List.mapM_cons, List.length_cons, ← Nat.add_assoc]
    infer_instance

end Repetition

/-! ### Going deeper -/

theorem descend (goal : Goal) : Costs facing goal.need (descend goal) goal.gain :=
  ⟨.descend goal, fun _ hscope s hs _ => hscope.pays goal s hs⟩

instance (least : Nat) : Costs facing k (Parsing.descend (.binary least)) (k + 29) :=
  (Costs.descend (.binary least)).frame k

instance : Costs facing k (Parsing.descend .unary) (k + 29) := (Costs.descend .unary).frame k

instance : Costs facing k (Parsing.descend .pattern) (k + 28) := (Costs.descend .pattern).frame k

instance : Costs facing k (Parsing.descend .objectPattern) (k + 29) :=
  (Costs.descend .objectPattern).frame k

instance : Costs facing k (Parsing.descend .arrayPattern) (k + 29) :=
  (Costs.descend .arrayPattern).frame k

instance : Costs facing (k + 1) (Parsing.descend .ifStatement) (k + 29) :=
  (Costs.descend .ifStatement).frame k

instance : Costs facing k expression (k + 29) := (Costs.descend (.binary 0)).frame k

instance : Costs facing k type (k + 29) := (Costs.descend .type).frame k

end Costs

end Parsing

end ScriptTree
