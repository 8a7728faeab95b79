import Mathlib
import ScriptTree.Proofs.Mirror.Continuation
import ScriptTree.Proofs.Parsing.Endings

/-! The statement that a token list ends with.

A statement that reads the last token of a list, which is a semicolon, reads the same in any list that
goes on behind it (`statement_finishes`). All but its last step is taken in front of that token, where
the two lists look alike; the last step reads the token, and does not look any further. -/
namespace ScriptTree.Parsing

/-! ### Steps that need a token -/

/-- Whether a step that gives a value reports something about the end unless there is a token to
read. -/
class Demanding {α : Type} (m : Parse α) : Prop where
  real : ∀ scope, Deepens scope → IsStream scope.tokens → ∀ s a s', m scope s = .ok a s' →
    s'.position < scope.tokens.size → Calm scope.tokens s' → s.position + 1 < scope.tokens.size

theorem later_of_ok {α : Type} {scope : Scope} {m : Parse α} [Composed m] (hdeep : Deepens scope)
    {s s' : State} {a : α} (h : m scope s = .ok a s') : Later scope.tokens s s' := by
  have hleads := Composed.onward (m := m) hdeep s
  rw [h] at hleads
  exact hleads

namespace Demanding

instance first {α β : Type} (m : Parse α) (f : α → Parse β) [hm : Demanding m]
    [∀ a, Composed (f a)] : Demanding (m >>= f) where
  real scope hdeep hs s b s' hrun hinside hcalm := by
    obtain ⟨a, s₁, hfirst, hrest⟩ := run_bind_eq_ok hrun
    have hlater := later_of_ok hdeep hrest
    exact hm.real scope hdeep hs s a s₁ hfirst (hlater.le.trans_lt hinside) (hcalm.of_later hlater)

instance (priority := low) next {α β : Type} (m : Parse α) (f : α → Parse β) [Composed m]
    [hf : ∀ a, Demanding (f a)] : Demanding (m >>= f) where
  real scope hdeep hs s b s' hrun hinside hcalm := by
    obtain ⟨a, s₁, hfirst, hrest⟩ := run_bind_eq_ok hrun
    have hread := (hf a).real scope hdeep hs s₁ b s' hrest hinside hcalm
    have := (later_of_ok hdeep hfirst).le
    omega

instance expectOrMissing (mark : Punctuation) : Demanding (expectOrMissing mark) where
  real scope _ hs s n s' hrun hinside hcalm := by
    by_cases hkind : kindAt scope.tokens s.position = .punctuation mark
    · exact hs.succ_lt_of_real (hkind.trans_ne nofun)
    · rw [run_expectOrMissing scope hkind] at hrun
      cases hrun
      have hinside : s.position < scope.tokens.size := hinside
      have hcontained := hcalm.contained (World.missing scope.tokens s.position mark) (by simp [State.report])
      by_contra hend
      have hend : s.position = scope.tokens.size - 1 := by omega
      -- The report of a mark that is missing at the end is about no token.
      obtain ⟨i, hi, hspan⟩ := hcontained.span_eq hs (.inl (hend ▸ Nat.le_refl _))
      exact (hs.proper i (by omega)).ne (hspan ▸ rfl)

instance expectOperator (o : Operator) : Demanding (expectOperator o) where
  real scope _ hs s n s' hrun _ _ := by
    have hrun : (if (kindAt scope.tokens s.position).isOperator o = true then bump
      else unexpected (.operator o) : Parse Node) scope s = _ := hrun
    split at hrun
    · exact hs.succ_lt_of_real ((isOperator_iff.mp ‹_›).trans_ne nofun)
    · cases hrun

instance assignmentRest (target : Node) : Demanding (assignmentRest target) := by
  unfold Parsing.assignmentRest
  infer_instance

end Demanding

/-! ### Steps that read the last token -/

/-- Whether a state is at the end of the tokens, with nothing reported that does harm. -/
def Spent (tokens : Array Token) (s : State) : Prop :=
  s.position + 1 = tokens.size ∧ Calm tokens s

section Finishing
variable {left right : Array Token} {S : Stage (World.continued left right)} {s t : State}

/-- Whether a step that reads up to the last token of the left list does the same in the right one, if
it gives a node that counts. -/
def Finishes (S : Stage (World.continued left right)) (counts : Node → Prop) (m : Parse Node)
    (s t : State) : Prop :=
  (World.continued left right).aligned s t → ∀ n s', m S.left s = .ok n s' → Spent left s' →
    counts n → ∃ t', m S.right t = .ok n t' ∧ Same s' t'

variable {counts : Node → Prop}

theorem GoesOn.token_aligned (h : GoesOn left right) (haligned : (World.continued left right).aligned s t) :
    tokenAt right t.position = tokenAt left s.position := by
  obtain ⟨hi, ⟨hposition, _⟩, _⟩ := haligned
  rw [hposition, h.same _ hi]

theorem GoesOn.kind_aligned (h : GoesOn left right) (haligned : (World.continued left right).aligned s t) :
    kindAt right t.position = kindAt left s.position :=
  congrArg Token.kind (h.token_aligned haligned)

/-- The step behind one that has not read the last token. -/
theorem finishes_next {α : Type} {m : Parse α} {f : α → Parse Node} {R : α → State → α → Prop} {a : α}
    {n : Node} {s₁ s' : State} (haligned : (World.continued left right).aligned s t)
    (hm : Mirrors S (World.continued left right).Live m s m t R) (heq : ∀ a s' b, R a s' b → a = b)
    (hfirst : m S.left s = .ok a s₁) (hlive : (World.continued left right).live s₁)
    (hrest : ∀ t₁, (World.continued left right).aligned s₁ t₁ →
      ∃ t', f a S.right t₁ = .ok n t' ∧ Same s' t') :
    ∃ t', (m >>= f) S.right t = .ok n t' ∧ Same s' t' := by
  have hmirrors := hm haligned
  rw [hfirst] at hmirrors
  obtain ⟨b, t₁, hfirst', haligned', hr⟩ := hmirrors hlive
  obtain rfl := heq _ _ _ hr
  obtain ⟨t', hnext', hsame⟩ := hrest t₁ haligned'
  exact ⟨t', (run_bind_ok hfirst').trans hnext', hsame⟩

/-- Where a step that needs a token is still to come, the last one has not been read. -/
theorem live_of_demanding (hS : S.Coherent) {α : Type} {m : Parse α} [Composed m] [hm : Demanding m]
    {a : α} {s' : State} (hrun : m S.left s = .ok a s') (hspent : Spent left s') :
    (World.continued left right).live s :=
  ⟨hm.real S.left hS.deepens hS.world.streamLeft s a s' hrun hspent.1.le hspent.2,
    hspent.2.of_later (later_of_ok hS.deepens hrun)⟩

/-- A step in front of the last one. -/
theorem Finishes.bind (hS : S.Coherent) {α : Type} {m : Parse α} {f : α → Parse Node}
    {R : α → State → α → Prop} [∀ a, Composed (f a)] [∀ a, Demanding (f a)]
    (hm : Mirrors S (World.continued left right).Live m s m t R) (heq : ∀ a s' b, R a s' b → a = b)
    (hrest : ∀ a s₁ t₁, Finishes S counts (f a) s₁ t₁) : Finishes S counts (m >>= f) s t := by
  intro haligned n s' hrun hspent hcounts
  obtain ⟨a, s₁, hfirst, hnext⟩ := run_bind_eq_ok hrun
  exact finishes_next haligned hm heq hfirst (live_of_demanding hS hnext hspent)
    fun t₁ haligned' => hrest a s₁ t₁ haligned' n s' hnext hspent hcounts

/-- The last step reads the last token. -/
theorem finishes_close (h : GoesOn left right) {kind : NodeKind} {children : Node → Array Node}
    {n : Node} {s' : State} (haligned : (World.continued left right).aligned s t)
    (hrun : (do node kind (children (← expectOrMissing .semicolon))) S.left s = .ok n s')
    (hspent : Spent left s') :
    ∃ t', (do node kind (children (← expectOrMissing .semicolon))) S.right t = .ok n t' ∧ Same s' t' := by
  obtain ⟨stop, s₁, hstop, hnode⟩ := run_bind_eq_ok hrun
  cases hnode
  have htoken := h.token_aligned haligned
  obtain ⟨hi, ⟨hposition, hproblems⟩, _⟩ := haligned
  by_cases hkind : kindAt left s.position = .punctuation .semicolon
  · have hkind' : kindAt right t.position = .punctuation .semicolon := by
      rw [kindAt, htoken, ← kindAt, hkind]
    have hspan : spanAt right t.position = spanAt left s.position := congrArg Token.span htoken
    have hstop' : ∃ t₁, expectOrMissing .semicolon S.right t =
        .ok (.leaf (.punctuation .semicolon) (spanAt left s.position)) t₁ ∧
          Same { t with position := t.position + 1 } t₁ := by
      rw [← hspan]
      exact ⟨_, run_expectOrMissing_mark S.right hkind', rfl, rfl⟩
    rw [run_expectOrMissing_mark S.left hkind] at hstop
    cases hstop
    obtain ⟨t₁, hread, hposition₁, hproblems₁⟩ := hstop'
    refine ⟨_, run_bind_ok hread, ?_, ?_⟩
    · exact hposition₁.trans (congrArg (· + 1) hposition)
    · exact hproblems₁.trans hproblems
  · rw [run_expectOrMissing S.left hkind] at hstop
    cases hstop
    exact absurd hspent.1 hi.ne

theorem Finishes.close (h : GoesOn left right) {kind : NodeKind} {children : Node → Array Node} :
    Finishes S counts (do node kind (children (← expectOrMissing .semicolon))) s t :=
  fun haligned _ _ hrun hspent _ => finishes_close h haligned hrun hspent

/-- What is looked at is the same in both lists. -/
theorem Finishes.look {α : Type} {m : Parse α} {f : α → Parse Node} {a : α}
    (hleft : m S.left s = .ok a s)
    (hright : (World.continued left right).aligned s t → m S.right t = .ok a t)
    (hrest : Finishes S counts (f a) s t) : Finishes S counts (m >>= f) s t := by
  intro haligned
  rw [run_bind_ok hleft, run_bind_ok (hright haligned)]
  exact hrest haligned

theorem Finishes.of_aligned {m : Parse Node}
    (h : (World.continued left right).aligned s t → Finishes S counts m s t) :
    Finishes S counts m s t :=
  fun haligned => h haligned haligned

/-- A step that does not read the last token. -/
theorem Finishes.absurd {m : Parse Node}
    (h : ∀ n s', m S.left s = .ok n s' → Spent left s' → counts n → False) :
    Finishes S counts m s t :=
  fun _ n s' hrun hspent hcounts => (h n s' hrun hspent hcounts).elim

section Looking
variable (h : GoesOn left right) {α : Type} {f : α → Parse Node} {p : TokenKind → α}
include h

/-- The next token is looked at. -/
theorem Finishes.ahead {m : Parse α}
    (hm : ∀ scope s, m scope s = .ok (p (kindAt scope.tokens s.position)) s)
    (hrest : Finishes S counts (f (p (kindAt left s.position))) s t) :
    Finishes S counts (m >>= f) s t := by
  refine .look (hm S.left s) (fun haligned => ?_) hrest
  rw [hm S.right t]
  exact congrArg (fun kind => EStateM.Result.ok (p kind) t) (h.kind_aligned haligned)

/-- What stands behind a bracket is looked at. -/
theorem Finishes.closes {p : TokenKind → Bool} {f : Bool → Parse Node}
    (hopen : bracket? (kindAt left s.position) = some .opening)
    (hrest : Finishes S counts (f (World.closes left p s.position)) s t) :
    Finishes S counts (closesBefore p >>= f) s t := by
  refine .look (run_closesBefore p) (fun haligned => ?_) hrest
  have hsame : World.closes right p t.position = World.closes left p s.position := by
    rw [haligned.2.1.1, h.closes_same hopen p]
  exact (run_closesBefore p).trans (congrArg (EStateM.Result.ok · t) hsame)

end Looking

variable (h : GoesOn left right) (hS : S.Coherent)
include h hS

theorem assignmentRest_finishes (target : Node) : Finishes S counts (assignmentRest target) s t := by
  unfold assignmentRest
  refine .bind hS (expectOperator_mirrors hS) (fun _ _ _ => id) fun sign s₁ t₁ => ?_
  refine .bind hS (expression_mirrors hS) (fun _ _ _ => id) fun value s₂ t₂ => ?_
  exact .close h

theorem returnStatement_finishes (hreal : kindAt left s.position ≠ .endOfFile) :
    Finishes S counts returnStatement s t := by
  unfold returnStatement
  refine .bind hS (bump_mirrors hS hreal) (fun _ _ _ => id) fun word s₁ t₁ => ?_
  refine .bind hS (expression_mirrors hS) (fun _ _ _ => id) fun value s₂ t₂ => ?_
  exact .close h

theorem breakStatement_finishes (hreal : kindAt left s.position ≠ .endOfFile) :
    Finishes S counts breakStatement s t := by
  unfold breakStatement
  refine .bind hS (bump_mirrors hS hreal) (fun _ _ _ => id) fun word s₁ t₁ => ?_
  exact .close h

/-- A part that is there or not, as the next token tells. -/
theorem optionally_finishes {p : TokenKind → Bool} (hp : Telling p) {part : Parse (Array Node)}
    [Forward part] [Composed part] {f : Array Node → Parse Node} [∀ a, Composed (f a)]
    [∀ a, Demanding (f a)]
    (hpart : p (kindAt left s.position) = true →
      Mirrors S (World.continued left right).Live part s part t (World.continued left right).Lists)
    (hrest : ∀ a s₁ t₁, Finishes S counts (f a) s₁ t₁) :
    Finishes S counts (optionally (p (kindAt left s.position)) part >>= f) s t := by
  refine .of_aligned fun haligned => ?_
  have hoptional : Mirrors S (World.continued left right).Live
      (optionally (p (kindAt left s.position)) part) s
      (optionally (p (kindAt right t.position)) part) t (World.continued left right).Lists :=
    optionally_mirrors hS hp fun _ => hpart
  rw [h.kind_aligned haligned] at hoptional
  refine .bind hS hoptional (fun a _ b (hab : List.Forall₂ Eq a.toList b.toList) => ?_) hrest
  exact Array.toList_inj.mp (List.forall₂_eq_eq_eq ▸ hab)

theorem variableDeclaration_finishes (hreal : kindAt left s.position ≠ .endOfFile) :
    Finishes S counts variableDeclaration s t := by
  have hsign := telling_operator .assign
  unfold variableDeclaration
  refine .ahead (p := (·.isKeyword .constWord)) h (fun _ _ => rfl) ?_
  refine .bind hS (bumpAs_mirrors hS hreal) (fun _ _ _ => id) fun mark s₁ t₁ => ?_
  refine .bind hS (expectIdentifier_mirrors hS rfl) (fun _ _ _ => id) fun name s₂ t₂ => ?_
  refine .ahead (p := (·.isPunctuation .colon)) h (fun _ _ => rfl) ?_
  refine optionally_finishes h hS (telling_mark .colon (by decide)) (fun _ => ?_) fun type s₃ t₃ => ?_
  · exact (typeAscription_mirrors hS).bind hS fun n s₃ n' t₃ hn => .pure (.cons hn .nil)
  refine .ahead (p := (·.isOperator .assign)) h (fun _ _ => rfl) ?_
  refine optionally_finishes h hS hsign (fun hkind => ?_) fun value s₄ t₄ => .close h
  exact initializer_mirrors hS (hsign.real_of hkind)

theorem destructuringAssignment_finishes : Finishes S counts destructuringAssignment s t := by
  unfold destructuringAssignment
  exact .bind hS (destructuringPattern_mirrors hS) (fun _ _ _ => id)
    fun target s₁ t₁ => assignmentRest_finishes h hS target

/-- A statement that ends with a brace does not read the last token, and none stands in a plain list. -/
theorem braced_finishes {m : Parse Node} {kind : NodeKind} (hkind : kind ∈ bracedKinds)
    (hopens : bracket? (kindAt left s.position) ≠ none ∨
      startsStatement 0 (kindAt left s.position) = true)
    (hreads : Reads S.left (some s.position) m s (Gives left (Role.plain [kind]) s)) :
    Finishes S counts m s t := by
  refine .of_aligned fun haligned => .absurd fun n s' hrun hspent _ => ?_
  have hclean : s'.problems = #[] := by
    by_contra hreported
    have hplain := hspent.2.plain hreported
    have hinside : s.position < left.size := (hS.world.inside haligned).1
    rw [hplain.flat _ hinside, hplain.wordless _ hinside] at hopens
    simp at hopens
  have hgives := hreads (fun b hb => (Option.some.inj hb).ge) (hS.world.inside haligned).1
  rw [hrun] at hgives
  have hread := hgives.2.lt
  have hposition := hspent.1
  exact hgives.2.last_ne_semicolon hkind hclean (h.last _ (by omega))

end Finishing

/-! ### Expressions that read the last token -/

/-- Whether a step gives nodes of one kind only. -/
class Makes (kind : NodeKind) (m : Parse Node) : Prop where
  kind : ∀ scope s n s', m scope s = .ok n s' → n.kind? = some kind

namespace Makes

instance node (kind : NodeKind) (children : Array Node) : Makes kind (node kind children) where
  kind _ _ _ _ hrun := by
    cases hrun
    rfl

instance bind (kind : NodeKind) {α : Type} (m : Parse α) (f : α → Parse Node)
    [hf : ∀ a, Makes kind (f a)] : Makes kind (m >>= f) where
  kind scope s n s' hrun := by
    obtain ⟨a, s₁, _, hrest⟩ := run_bind_eq_ok hrun
    exact (hf a).kind scope s₁ n s' hrest

instance ifTernary : Makes .ifTernaryExpression ifTernary := by
  unfold Parsing.ifTernary
  infer_instance

instance unaryOperation : Makes .unaryExpression unaryOperation := by
  unfold Parsing.unaryOperation
  infer_instance

instance privateMembership : Makes .binaryExpression privateMembership := by
  unfold Parsing.privateMembership
  infer_instance

instance augmentedRest (target : Node) : Makes .augmentedAssignmentExpression (augmentedRest target) := by
  unfold Parsing.augmentedRest
  infer_instance

end Makes

/-- Whether a node is an assignment with its semicolon. -/
def IsAssigned (n : Node) : Prop := n.kind? = some .assignmentExpression

section Operators
variable {scope : Scope} {s s' : State} {n operand : Node}

theorem isAssignment_of_isAssigned (h : IsAssigned n) : isAssignment n = true := by
  unfold isAssignment
  rw [h]
  rfl

theorem run_assignmentOr (h : kindAt scope.tokens s.position = .operator .assign) :
    assignmentOr operand scope s =
      (assignmentTarget operand [.identifier, .memberExpression] >>= assignmentRest) scope s := by
  have hpeek : peekKind scope s = .ok (.operator .assign) s := by
    rw [← h]
    rfl
  rw [assignmentOr, run_bind_ok hpeek]
  rfl

/-- Without an equals sign, there is no assignment with its semicolon. -/
theorem assignmentOr_plain (h : kindAt scope.tokens s.position ≠ .operator .assign)
    (hrun : assignmentOr operand scope s = .ok n s') (hassigned : IsAssigned n) : n = operand := by
  obtain ⟨kind, s₁, hpeek, hrun⟩ := run_bind_eq_ok hrun
  obtain ⟨rfl, rfl⟩ : kindAt scope.tokens s.position = kind ∧ s = s₁ := EStateM.Result.ok.inj hpeek
  generalize kindAt scope.tokens s.position = kind at h hrun
  cases kind with
  | operator o =>
    have hrun : (if o = .assign then _ else if o.isAugmentedAssignment = true then
      assignmentTarget operand _ >>= augmentedRest else pure operand : Parse Node) scope s = _ := hrun
    rw [if_neg fun ho => h (congrArg _ ho)] at hrun
    split at hrun
    · obtain ⟨target, s₁, _, hrest⟩ := run_bind_eq_ok hrun
      cases ((Makes.augmentedRest target).kind _ _ _ _ hrest).symm.trans hassigned
    · cases hrun
      rfl
  | keyword | punctuation | identifier | number | string | regex | templateChars | templateEscape
  | endOfFile =>
    cases hrun
    rfl

/-- Behind an assignment, no operator is looked for. -/
theorem run_repeat_assigned (h : IsAssigned n) (least : Nat) :
    repeatFrom n (operateOn least) scope s = .ok n s := by
  have hstop : operateOn least n scope s = .ok (.done n) s := by
    rw [operateOn, if_pos (isAssignment_of_isAssigned h)]
    rfl
  exact run_bind_ok hstop

/-- No operation gives an assignment. -/
theorem rounds_assigned {least fuel : Nat}
    (hrun : rounds (operateOn least) fuel operand scope s = .ok n s') (hassigned : IsAssigned n) :
    n = operand ∧ s' = s := by
  induction fuel generalizing operand s with
  | zero =>
    cases hrun
    exact ⟨rfl, rfl⟩
  | succ fuel ih =>
    obtain ⟨r, s₁, hround, hrest⟩ := run_bind_eq_ok hrun
    have hdone (h : (pure (.done operand) : Parse (Round Node)) scope s = .ok r s₁) :
        n = operand ∧ s' = s := by
      cases h
      cases hrest
      exact ⟨rfl, rfl⟩
    unfold operateOn at hround
    split at hround
    · exact hdone hround
    obtain ⟨kind, s₂, hpeek, hround⟩ := run_bind_eq_ok hround
    obtain ⟨rfl, rfl⟩ : kindAt scope.tokens s.position = kind ∧ s = s₂ := EStateM.Result.ok.inj hpeek
    cases hbinding : (binaryOperator? (kindAt scope.tokens s.position)).bind Operator.binding? with
    | none =>
      rw [hbinding] at hround
      exact hdone hround
    | some binding =>
      rw [hbinding] at hround
      have hround : (if binding.1 < least then pure (.done operand) else _ : Parse (Round Node))
        scope s = _ := hround
      split at hround
      · exact hdone hround
      · obtain ⟨o, s₂, _, hround⟩ := run_bind_eq_ok hround
        obtain ⟨operand', s₃, _, hround⟩ := run_bind_eq_ok hround
        cases hround
        obtain ⟨rfl, _⟩ := ih hrest
        cases hassigned

end Operators

section Expressions
variable {left right : Array Token} {S : Stage (World.continued left right)} {s t : State}
  (h : GoesOn left right) (hS : S.Coherent)
include h hS

theorem assignment_finishes :
    Finishes S IsAssigned (operand >>= assignmentOr) s t := by
  intro haligned n s' hrun hspent hassigned
  obtain ⟨o, s₁, hoperand, hrest⟩ := run_bind_eq_ok hrun
  by_cases hsign : kindAt left s₁.position = .operator .assign
  · have hrest' : (assignmentTarget o [.identifier, .memberExpression] >>= assignmentRest) S.left s₁ =
        .ok n s' := (run_assignmentOr hsign).symm.trans hrest
    refine finishes_next haligned (operand_mirrors hS) (fun _ _ _ => id) hoperand
      (live_of_demanding hS hrest' hspent) fun t₁ haligned' => ?_
    have hsign' : kindAt right t₁.position = .operator .assign := (h.kind_aligned haligned').trans hsign
    have hassignment : Finishes S IsAssigned
        (assignmentTarget o [.identifier, .memberExpression] >>= assignmentRest) s₁ t₁ :=
      .bind hS (assignmentTarget_mirrors hS rfl) (fun _ _ _ => id)
        fun target _ _ => assignmentRest_finishes h hS target
    obtain ⟨t', hrun', hsame⟩ := hassignment haligned' n s' hrest' hspent hassigned
    exact ⟨t', (run_assignmentOr hsign').trans hrun', hsame⟩
  · obtain rfl := assignmentOr_plain hsign hrest hassigned
    have hreads := operand_reads hS.sound (b := s.position) (fun b hb => (Option.some.inj hb).ge)
      (hS.world.inside haligned).1
    rw [hoperand] at hreads
    obtain ⟨kind, hmem, _, hkind⟩ := hreads.2.kind_mem
    obtain rfl := Option.some.inj (hassigned.symm.trans hkind)
    exact absurd hmem (by decide)

theorem unary_finishes : Finishes S IsAssigned unary s t := by
  have hoperand : Finishes S IsAssigned (operand >>= assignmentOr) s t := assignment_finishes h hS
  have hother (kind : NodeKind) (hkind : kind ≠ .assignmentExpression) {m : Parse Node} [hm : Makes kind m] :
      Finishes S IsAssigned m s t := by
    refine .absurd fun n s' hrun _ hassigned => hkind ?_
    exact Option.some.inj ((hm.kind _ _ _ _ hrun).symm.trans hassigned)
  have hfails {problem : Problem} : Finishes S IsAssigned (throw problem) s t :=
    .absurd fun _ _ hrun => by cases hrun
  unfold unary
  refine .ahead (p := id) h (fun _ _ => rfl) ?_
  rw [id]
  split
  · exact hother .ifTernaryExpression (by decide)
  · exact hother .unaryExpression (by decide)
  · exact hother .unaryExpression (by decide)
  · exact .absurd fun _ _ hrun => by cases hrun
  · exact .absurd fun _ _ hrun => by cases hrun
  · exact hother .binaryExpression (by decide)
  · split
    · exact hother .unaryExpression (by decide)
    · exact hoperand
  · exact hoperand

theorem binary_finishes {least : Nat} : Finishes S IsAssigned (binary least) s t := by
  intro haligned n s' hrun hspent hassigned
  obtain ⟨u, s₁, hunary, hrounds⟩ := run_bind_eq_ok hrun
  obtain ⟨rfl, rfl⟩ := rounds_assigned hrounds hassigned
  obtain ⟨t', hunary', hsame⟩ := unary_finishes h hS haligned _ _ hunary hspent hassigned
  exact ⟨t', (run_bind_ok hunary').trans (run_repeat_assigned hassigned least), hsame⟩

end Expressions

/-! ### Statements that read the last token -/

/-- Only an assignment or a call stands alone. -/
theorem standAlone_fails {start : Span} {value : Node} (hassigned : ¬IsAssigned value)
    (hcall : value.kind? ≠ some .callExpression) : (match value.kind? with
      | some .assignmentExpression => Pure.pure value
      | some .callExpression => do node .callStatement #[value, ← expectOrMissing .semicolon]
      | _ => throw ⟨.notAStatement, start.merge value.span⟩ : Parse Node) =
    throw ⟨.notAStatement, start.merge value.span⟩ := by
  split
  · contradiction
  · contradiction
  · rfl

section Levels
variable {left right : Array Token} {s t : State} (h : GoesOn left right) (maxDepth levels : Nat)
include h

theorem GoesOn.stage : ((World.continued left right).stage maxDepth maxDepth 0 levels).Coherent :=
  level_coherent h.coherent (.inl ⟨rfl, rfl⟩) levels

theorem expression_finishes :
    Finishes ((World.continued left right).stage maxDepth maxDepth 0 levels) IsAssigned expression s t := by
  cases levels with
  | zero => exact .absurd fun _ _ hrun => by cases hrun
  | succ levels => exact binary_finishes h (h.stage maxDepth levels)

theorem expressionStatement_finishes {counts : Node → Prop} :
    Finishes ((World.continued left right).stage maxDepth maxDepth 0 levels) counts expressionStatement
      s t := by
  have hS := h.stage maxDepth levels
  unfold expressionStatement
  refine .look (a := tokenAt left s.position) rfl
    (fun haligned => congrArg (EStateM.Result.ok · t) (h.token_aligned haligned)) ?_
  intro haligned n s' hrun hspent _
  obtain ⟨value, s₁, hvalue, hrest⟩ := run_bind_eq_ok hrun
  by_cases hassigned : IsAssigned value
  · rw [hassigned] at hrest
    cases hrest
    obtain ⟨t', hvalue', hsame⟩ :=
      expression_finishes h maxDepth levels haligned n s' hvalue hspent hassigned
    refine ⟨t', (run_bind_ok hvalue').trans ?_, hsame⟩
    rw [hassigned]
    rfl
  by_cases hcall : value.kind? = some .callExpression
  · rw [hcall] at hrest
    refine finishes_next haligned (expression_mirrors hS) (fun _ _ _ => id) hvalue
      (live_of_demanding hS hrest hspent) fun t₁ haligned' => ?_
    rw [hcall]
    exact finishes_close h haligned' hrest hspent
  · have hfails := @standAlone_fails (tokenAt left s.position).span value hassigned hcall
    cases (congrFun (congrFun hfails _) s₁).symm.trans hrest

theorem anyStatement_finishes {counts : Node → Prop} :
    Finishes ((World.continued left right).stage maxDepth maxDepth 0 levels) counts anyStatement s t := by
  have hS := h.stage maxDepth levels
  unfold anyStatement opensAssignment
  refine .ahead (p := id) h (fun _ _ => rfl) ?_
  rw [id]
  split
  · refine .of_aligned fun haligned => .look (a := kindAt left (s.position + 1)) rfl (fun _ => ?_) ?_
    · have hnext : kindAt right (t.position + 1) = kindAt left (s.position + 1) := by
        rw [haligned.2.1.1, h.kind_same (h.succ_lt haligned.1 (by simp [*]))]
      exact congrArg (EStateM.Result.ok · t) hnext
    · split
      · exact braced_finishes h hS (by decide) (.inr (by simp [*]; rfl)) (functionDeclaration_reads hS.sound ‹_›)
      · exact expressionStatement_finishes h maxDepth levels
  · exact variableDeclaration_finishes h hS (by simp [*])
  · exact variableDeclaration_finishes h hS (by simp [*])
  · exact braced_finishes h hS (by decide) (.inr (by simp [*]; rfl)) (matchExpression_reads hS.sound ‹_›)
  · exact braced_finishes h hS (by decide) (.inr (by simp [*]; rfl)) (enumDeclaration_reads hS.sound ‹_›)
  · exact braced_finishes h hS (by decide) (.inr (by simp [*]; rfl)) (ifStatement_reads hS.sound ‹_›)
  · exact returnStatement_finishes h hS (by simp [*])
  · exact breakStatement_finishes h hS (by simp [*])
  · refine .closes h (by simp [*]; rfl) ?_
    split
    · exact destructuringAssignment_finishes h hS
    · exact braced_finishes h hS (by decide) (.inl (by simp [*]; decide)) (block_reads hS.sound)
  · refine .closes h (by simp [*]; rfl) ?_
    split
    · exact destructuringAssignment_finishes h hS
    · exact expressionStatement_finishes h maxDepth levels
  · exact expressionStatement_finishes h maxDepth levels

/-- A statement that reads the last token does the same in front of other tokens. -/
theorem statement_finishes {counts : Node → Prop} :
    Finishes ((World.continued left right).stage maxDepth maxDepth 0 levels) counts statement s t := by
  cases levels with
  | zero => exact .absurd fun _ _ hrun => by cases hrun
  | succ levels => exact anyStatement_finishes h maxDepth levels

end Levels

end ScriptTree.Parsing
