import Mathlib
import ScriptTree.Proofs.Parsing.Progress

/-! No production closes a brace that it has not opened.

`Thrifty ahead k m k'` says that the step `m`, with `k` braces open in front of it and what `ahead` says
about the next tokens, closes no more than these, whether it gives a value or fails, and that `k'` are
open behind it if it gives a value. A closing brace is read only where it is asked for, so it is enough to
follow what steps ask for: the rules for looking ahead hand on what was seen. -/
namespace ScriptTree.Parsing

/-! ### What is known of the next tokens -/

inductive Ahead where
  | anything
  /-- The next token does not close a brace. -/
  | notClosing
  /-- Neither does the one behind it. -/
  | notClosingTwice
  /-- The next token opens a brace. -/
  | opening

namespace Ahead

@[reducible] def of : TokenKind → Ahead
  | .punctuation .leftBrace | .punctuation .dollarBrace => .opening
  | .punctuation .rightBrace => .anything
  | _ => .notClosing

/-- What has to be known where a goal is parsed. -/
@[reducible] def before : Goal → Ahead
  | .ifStatement => .notClosing
  | _ => .anything

/-- What is known if this stands behind a token that does not close a brace. -/
@[reducible] def behind : TokenKind → Ahead
  | .punctuation .rightBrace => .notClosing
  | _ => .notClosingTwice

/-- What is known if a mark is not the next token. -/
@[reducible] def without (ahead : Ahead) : Punctuation → Ahead
  | .rightBrace => .notClosing
  | _ => ahead

def Holds (tokens : Array Token) (i : Nat) : Ahead → Prop
  | .anything => True
  | .notClosing => brace? (kindAt tokens i) ≠ some .closing
  | .notClosingTwice =>
    brace? (kindAt tokens i) ≠ some .closing ∧ brace? (kindAt tokens (i + 1)) ≠ some .closing
  | .opening => brace? (kindAt tokens i) = some .opening

theorem holds_of {tokens : Array Token} {i : Nat} {kind : TokenKind} (h : kindAt tokens i = kind) :
    (of kind).Holds tokens i := by
  subst h
  unfold of
  split
  · rename_i h
    rw [Holds, h]
    rfl
  · rename_i h
    rw [Holds, h]
    rfl
  · trivial
  · rename_i h _ _
    rw [Holds]
    exact fun hclose => absurd (brace?_eq_closing.mp hclose) (by assumption)

theorem holds_behind {tokens : Array Token} {i : Nat} (h : Ahead.notClosing.Holds tokens i) :
    (behind (kindAt tokens (i + 1))).Holds tokens i := by
  unfold behind
  split
  · exact h
  · exact ⟨h, fun hclose => absurd (brace?_eq_closing.mp hclose) ‹_›⟩

theorem holds_without {tokens : Array Token} {i : Nat} {ahead : Ahead} {mark : Punctuation}
    (h : ahead.Holds tokens i) (hother : kindAt tokens i ≠ .punctuation mark) :
    (ahead.without mark).Holds tokens i := by
  cases mark with
  | rightBrace => exact fun hclose => hother (brace?_eq_closing.mp hclose)
  | _ => exact h

end Ahead

/-! ### Steps -/

/-- Whether a step with `k` braces open in front closes no more, and leaves `k'` open if it gives a
value. -/
def Saves {α : Type} (tokens : Array Token) (k k' : Nat) (s : State) :
    EStateM.Result Problem State α → Prop
  | .ok _ s' => Affords tokens k s.position k' s'.position
  | .error _ s' => Affords tokens k s.position 0 s'.position

/-- Whether what is parsed one level deeper closes no brace that it has not opened. -/
def Saving (scope : Scope) : Prop :=
  ∀ goal s, (Ahead.before goal).Holds scope.tokens s.position →
    Saves scope.tokens 0 0 s (scope.deeper goal s)

theorem Saving.failing {scope : Scope} (h : Saving scope) (s : State) (problem : Problem) (s' : State)
    (hrun : scope.deeper .statement s = .error problem s') :
    Affords scope.tokens 0 s.position 0 s'.position := by
  have hsaves := h .statement s trivial
  rw [hrun] at hsaves
  exact hsaves

class Thrifty {α : Type} (ahead : Ahead) (k : Nat) (m : Parse α) (k' : outParam Nat) : Prop where
  saves : ∀ scope, Saving scope → ∀ s, ahead.Holds scope.tokens s.position →
    Saves scope.tokens k k' s (m scope s)

section Steps
variable {α β : Type} {ahead : Ahead} {k k' k'' : Nat}

theorem Saves.add {tokens : Array Token} {s : State} {result : EStateM.Result Problem State α}
    (h : Saves tokens 0 0 s result) (k : Nat) : Saves tokens k k s result := by
  cases result with
  | ok a s' =>
    have := Affords.add h k
    rwa [Nat.zero_add] at this
  | error e s' =>
    have := (Affords.add h k).mono (Nat.zero_le _)
    rwa [Nat.zero_add] at this

theorem Saves.trans {tokens : Array Token} {s s' : State}
    {result : EStateM.Result Problem State α} (h : Affords tokens k s.position k' s'.position)
    (hrest : Saves tokens k' k'' s' result) : Saves tokens k k'' s result := by
  cases result with
  | ok a s'' => exact Affords.trans h hrest
  | error e s'' => exact Affords.trans h hrest

namespace Thrifty

instance pure (a : α) : Thrifty ahead k (Pure.pure a) k := ⟨fun _ _ _ _ => .refl⟩

instance throw (problem : Problem) : Thrifty ahead k (throw problem : Parse α) k :=
  ⟨fun _ _ _ _ => Affords.refl.mono (Nat.zero_le k)⟩

instance unexpected (what : Expected) : Thrifty ahead k (unexpected what : Parse α) k :=
  ⟨fun _ _ _ _ => Affords.refl.mono (Nat.zero_le k)⟩

instance make (n : Node) : Thrifty ahead k (make n) k := ⟨fun _ _ _ _ => Affords.refl (k := k)⟩

instance leaf (symbol : Symbol) (span : Span) : Thrifty ahead k (leaf symbol span) k := make _

instance node (kind : NodeKind) (children : Array Node) : Thrifty ahead k (node kind children) k :=
  make _

instance bind (m : Parse α) (f : α → Parse β) [hm : Thrifty ahead k m k']
    [hf : ∀ a, Thrifty .anything k' (f a) k''] : Thrifty ahead k (m >>= f) k'' where
  saves scope h s hahead := by
    have hfirst := hm.saves scope h s hahead
    cases hrun : m scope s with
    | ok a s' =>
      rw [hrun] at hfirst
      rw [run_bind_ok hrun]
      exact .trans hfirst ((hf a).saves scope h s' trivial)
    | error e s' =>
      rw [hrun] at hfirst
      rw [run_bind_error hrun]
      exact hfirst

/-- What changes nothing leaves what is known of the next tokens. -/
instance (priority := low) look (m : Parse α) (f : α → Parse β) [hm : Still m]
    [hf : ∀ a, Thrifty ahead k (f a) k'] : Thrifty ahead k (m >>= f) k' where
  saves scope h s hahead := by
    have hfirst := hm.same scope s
    cases hrun : m scope s with
    | ok a s' =>
      rw [hrun] at hfirst
      subst hfirst
      rw [run_bind_ok hrun]
      exact (hf a).saves scope h s' hahead
    | error e s' =>
      rw [hrun] at hfirst
      subst hfirst
      rw [run_bind_error hrun]
      exact Affords.refl.mono (Nat.zero_le k)

instance fails (what : Expected) (f : α → Parse β) :
    Thrifty ahead k ((Parsing.unexpected what : Parse α) >>= f) k :=
  ⟨fun _ _ _ _ => Affords.refl.mono (Nat.zero_le k)⟩

instance refuses (what : Expected) (f : Unit → Parse β) :
    Thrifty ahead k (demand false what >>= f) k := fails what f

instance ite (c : Prop) [Decidable c] (m m' : Parse α) [Thrifty ahead k m k']
    [Thrifty ahead k m' k'] : Thrifty ahead k (if c then m else m') k' := by
  split <;> infer_instance

instance chosen (m m' : Parse α) [h : Thrifty ahead k m k'] :
    Thrifty ahead k (if true = true then m else m') k' := h

instance otherwise (m m' : Parse α) [h : Thrifty ahead k m' k'] :
    Thrifty ahead k (if false = true then m else m') k' := h

instance neither (b : Bool) (m m' : Parse α) [h : Thrifty ahead k m' k'] :
    Thrifty ahead k (if (false && b) = true then m else m') k' := h

/-- A step that needs to know nothing of the next tokens. -/
theorem weaken {m : Parse α} (h : Thrifty .anything k m k') : Thrifty ahead k m k' :=
  ⟨fun scope hdeep s _ => h.saves scope hdeep s trivial⟩

/-! ### Looking ahead -/

/-- What a step sees is known behind it. -/
theorem seen {m : Parse α} {f : α → Parse β} (see : Token → α)
    (hm : ∀ scope s, m scope s = .ok (see (tokenAt scope.tokens s.position)) s)
    (hf : ∀ (scope : Scope) (s : State), ahead.Holds scope.tokens s.position → ∃ ahead' : Ahead,
      ahead'.Holds scope.tokens s.position ∧
        Thrifty ahead' k (f (see (tokenAt scope.tokens s.position))) k') :
    Thrifty ahead k (m >>= f) k' where
  saves scope h s hahead := by
    obtain ⟨ahead', hahead', hrest⟩ := hf scope s hahead
    rw [run_bind_ok (hm scope s)]
    exact hrest.saves scope h s hahead'

theorem peek {f : Token → Parse β} (hf : ∀ token, Thrifty (.of token.kind) k (f token) k') :
    Thrifty ahead k (peek >>= f) k' :=
  seen id (fun _ _ => rfl) fun _ _ _ => ⟨_, Ahead.holds_of rfl, hf _⟩

theorem peekKind {f : TokenKind → Parse β} (hf : ∀ kind, Thrifty (.of kind) k (f kind) k') :
    Thrifty ahead k (peekKind >>= f) k' :=
  seen Token.kind (fun _ _ => rfl) fun _ _ _ => ⟨_, Ahead.holds_of rfl, hf _⟩

/-- A test for some kinds of tokens, none of which closes a brace. -/
theorem test {p : TokenKind → Bool} {m : Parse Bool} {f : Bool → Parse β}
    (hp : ∀ kind, p kind = true → brace? kind ≠ some .closing)
    (hm : ∀ scope s, m scope s = .ok (p (kindAt scope.tokens s.position)) s)
    (htrue : Thrifty .notClosing k (f true) k') (hfalse : Thrifty ahead k (f false) k') :
    Thrifty ahead k (m >>= f) k' := by
  refine seen (p ·.kind) hm fun scope s hahead => ?_
  cases hkind : p (tokenAt scope.tokens s.position).kind with
  | true => exact ⟨.notClosing, hp _ hkind, htrue⟩
  | false => exact ⟨ahead, hahead, hfalse⟩

instance sees (mark : Punctuation) (f : Bool → Parse β)
    [htrue : Thrifty (.of (.punctuation mark)) k (f true) k']
    [hfalse : Thrifty (ahead.without mark) k (f false) k'] : Thrifty ahead k (sees mark >>= f) k' := by
  refine seen (·.kind.isPunctuation mark) (fun _ _ => rfl) fun scope s hahead => ?_
  cases hkind : (tokenAt scope.tokens s.position).kind.isPunctuation mark with
  | true => exact ⟨_, Ahead.holds_of (beq_iff_eq.mp hkind), htrue⟩
  | false =>
    exact ⟨_, Ahead.holds_without hahead fun heq => beq_eq_false_iff_ne.mp hkind heq, hfalse⟩

instance seesOperator (o : Operator) (f : Bool → Parse β) [htrue : Thrifty .notClosing k (f true) k']
    [hfalse : Thrifty ahead k (f false) k'] : Thrifty ahead k (seesOperator o >>= f) k' :=
  test (p := (·.isOperator o)) (fun _ hkind => beq_iff_eq.mp hkind ▸ nofun) (fun _ _ => rfl)
    htrue hfalse

instance seesWord (word : Keyword) (f : Bool → Parse β) [htrue : Thrifty .notClosing k (f true) k']
    [hfalse : Thrifty ahead k (f false) k'] : Thrifty ahead k (seesWord word >>= f) k' :=
  test (p := (·.isKeyword word)) (fun _ hkind => beq_iff_eq.mp hkind ▸ nofun) (fun _ _ => rfl)
    htrue hfalse

theorem open_of_isIdentifier {kind : TokenKind} (h : kind.isIdentifier = true) :
    brace? kind ≠ some .closing := by
  obtain ⟨name, rfl⟩ := isIdentifier_iff.mp h
  exact nofun

instance seesIdentifier (f : Bool → Parse β) [htrue : Thrifty .notClosing k (f true) k']
    [hfalse : Thrifty ahead k (f false) k'] : Thrifty ahead k (seesIdentifier >>= f) k' :=
  test (fun _ => open_of_isIdentifier) (fun _ _ => rfl) htrue hfalse

/-- The token behind the next one. -/
theorem tokenBehind {f : Token → Parse β}
    (hf : ∀ token, Thrifty (.behind token.kind) k (f token) k') :
    Thrifty .notClosing k (tokenAhead 1 >>= f) k' :=
  ⟨fun scope h s hahead => (hf _).saves scope h s (Ahead.holds_behind hahead)⟩

/-- Tests that no brace passes that closes another. -/
class Guards (p : TokenKind → Bool) : Prop where
  spares : ∀ kind, p kind = true → brace? kind ≠ some .closing

instance : Guards fun kind => kind.isIdentifier := ⟨fun _ => open_of_isIdentifier⟩

instance : Guards fun kind => kind.isPunctuation .colon := ⟨fun _ h => beq_iff_eq.mp h ▸ nofun⟩

instance : Guards fun kind => kind.isPunctuation .rightBracket :=
  ⟨fun _ h => beq_iff_eq.mp h ▸ nofun⟩

instance (p : TokenKind → Bool) [h : Guards p] : Guards fun kind => true && p kind := h

instance kindBehind (p : TokenKind → Bool) (m m' : Parse β) [hp : Guards p]
    [hthen : Thrifty .notClosingTwice k m k'] [helse : Thrifty .notClosing k m' k'] :
    Thrifty .notClosing k (kindAhead 1 >>= fun kind => if p kind = true then m else m') k' where
  saves scope h s hahead := by
    show Saves _ k k' s ((if p (kindAt scope.tokens (s.position + 1)) = true then m else m') scope s)
    split
    · exact hthen.saves scope h s ⟨hahead, hp.spares _ ‹_›⟩
    · exact helse.saves scope h s hahead

/-! ### Reading -/

/-- Steps that read the next token and nothing else. -/
class ReadsOne (m : Parse α) : Prop where
  reads : ∀ scope s, ∃ a s', m scope s = .ok a s' ∧ s'.position =
    if kindAt scope.tokens s.position = .endOfFile then s.position else s.position + 1

instance : ReadsOne advance where
  reads scope s := by
    have hrun : advance scope s = (if ((tokenAt scope.tokens s.position).kind != .endOfFile) = true
        then EStateM.Result.ok (tokenAt scope.tokens s.position) { s with position := s.position + 1 }
        else EStateM.Result.ok (tokenAt scope.tokens s.position) s) := by
      show (if ((tokenAt scope.tokens s.position).kind != .endOfFile) = true then _ else _ :
        Parse Token) scope s = _
      split <;> rfl
    rw [hrun]
    by_cases hreal : kindAt scope.tokens s.position = .endOfFile
    · exact ⟨_, _, if_neg fun hne => bne_iff_ne.mp hne hreal, (if_pos hreal).symm⟩
    · exact ⟨_, _, if_pos (bne_iff_ne.mpr hreal), (if_neg hreal).symm⟩

instance (symbol : Symbol) : ReadsOne (bumpSymbol symbol) where
  reads scope s := by
    obtain ⟨token, s', hrun, hposition⟩ := ReadsOne.reads (m := advance) scope s
    exact ⟨_, _, run_bind_ok hrun, hposition⟩

instance (kind : NodeKind) : ReadsOne (bumpAs kind) := inferInstanceAs (ReadsOne (bumpSymbol _))

instance : ReadsOne bump where
  reads scope s := ReadsOne.reads (m := bumpSymbol (symbolOf (kindAt scope.tokens s.position))) scope s

/-- A token is read, or the end was reached. -/
theorem ReadsOne.saves {m : Parse α} (hm : ReadsOne m) {scope : Scope} {s : State}
    (h : s.position < scope.tokens.size → kindAt scope.tokens s.position ≠ .endOfFile →
      Affords scope.tokens k s.position k' (s.position + 1))
    (hend : kindAt scope.tokens s.position = .endOfFile → k' ≤ k) :
    Saves scope.tokens k k' s (m scope s) := by
  obtain ⟨a, s', hrun, hposition⟩ := hm.reads scope s
  rw [hrun]
  show Affords _ _ _ _ _
  rw [hposition]
  split
  · exact Affords.refl.mono (hend ‹_›)
  · exact h (lt_size_of_real ‹_›) ‹_›

instance one (m : Parse α) [hm : ReadsOne m] : Thrifty .notClosing k m k where
  saves _ _ _ hahead := hm.saves (fun hlt _ => .token hlt hahead) fun _ => Nat.le_refl k

instance opening (m : Parse α) [hm : ReadsOne m] : Thrifty .opening k m (k + 1) where
  saves _ _ _ hahead := hm.saves (fun hlt _ => .opening hlt hahead) fun hend => by
    rw [Ahead.Holds, hend] at hahead
    cases hahead

instance two (m : Parse α) (f : α → Parse β) [hm : ReadsOne m]
    [hf : ∀ a, Thrifty .notClosing k (f a) k'] : Thrifty .notClosingTwice k (m >>= f) k' where
  saves scope h s hahead := by
    have hfirst := (one (k := k) m).saves scope h s hahead.1
    obtain ⟨a, s', hrun, hposition⟩ := hm.reads scope s
    rw [hrun] at hfirst
    rw [run_bind_ok hrun]
    refine .trans hfirst ((hf a).saves scope h s' ?_)
    rw [Ahead.Holds, hposition]
    split
    · exact hahead.1
    · exact hahead.2

instance expect (mark : Punctuation) [Thrifty (.of (.punctuation mark)) k bump k] :
    Thrifty ahead k (expect mark) k := by
  unfold Parsing.expect
  infer_instance

/-- A mark that is asked for. -/
theorem asked {mark : Punctuation} {m : Parse Node}
    (hother : ∀ scope s, Saves scope.tokens k k' s (m scope s))
    (hread : ∀ tokens p, p < tokens.size → kindAt tokens p = .punctuation mark →
      Affords tokens k p k' (p + 1)) :
    Thrifty ahead k (Parsing.sees mark >>= fun seen => if seen = true then bump else m) k' where
  saves scope _ s _ := by
    show Saves _ k k' s
      ((if (kindAt scope.tokens s.position).isPunctuation mark = true then bump else m) scope s)
    split
    · have hkind : kindAt scope.tokens s.position = .punctuation mark := beq_iff_eq.mp ‹_›
      refine ReadsOne.saves inferInstance (fun hlt _ => hread _ _ hlt hkind) fun hend => ?_
      cases hkind.symm.trans hend
    · exact hother scope s

instance expect_leftBrace : Thrifty ahead k (Parsing.expect .leftBrace) (k + 1) :=
  asked (fun _ _ => Affords.refl.mono (Nat.zero_le k))
    fun _ _ hlt hkind => .opening hlt (by rw [hkind]; rfl)

instance expect_rightBrace : Thrifty ahead (k + 1) (Parsing.expect .rightBrace) k :=
  asked (fun _ _ => Affords.refl.mono (Nat.zero_le _))
    fun _ _ hlt hkind => .closing hlt (by rw [hkind]; rfl)

instance expectOrMissing_semicolon : Thrifty ahead k (expectOrMissing .semicolon) k :=
  asked (fun _ _ => Affords.refl (k := k)) fun _ _ hlt hkind => .token hlt (by rw [hkind]; nofun)

instance expectOrMissing_rightBrace : Thrifty ahead (k + 1) (expectOrMissing .rightBrace) k :=
  asked (fun _ _ => Affords.refl.mono (Nat.le_succ k))
    fun _ _ hlt hkind => .closing hlt (by rw [hkind]; rfl)

instance expectOperator (o : Operator) : Thrifty ahead k (expectOperator o) k := by
  unfold Parsing.expectOperator
  infer_instance

instance expectWord (word : Keyword) (what : Expected) : Thrifty ahead k (expectWord word what) k := by
  unfold Parsing.expectWord
  infer_instance

instance expectIdentifier (kind : NodeKind) (what : Expected) :
    Thrifty ahead k (expectIdentifier kind what) k := by
  unfold Parsing.expectIdentifier
  infer_instance

/-! ### Options and repetition -/

instance optional (part : Parse (Array Node)) [h : Thrifty ahead k part k] :
    Thrifty ahead k (optionally true part) k := h

instance absent (part : Parse (Array Node)) : Thrifty ahead k (optionally false part) k :=
  inferInstanceAs (Thrifty ahead k (Pure.pure #[]) k)

instance rounds (round : α → Parse (Round α)) [∀ a, Thrifty .anything k (round a) k] (n : Nat)
    (a : α) : Thrifty ahead k (rounds round n a) k := by
  induction n generalizing ahead a with
  | zero => exact pure a
  | succ n ih =>
    have (r : Round α) : Thrifty .anything k (match r with
        | .more a => Parsing.rounds round n a
        | .done a => Pure.pure a) k := by
      cases r <;> infer_instance
    rw [Parsing.rounds]
    exact weaken (bind _ _)

instance repeatFrom (start : α) (round : α → Parse (Round α))
    [∀ a, Thrifty .anything k (round a) k] : Thrifty ahead k (repeatFrom start round) k := by
  unfold Parsing.repeatFrom
  infer_instance

instance mapM (f : α → Parse Node) [∀ a, Thrifty .anything k (f a) k] (l : List α) :
    Thrifty ahead k (l.mapM f) k := by
  induction l generalizing ahead with
  | nil => exact pure []
  | cons a l ih =>
    rw [List.mapM_cons]
    exact weaken (bind _ _)

/-! ### Going deeper -/

theorem descend {goal : Goal} (h : ∀ tokens i, (Ahead.before goal).Holds tokens i) :
    Thrifty ahead k (descend goal) k :=
  ⟨fun _ hdeep s _ => (hdeep goal s (h _ _)).add k⟩

instance statement : Thrifty ahead k statement k := descend fun _ _ => trivial

instance expression : Thrifty ahead k expression k := descend fun _ _ => trivial

instance type : Thrifty ahead k type k := descend fun _ _ => trivial

instance unary : Thrifty ahead k (Parsing.descend .unary) k := descend fun _ _ => trivial

instance binary (least : Nat) : Thrifty ahead k (Parsing.descend (.binary least)) k := descend fun _ _ => trivial

instance pattern : Thrifty ahead k (Parsing.descend .pattern) k := descend fun _ _ => trivial

instance objectPattern : Thrifty ahead k (Parsing.descend .objectPattern) k := descend fun _ _ => trivial

instance arrayPattern : Thrifty ahead k (Parsing.descend .arrayPattern) k := descend fun _ _ => trivial

instance ifStatement : Thrifty .notClosing k (Parsing.descend .ifStatement) k :=
  ⟨fun _ hdeep s hahead => (hdeep .ifStatement s hahead).add k⟩

end Thrifty

end Steps

/-! ### Lists -/

section Lists
variable {ahead : Ahead} {k : Nat}

set_option synthInstance.maxSize 256 in
instance (kind : NodeKind) (item : Parse Node) [Thrifty .anything k item k] :
    Thrifty ahead k (listOf kind .leftParen .rightParen item) k := by
  unfold listOf
  dsimp only
  infer_instance

set_option synthInstance.maxSize 256 in
instance (kind : NodeKind) (item : Parse Node) [Thrifty .anything k item k] :
    Thrifty ahead k (listOf kind .leftBracket .rightBracket item) k := by
  unfold listOf
  dsimp only
  infer_instance

set_option synthInstance.maxSize 256 in
instance (kind : NodeKind) (item : Parse Node) [Thrifty .anything (k + 1) item (k + 1)] :
    Thrifty ahead k (listOf kind .leftBrace .rightBrace item) k := by
  unfold listOf
  dsimp only
  infer_instance

end Lists

/-! ### Types -/

section Types
variable {ahead : Ahead} {k : Nat}

instance : Thrifty .notClosing k tupleType k := by
  unfold tupleType
  dsimp only
  infer_instance

theorem of_literalKind {kind : TokenKind} {literal : NodeKind} (h : literalKind? kind = some literal) :
    Ahead.of kind = .notClosing := by
  unfold literalKind? at h
  split at h <;> first | rfl | cases h

instance : Thrifty ahead k typeAtom k := by
  unfold typeAtom
  refine .peekKind fun kind => ?_
  split
  · split <;> exact inferInstanceAs (Thrifty .notClosing k _ k)
  · exact inferInstanceAs (Thrifty .notClosing k _ k)
  · exact inferInstanceAs (Thrifty .notClosing k _ k)
  · split
    · rw [of_literalKind ‹_›]
      infer_instance
    · infer_instance

instance : Thrifty ahead k postfixType k := by
  unfold postfixType
  infer_instance

instance : Thrifty ahead k firstOperand k := by
  unfold firstOperand
  infer_instance

instance : Thrifty ahead k unionType k := by
  unfold unionType
  infer_instance

instance : Thrifty ahead k typeAscription k := by
  unfold typeAscription
  infer_instance

end Types

/-! ### Literals and names -/

section Literals
variable {ahead : Ahead} {k : Nat}

instance (symbol : Symbol) (closed : Bool) (offset : Nat) :
    Thrifty ahead k (closingLeaf symbol closed offset) k := by
  unfold closingLeaf
  infer_instance

instance (part : StringPart) : Thrifty ahead k (partLeaf part) k := by
  cases part <;> exact inferInstanceAs (Thrifty ahead k (leaf _ _) k)

instance (quote : Punctuation) (parts : List StringPart) :
    Thrifty .notClosing k (stringLiteral quote parts) k := by
  unfold stringLiteral
  infer_instance

instance (pattern : Span) (flags : Option Span) :
    Thrifty .notClosing k (regexLiteral pattern flags) k := by
  unfold regexLiteral
  cases flags <;> infer_instance

instance : Thrifty .opening k templateSubstitution k := by
  unfold templateSubstitution
  infer_instance

instance : Thrifty .notClosing k templateString k := by
  have (children : Array Node) : Thrifty .anything k (do
      match ← peekKind with
      | .templateChars | .templateEscape => return .more (children.push (← bump))
      | .punctuation .dollarBrace => return .more (children.push (← templateSubstitution))
      | _ => return .done children : Parse (Round (Array Node))) k := by
    refine .peekKind fun kind => ?_
    split
    · exact inferInstanceAs (Thrifty .notClosing k _ k)
    · exact inferInstanceAs (Thrifty .notClosing k _ k)
    · exact inferInstanceAs (Thrifty .opening k _ k)
    · infer_instance
  unfold templateString
  infer_instance

instance : Thrifty .notClosing k arrayLiteral k := by
  unfold arrayLiteral
  dsimp only
  infer_instance

instance (children : Array Node) : Thrifty ahead k (objectMember children) k := by
  unfold objectMember
  infer_instance

instance : Thrifty .opening k objectLiteral k := by
  unfold objectLiteral
  dsimp only
  infer_instance

instance : Thrifty .notClosing k comptimeIdentifier k := by
  unfold comptimeIdentifier
  infer_instance

instance : Thrifty ahead k privateName k := by
  unfold privateName
  infer_instance

end Literals

/-! ### Statements that may fail -/

section Recovery
variable {ahead : Ahead} {k : Nat}

instance (start stop : Nat) : Thrifty ahead k (errorNode? start stop) k := by
  unfold errorNode?
  infer_instance

/-- What is skipped in place of a statement closes no brace that was open in front of it. -/
instance : Thrifty .notClosing k statementOrError k where
  saves scope hdeep s hopen := by
    have hstatement := hdeep .statement s trivial
    rw [statementOrError_eq]
    cases hrun : scope.deeper .statement s with
    | ok n s' =>
      rw [hrun] at hstatement
      exact hstatement.add k
    | error problem s' =>
      rw [hrun] at hstatement
      obtain ⟨hle, d, hdepth, _⟩ : Affords _ _ _ _ _ := hstatement
      have hskip : Affords scope.tokens 0 s.position 0 (s.resumed scope.tokens s' problem).position :=
        affords_resumeFrom hle hle (by rw [hdepth, depthBetween_braces hdepth])
          fun heq hclose => hopen (brace?_eq_closing.mpr (heq ▸ hclose))
      have hskip := hskip.add k
      rw [Nat.zero_add] at hskip
      have hdamage (start stop : Nat) : Thrifty .anything k (errorNode? start stop) k := inferInstance
      exact .trans hskip ((hdamage _ _).saves scope hdeep _ trivial)

instance : Still atEnd := ⟨fun _ _ => rfl⟩

instance (children : Array Node) : Thrifty ahead k (statements true children) k := by
  have (children : Array Node) (o : Option Node) : Thrifty .anything k (match o with
      | some n => Pure.pure (.more (children.push n))
      | none => Pure.pure (.more children) : Parse (Round (Array Node))) k := by
    cases o <;> infer_instance
  unfold statements
  simp only [Bool.true_and]
  infer_instance

instance : Thrifty ahead k block k := by
  unfold block
  infer_instance

end Recovery

/-! ### Functions -/

section Callables
variable {ahead : Ahead} {k : Nat}

instance : Thrifty ahead k parameter k := by
  unfold parameter
  infer_instance

instance : Thrifty ahead k parameters k := by
  unfold parameters
  infer_instance

instance : Thrifty ahead k returnType k := by
  unfold returnType
  infer_instance

instance : Thrifty ahead k blockOrExpression k := by
  unfold blockOrExpression
  infer_instance

instance : Thrifty .notClosing k functionDeclaration k := by
  unfold functionDeclaration
  infer_instance

instance : Thrifty .notClosing k anonymousFunction k := by
  unfold anonymousFunction
  infer_instance

instance : Thrifty ahead k arrowFunction k := by
  unfold arrowFunction
  infer_instance

end Callables

/-! ### Match expressions -/

section Match
variable {ahead : Ahead} {k : Nat}

instance : Thrifty ahead k parenthesized k := by
  unfold parenthesized
  infer_instance

theorem requireInteger_bind {token : Token} {f : Unit → Parse Node}
    (h : ∀ text, token.kind = .number text → Thrifty ahead k (f ()) k) :
    Thrifty ahead k (requireInteger token >>= f) k := by
  unfold requireInteger
  split
  · have := h _ ‹_›
    infer_instance
  · infer_instance

theorem of_sign {kind : TokenKind} (h : isSign kind = true) : Ahead.of kind = .notClosing := by
  rw [isSign, Bool.or_eq_true, isOperator_iff, isOperator_iff] at h
  rcases h with rfl | rfl <;> rfl

instance : Thrifty ahead k signedInteger k := by
  unfold signedInteger
  refine .peek fun first => ?_
  split
  · rw [of_sign ‹_›]
    refine .tokenBehind fun number => @Thrifty.look _ _ _ _ _ _ _ _ fun _ => ?_
    refine requireInteger_bind fun text hnumber => ?_
    rw [hnumber]
    exact inferInstanceAs (Thrifty .notClosingTwice k _ k)
  · refine requireInteger_bind fun text hfirst => ?_
    rw [hfirst]
    exact inferInstanceAs (Thrifty .notClosing k _ k)

instance : Thrifty ahead k integerCondition k := by
  unfold integerCondition
  infer_instance

instance (children : Array Node) : Thrifty .notClosing k (pathCondition children) k := by
  unfold pathCondition
  infer_instance

instance (children : Array Node) : Thrifty ahead k (condition children) k := by
  unfold condition
  refine .peekKind fun kind => ?_
  split
  · infer_instance
  · infer_instance
  · infer_instance
  · exact inferInstanceAs (Thrifty .notClosing k _ k)
  · exact inferInstanceAs (Thrifty .notClosing k _ k)
  · split
    · rw [of_literalKind ‹_›]
      infer_instance
    · infer_instance

instance (children : Array Node) : Thrifty ahead k (conditions children) k := by
  unfold conditions
  infer_instance

instance : Thrifty .notClosing k matchCase k := by
  unfold matchCase
  infer_instance

instance : Thrifty .notClosing k matchElse k := by
  unfold matchElse
  infer_instance

instance : Thrifty .notClosing k matchExpression k := by
  unfold matchExpression
  infer_instance

end Match

/-! ### Operands -/

section Operands
variable {ahead : Ahead} {k : Nat}

instance : Thrifty ahead k primaryContent k := by
  unfold primaryContent
  refine .peekKind fun kind => ?_
  split
  case h_12 =>
    split
    · rw [of_literalKind ‹_›]
      infer_instance
    · infer_instance
  case h_11 => exact inferInstanceAs (Thrifty .opening k _ k)
  all_goals exact inferInstanceAs (Thrifty .notClosing k _ k)

instance : Thrifty ahead k primary k := by
  unfold primary
  infer_instance

instance : Thrifty ahead k argument k := by
  unfold argument
  infer_instance

instance : Thrifty ahead k arguments k := by
  unfold arguments
  infer_instance

instance : Thrifty .notClosing k accessMark k := by
  unfold accessMark
  infer_instance

instance : Thrifty ahead k propertyName k := by
  unfold propertyName
  infer_instance

instance (object : Node) : Thrifty .notClosing k (member object) k := by
  unfold member
  infer_instance

instance (operand : Node) : Thrifty ahead k (call operand) k := by
  unfold call
  infer_instance

instance (operand : Node) : Thrifty .notClosing k (optionalCall operand) k := by
  unfold optionalCall
  infer_instance

instance (operand : Node) : Thrifty .notClosing k (access operand) k := by
  unfold access
  infer_instance

instance (operand : Node) : Thrifty ahead k (extend operand) k := by
  unfold extend
  refine .peekKind fun kind => ?_
  split
  case h_4 => infer_instance
  all_goals exact inferInstanceAs (Thrifty .notClosing k _ k)

instance : Thrifty ahead k operand k := by
  unfold operand
  infer_instance

end Operands

/-! ### Assignments and patterns -/

section Assignments
variable {ahead : Ahead} {k : Nat}

instance (operand : Node) (allowed : List NodeKind) :
    Thrifty ahead k (assignmentTarget operand allowed) k := by
  unfold assignmentTarget
  split <;> infer_instance

instance (target : Node) : Thrifty ahead k (assignmentRest target) k := by
  unfold assignmentRest
  infer_instance

instance (target : Node) : Thrifty .notClosing k (augmentedRest target) k := by
  unfold augmentedRest
  infer_instance

instance (operand : Node) : Thrifty ahead k (assignmentOr operand) k := by
  unfold assignmentOr
  refine .peekKind fun kind => ?_
  split
  · exact inferInstanceAs (Thrifty .notClosing k _ k)
  · infer_instance

instance : Thrifty ahead k target k := by
  unfold target
  refine .peekKind fun kind => ?_
  split <;> infer_instance

instance : Thrifty .notClosing k restPattern k := by
  unfold restPattern
  infer_instance

instance : Thrifty ahead k patternContent k := by
  unfold patternContent
  infer_instance

instance : Thrifty ahead k pattern k := by
  unfold pattern
  infer_instance

instance : Thrifty ahead k patternWithDefault k := by
  unfold patternWithDefault
  infer_instance

instance (key : Node) : Thrifty ahead k (pairRest key) k := by
  unfold pairRest
  infer_instance

instance : Thrifty ahead k objectPatternMember k := by
  unfold objectPatternMember
  refine .peekKind fun kind => ?_
  split
  case h_4 => infer_instance
  all_goals exact inferInstanceAs (Thrifty .notClosing k _ k)

instance : Thrifty ahead k objectPattern k := by
  unfold objectPattern
  infer_instance

instance : Thrifty ahead k arrayPattern k := by
  unfold arrayPattern
  infer_instance

instance : Thrifty ahead k destructuringPattern k := by
  unfold destructuringPattern
  infer_instance

instance : Thrifty ahead k destructuringAssignment k := by
  unfold destructuringAssignment
  infer_instance

end Assignments

/-! ### Operators -/

section Operations
variable {ahead : Ahead} {k : Nat}

instance : Thrifty .notClosing k unaryOperation k := by
  unfold unaryOperation
  infer_instance

instance : Thrifty ahead k privateMembership k := by
  unfold privateMembership
  infer_instance

instance : Thrifty .notClosing k ifTernary k := by
  unfold ifTernary
  infer_instance

instance : Thrifty ahead k unary k := by
  unfold unary
  refine .peekKind fun kind => ?_
  split
  case h_8 => infer_instance
  all_goals exact inferInstanceAs (Thrifty .notClosing k _ k)

theorem of_binaryOperator {kind : TokenKind} {binding : Nat × Associativity}
    (h : (binaryOperator? kind).bind Operator.binding? = some binding) : Ahead.of kind = .notClosing := by
  unfold binaryOperator? at h
  split at h <;> first | rfl | cases h

instance (least : Nat) (left : Node) : Thrifty ahead k (operateOn least left) k := by
  unfold operateOn
  have : Thrifty ahead k (peekKind >>= fun kind =>
      match (binaryOperator? kind).bind Operator.binding? with
      | none => pure (.done left)
      | some binding => if binding.1 < least then pure (.done left) else do
        let o ← bump
        let right ← descend (.binary (leastAfter binding))
        return .more (← node .binaryExpression
          #[left.withField .left, o.withField .operator, right.withField .right]) :
        Parse (Round Node)) k := by
    refine .peekKind fun kind => ?_
    split
    · infer_instance
    · rw [of_binaryOperator ‹_›]
      infer_instance
  infer_instance

instance (least : Nat) : Thrifty ahead k (binary least) k := by
  unfold binary
  infer_instance

end Operations

/-! ### Statements -/

section Statements
variable {ahead : Ahead} {k : Nat}

instance : Thrifty .notClosing k initializer k := by
  unfold initializer
  infer_instance

set_option synthInstance.maxSize 256 in
instance : Thrifty .notClosing k variableDeclaration k := by
  unfold variableDeclaration
  infer_instance

instance : Thrifty ahead k enumMember k := by
  unfold enumMember
  infer_instance

instance : Thrifty .notClosing k enumDeclaration k := by
  unfold enumDeclaration
  dsimp only
  infer_instance

instance : Thrifty ahead k alternative k := by
  unfold alternative
  infer_instance

instance : Thrifty .notClosing k elseBranch k := by
  unfold elseBranch
  infer_instance

instance : Thrifty .notClosing k ifStatement k := by
  unfold ifStatement
  infer_instance

instance : Thrifty .notClosing k returnStatement k := by
  unfold returnStatement
  infer_instance

instance : Thrifty .notClosing k breakStatement k := by
  unfold breakStatement
  infer_instance

instance : Thrifty ahead k expressionStatement k := by
  have (start : Span) (value : Node) : Thrifty .anything k (match value.kind? with
      | some .assignmentExpression => pure value
      | some .callExpression => do node .callStatement #[value, ← expectOrMissing .semicolon]
      | _ => throw ⟨.notAStatement, start.merge value.span⟩ : Parse Node) k := by
    split <;> infer_instance
  unfold expressionStatement
  infer_instance

instance : Thrifty ahead k anyStatement k := by
  unfold anyStatement
  refine .peekKind fun kind => ?_
  split
  case h_9 | h_11 => infer_instance
  all_goals exact inferInstanceAs (Thrifty .notClosing k _ k)

end Statements

/-! ### Levels -/

instance (goal : Goal) : Thrifty (.before goal) 0 (production goal) 0 := by
  cases goal <;> (unfold production; infer_instance)

/-- Nothing that is parsed, however deep, closes a brace that it has not opened. -/
theorem level_saving (tokens : Array Token) (maxDepth levels : Nat) :
    Saving ⟨tokens, level tokens maxDepth levels⟩ := by
  induction levels with
  | zero => exact fun _ _ _ => Affords.refl
  | succ levels ih =>
    exact fun goal s hready => Thrifty.saves (m := production goal) _ ih s hready

end ScriptTree.Parsing
