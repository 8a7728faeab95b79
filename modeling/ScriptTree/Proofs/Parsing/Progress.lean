import Mathlib
import ScriptTree.Proofs.Parsing.Forward

/-! Parsing always gets on.

In front of the end every production fails (`Balks`), and in front of any other token it reads that
token first (`Forward`), so what gives a value has read something (`consumes`). A statement that may
fail never does, and reads a token either way (`statementOrError_progresses`). No step passes the
end (`level_proceeds`). All that is asked of the tokens is that the end is the last of them and no
other. -/
namespace ScriptTree.Parsing

/-! ### Damage as it is made -/

section Damage
variable {scope : Scope} {s s' : State}

/-- What is kept of the leaf of a skipped token. -/
def builtLeaf (token : Token) : Built :=
  ⟨symbolOf token.kind, token.span, none, false, false, []⟩

theorem leaves_eq (tokens : List Token) (s : State) :
    (tokens.mapM (fun token => leaf (symbolOf token.kind) token.span) : Parse (List Node)) scope s =
      .ok (tokens.map skippedLeaf)
        { s with made := s.made ++ (tokens.map builtLeaf).toArray } := by
  induction tokens generalizing s with
  | nil =>
    rw [List.mapM_nil, List.map_nil, List.map_nil, Array.append_empty]
    rfl
  | cons token tokens ih =>
    have hleaf : (leaf (symbolOf token.kind) token.span : Parse Node) scope s =
      .ok (skippedLeaf token) { s with made := s.made.push (builtLeaf token) } := rfl
    rw [List.mapM_cons, run_bind_ok hleaf, run_bind_ok (ih _), List.map_cons, List.map_cons]
    have hmade : s.made.push (builtLeaf token) ++ (tokens.map builtLeaf).toArray =
        s.made ++ (builtLeaf token :: tokens.map builtLeaf).toArray :=
      Array.toList_inj.mp (by simp)
    show EStateM.Result.ok _ _ = _
    rw [hmade]

/-- The leaves of skipped tokens, as they are kept. -/
def builtLeaves (tokens : Array Token) (start stop : Nat) : Array Built :=
  ((tokens.extract start stop).toList.map builtLeaf).toArray

theorem errorNode?_eq {start stop : Nat} (h : start < stop) (s : State) :
    errorNode? start stop scope s =
      let damage := damageOver scope.tokens start stop
      .ok (some damage)
        { s with made := keep (s.made ++ builtLeaves scope.tokens start stop) damage } := by
  have hread : (read : Parse Scope) scope s = .ok scope s := rfl
  unfold errorNode?
  rw [if_neg (Nat.not_le.mpr h), run_bind_ok hread, run_bind_ok (leaves_eq _ s)]
  rfl

/-- A statement that may fail is that statement, or what is skipped in its place. -/
theorem statementOrError_eq (scope : Scope) (s : State) :
    statementOrError scope s =
      match scope.deeper .statement s with
      | .ok n s' => .ok (some n) s'
      | .error problem s' => errorNode? s.position (s.resumed scope.tokens s' problem).position scope
          (s.resumed scope.tokens s' problem) := by
  show tryCatch (some <$> statement) (recover s.position s.made.size) scope s = _
  rw [map_eq_pure_bind]
  simp only [tryCatch, tryCatchThe, MonadExceptOf.tryCatch, EStateM.tryCatch, Bind.bind,
    ReaderT.bind, EStateM.bind, statement, descend]
  cases scope.deeper .statement s <;> rfl

/-- Behind a statement that fails, at least its first token is skipped. -/
theorem lt_resumed {tokens : Array Token} (hle : s.position ≤ s'.position)
    (hreal : kindAt tokens s.position ≠ .endOfFile) (problem : Problem) :
    s.position < (s.resumed tokens s' problem).position := by
  rcases hle.eq_or_lt with heq | hlt
  · refine heq.trans_lt (lt_resumeFrom ?_ (heq ▸ hreal) (.inl heq.symm))
    exact heq ▸ lt_size_of_real hreal
  · exact hlt.trans_le le_resumeFrom

/-- Whether or not a statement fails, its first token has been read. -/
instance : Forward statementOrError where
  passes scope hdeep hurge s hreal := by
    have hpasses := hurge .statement s hreal
    have hleads := hdeep .statement s
    rw [statementOrError_eq]
    cases hrun : scope.deeper .statement s with
    | ok n s' =>
      rw [hrun] at hpasses
      exact hpasses
    | error problem s' =>
      rw [hrun] at hpasses hleads
      have hskip := lt_resumed hleads.1.le hreal problem
      dsimp only
      rw [errorNode?_eq hskip]
      obtain ⟨ps, hps, hmarks⟩ := hpasses
      refine ⟨hskip, ps ++ [problem], by simp [State.resumed, hps], fun p hp hmissing => ?_⟩
      rcases List.mem_append.mp hp with hp | hp
      · obtain ⟨j, hj, hstop, hspan⟩ := hmarks p hp hmissing
        exact ⟨j, hj, hstop.trans le_resumeFrom, hspan⟩
      · rw [List.mem_singleton.mp hp] at hmissing
        exact absurd hmissing hleads.2

end Damage

/-! ### Where steps end -/

/-- Whether a state among the tokens is followed by one that is, and that is not in front of it. -/
def Proceeds (tokens : Array Token) (s s' : State) : Prop :=
  s.position < tokens.size → s.position ≤ s'.position ∧ s'.position < tokens.size

/-- The parts of productions stay among the tokens if what is parsed deeper down does. -/
theorem EndsOnce.proceeds {scope : Scope} (hends : EndsOnce scope.tokens)
    (hdeep : ∀ goal s, Leads (Proceeds scope.tokens) (fun _ => True) s (scope.deeper goal s)) :
    Respected scope (Proceeds scope.tokens) fun _ => True where
  refl _ h := ⟨Nat.le_refl _, h⟩
  trans _ _ _ h h' hlt := by
    obtain ⟨hle, hlt'⟩ := h hlt
    obtain ⟨hle', hlt''⟩ := h' hlt'
    exact ⟨hle.trans hle', hlt''⟩
  advance _ hreal h := ⟨Nat.le_succ _, hends.succ_lt h hreal⟩
  make _ _ h := ⟨Nat.le_refl _, h⟩
  missing _ _ _ h := ⟨Nat.le_refl _, h⟩
  throw _ _ _ := trivial
  deeper := hdeep
  recover s problem s' hrun h := by
    have hleads := hdeep .statement s
    rw [hrun] at hleads
    obtain ⟨hle, hlt⟩ := hleads.1 h
    exact ⟨hle.trans le_resumeFrom, hends.resumeFrom_lt hlt⟩

theorem level_proceeds {tokens : Array Token} (hends : EndsOnce tokens) (maxDepth levels : Nat) :
    Respected ⟨tokens, level tokens maxDepth levels⟩ (Proceeds tokens) fun _ => True :=
  level_respected (fun _ h => ⟨Nat.le_refl _, h⟩) (fun _ => trivial)
    (fun _ hdeep => hends.proceeds hdeep) levels

/-! ### In front of the end -/

def Fails {α : Type} : EStateM.Result Problem State α → Prop
  | .ok _ _ => False
  | .error _ _ => True

/-- What holds of a scope whose tokens end: steps stay among them, and what is parsed one level deeper
fails in front of the end. -/
structure Closing (scope : Scope) : Prop where
  ends : EndsOnce scope.tokens
  proceeds : Respected scope (Proceeds scope.tokens) fun _ => True
  fails : ∀ goal s, s.position + 1 = scope.tokens.size → Fails (scope.deeper goal s)

/-- Steps that fail in front of the end. -/
class Balks {α : Type} (m : Parse α) : Prop where
  fails : ∀ scope, Closing scope → ∀ s, s.position + 1 = scope.tokens.size → Fails (m scope s)

theorem Closing.kind_eq {scope : Scope} (h : Closing scope) {s : State}
    (hs : s.position + 1 = scope.tokens.size) : kindAt scope.tokens s.position = .endOfFile :=
  (h.ends.endOfFile _ (by omega)).mpr hs

namespace Balks
variable {α β : Type}

instance throw (problem : Problem) : Balks (throw problem : Parse α) := ⟨fun _ _ _ _ => trivial⟩

instance unexpected (what : Expected) : Balks (unexpected what : Parse α) :=
  ⟨fun _ _ _ _ => trivial⟩

instance descend (goal : Goal) : Balks (descend goal) := ⟨fun _ h s hs => h.fails goal s hs⟩

instance first (m : Parse α) (f : α → Parse β) [hm : Balks m] : Balks (m >>= f) where
  fails scope h s hs := by
    have hfails := hm.fails scope h s hs
    cases hrun : m scope s with
    | ok a s' =>
      rw [hrun] at hfails
      exact hfails.elim
    | error e s' =>
      rw [run_bind_error hrun]
      trivial

/-- At the end, no step leads away from it. -/
instance (priority := low) next (m : Parse α) (f : α → Parse β) [Composed m]
    [hf : ∀ a, Balks (f a)] : Balks (m >>= f) where
  fails scope h s hs := by
    have hleads := Composed.leads (m := m) h.proceeds s
    cases hrun : m scope s with
    | ok a s' =>
      rw [hrun] at hleads
      obtain ⟨hle, hlt⟩ := hleads (by omega)
      rw [run_bind_ok hrun]
      exact (hf a).fails scope h s' (by omega)
    | error e s' =>
      rw [run_bind_error hrun]
      trivial

/-- What a step looks at in front of the end. -/
theorem look {m : Parse α} {f : α → Parse β} (seen : TokenKind → α)
    (hm : ∀ scope s, m scope s = .ok (seen (kindAt scope.tokens s.position)) s)
    (hf : Balks (f (seen .endOfFile))) : Balks (m >>= f) where
  fails scope h s hs := by
    rw [run_bind_ok (hm scope s), h.kind_eq hs]
    exact hf.fails scope h s hs

theorem peekKind {f : TokenKind → Parse β} (hf : Balks (f .endOfFile)) :
    Balks (peekKind >>= f) :=
  look id (fun _ _ => rfl) hf

instance sees (mark : Punctuation) (f : Bool → Parse β) [hf : Balks (f false)] :
    Balks (sees mark >>= f) :=
  look (·.isPunctuation mark) (fun _ _ => rfl) hf

instance seesOperator (o : Operator) (f : Bool → Parse β) [hf : Balks (f false)] :
    Balks (seesOperator o >>= f) :=
  look (·.isOperator o) (fun _ _ => rfl) hf

instance otherwise (m m' : Parse α) [h : Balks m'] : Balks (if false = true then m else m') := h

end Balks

section Productions

instance (mark : Punctuation) : Balks (expect mark) := by
  unfold expect
  infer_instance

instance : Balks expression := inferInstanceAs (Balks (descend _))

instance : Balks type := inferInstanceAs (Balks (descend _))

instance : Balks statement := inferInstanceAs (Balks (descend _))

instance : Balks typeAtom := by
  unfold typeAtom
  exact .peekKind (inferInstanceAs (Balks (unexpected .type)))

instance : Balks postfixType := by
  unfold postfixType
  infer_instance

instance : Balks firstOperand := by
  unfold firstOperand
  infer_instance

instance : Balks unionType := by
  unfold unionType
  infer_instance

instance : Balks block := by
  unfold block
  infer_instance

instance : Balks parenthesized := by
  unfold parenthesized
  infer_instance

instance : Balks primaryContent := by
  unfold primaryContent
  exact .peekKind (inferInstanceAs (Balks (unexpected .expression)))

instance : Balks primary := by
  unfold primary
  infer_instance

instance : Balks operand := by
  unfold operand
  infer_instance

instance : Balks target := by
  unfold target
  exact .peekKind (inferInstanceAs (Balks (operand >>= _)))

instance : Balks patternContent := by
  unfold patternContent
  infer_instance

instance : Balks pattern := by
  unfold pattern
  infer_instance

set_option synthInstance.maxSize 256 in
instance (kind : NodeKind) (opening closing : Punctuation) (item : Parse Node) [Composed item] :
    Balks (listOf kind opening closing item) := by
  unfold listOf
  dsimp only
  infer_instance

instance : Balks objectPattern := by
  unfold objectPattern
  infer_instance

instance : Balks arrayPattern := by
  unfold arrayPattern
  infer_instance

instance : Balks unary := by
  unfold unary
  exact .peekKind (inferInstanceAs (Balks (operand >>= _)))

instance (least : Nat) : Balks (binary least) := by
  unfold binary
  infer_instance

instance : Balks ifStatement := by
  unfold ifStatement
  infer_instance

instance : Balks expressionStatement := by
  unfold expressionStatement
  infer_instance

instance : Balks anyStatement := by
  unfold anyStatement
  exact .peekKind (inferInstanceAs (Balks expressionStatement))

instance (goal : Goal) : Balks (production goal) := by
  cases goal <;> (unfold production; infer_instance)

end Productions

theorem level_closing {tokens : Array Token} (hends : EndsOnce tokens) (maxDepth levels : Nat) :
    Closing ⟨tokens, level tokens maxDepth levels⟩ := by
  refine ⟨hends, level_proceeds hends maxDepth levels, ?_⟩
  induction levels with
  | zero => exact fun _ _ _ => trivial
  | succ levels ih =>
    exact fun goal s => Balks.fails (m := production goal) _
      ⟨hends, level_proceeds hends maxDepth levels, ih⟩ s

/-! ### What reads something -/

section Consuming
variable {tokens : Array Token} {maxDepth levels : Nat} {s s' : State}

/-- What gives a value among the tokens has read one. -/
theorem consumes {α : Type} {m : Parse α} [Forward m] [Balks m] (hends : EndsOnce tokens) {a : α}
    (hs : s.position < tokens.size) (h : m ⟨tokens, level tokens maxDepth levels⟩ s = .ok a s') :
    s.position < s'.position := by
  by_cases hend : s.position + 1 = tokens.size
  · have hfails := Balks.fails (m := m) _ (level_closing hends maxDepth levels) s hend
    rw [h] at hfails
    exact hfails.elim
  · have hpasses := Forward.passes (m := m) _ (level_deepens tokens maxDepth levels)
      (level_urges tokens maxDepth levels) s (mt (hends.endOfFile _ hs).mp hend)
    rw [h] at hpasses
    exact hpasses.le

/-- A statement that may fail does not, and reads a token in any case. -/
theorem statementOrError_progresses (hends : EndsOnce tokens)
    (hreal : kindAt tokens s.position ≠ .endOfFile) :
    ∃ n s', statementOrError ⟨tokens, level tokens maxDepth levels⟩ s = .ok (some n) s' ∧
      s.position < s'.position ∧ s'.position < tokens.size := by
  have hs := lt_size_of_real hreal
  have hleads := (level_proceeds hends maxDepth levels).deeper .statement s
  rw [statementOrError_eq]
  cases hrun : (⟨tokens, level tokens maxDepth levels⟩ : Scope).deeper .statement s with
  | ok n s' =>
    rw [hrun] at hleads
    exact ⟨n, s', rfl, consumes (m := statement) hends hs hrun, (hleads hs).2⟩
  | error problem s' =>
    rw [hrun] at hleads
    have hskip := lt_resumed (hleads.1 hs).1 hreal problem
    exact ⟨_, _, errorNode?_eq hskip _, hskip, hends.resumeFrom_lt (hleads.1 hs).2⟩

end Consuming

end ScriptTree.Parsing
