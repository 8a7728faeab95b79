import Mathlib
import ScriptTree.Proofs.Mirror.Literals

/-! Statements that may fail, and what follows them, in two runs. -/
namespace ScriptTree.Parsing

variable {W : World} {S : Stage W} {s t : State}

/-! ### Statements that may fail -/

/-- What recovery gives, and where. -/
theorem run_recover (scope : Scope) {start : Nat} (mark : Nat) (problem : Problem)
    (hinside : World.resumption scope.tokens start s.position < scope.tokens.size) :
    ∃ o s', recover start mark problem scope s = .ok o s' ∧
      Same (World.resumed scope.tokens start s problem) s' ∧
      o = World.damage? scope.tokens start
        (World.resumption scope.tokens start s.position) := by
  let stop := World.resumption scope.tokens start s.position
  let skipped : State := ⟨stop, s.problems.push problem, s.made.shrink mark⟩
  have hrun : recover start mark problem scope s = errorNode? start stop scope skipped := rfl
  rw [hrun]
  by_cases hlt : start < stop
  · have hreads : Reads scope none (errorNode? start skipped.position) skipped _ :=
      errorNode?_reads hlt
    have hreads := hreads nofun hinside
    cases hnode : errorNode? start stop scope skipped with
    | error e s' =>
      rw [show errorNode? start skipped.position scope skipped = _ from hnode] at hreads
      obtain ⟨_, _, h, _⟩ := hreads
      cases h
    | ok o s' =>
      rw [show errorNode? start skipped.position scope skipped = _ from hnode] at hreads
      refine ⟨o, s', rfl, hreads.2.2, ?_⟩
      rw [World.damage?, if_pos hlt]
      exact hreads.2.1
  · refine ⟨none, skipped, ?_, ⟨rfl, rfl⟩, (if_neg hlt).symm⟩
    unfold errorNode?
    rw [if_pos (Nat.not_lt.mp hlt)]
    rfl

theorem run_statementOrError_ok {scope : Scope} {n : Node} {s' : State}
    (h : statement scope s = .ok n s') : statementOrError scope s = .ok (some n) s' := by
  show tryCatch (some <$> statement) (recover s.position s.made.size) scope s = _
  rw [map_eq_pure_bind]
  simp only [tryCatch, tryCatchThe, MonadExceptOf.tryCatch, EStateM.tryCatch, run_bind_ok h]
  rfl

theorem run_statementOrError_error {scope : Scope} {e : Problem} {s' : State}
    (h : statement scope s = .error e s') :
    statementOrError scope s = recover s.position s.made.size e scope s' := by
  show tryCatch (some <$> statement) (recover s.position s.made.size) scope s = _
  rw [map_eq_pure_bind]
  simp only [tryCatch, tryCatchThe, MonadExceptOf.tryCatch, EStateM.tryCatch, run_bind_error h]
  rfl

theorem World.Coherent.resumption_lt (hW : W.Coherent) (haligned : W.aligned s t) (start : Nat) :
    resumption W.left start s.position < W.left.size ∧
      resumption W.right start t.position < W.right.size := by
  have hinside := hW.inside haligned
  exact ⟨resumeFrom_lt hW.streamLeft hinside.1, resumeFrom_lt hW.streamRight (by omega)⟩

theorem dies_of_recover (hS : S.Coherent) {start mark : Nat} {problem : Problem}
    (hdead : ¬W.live (s.report problem)) : Dies S W.Live (recover start mark problem) s := by
  let stop := World.resumption W.left start s.position
  let skipped : State := ⟨stop, s.problems.push problem, s.made.shrink mark⟩
  have hlater : Later W.left (s.report problem) skipped := .of_problems le_resumeFrom rfl
  have hskipped : ¬W.live skipped := fun hlive => hdead (hS.world.alive hlater hlive)
  exact dies_of_dead hS (m := errorNode? start stop) (s := skipped) hskipped

/-- A statement, or the damage in its place. -/
theorem statementOrError_mirrors (hS : S.Coherent) :
    Mirrors S W.Live statementOrError s statementOrError t fun o _ o' =>
      Option.Rel W.like o o' := by
  refine .of_aligned fun haligned => ?_
  have hstatement : Mirrors S W.Live statement s statement t W.Nodes := descend_mirrors hS trivial
  have hstatement := hstatement haligned
  have hleads := Composed.onward (m := statement) hS.deepens s
  cases hrun : statement S.left s with
  | ok n s₁ =>
    intro _
    rw [hrun] at hstatement
    rw [run_statementOrError_ok hrun]
    intro hlive
    obtain ⟨n', t₁, hrun', haligned', hn⟩ := hstatement hlive
    exact ⟨some n', t₁, run_statementOrError_ok hrun', haligned', .some hn⟩
  | error e s₁ =>
    rw [hrun] at hleads hstatement
    by_cases hlive : W.live (s₁.report e)
    · obtain ⟨e', t₁, hrun', haligned', hproblem⟩ := hstatement hlive
      have hinside := hS.world.resumption_lt haligned'
      obtain ⟨o, s₂, hleft, hsame, ho⟩ := run_recover S.left s.made.size e
        (hinside s.position).1
      obtain ⟨o', t₂, hright, hsame', ho'⟩ := run_recover S.right t.made.size
        e' (hinside t.position).2
      intro _
      rw [run_statementOrError_error hrun, hleft]
      intro hends
      have hresumed : W.live (World.resumed W.left s.position s₁ e) :=
        hS.world.alive (.of_problems hsame.1.ge hsame.2) hends
      have hrecovered :=
        hS.world.recovered haligned haligned' hleads.1.le hproblem hleads.2 hlive hresumed
      refine ⟨o', t₂, (run_statementOrError_error hrun').trans hright,
        hS.world.same hrecovered.aligned hsame hsame', ?_⟩
      rw [ho, ho']
      exact hrecovered.damage
    · refine .of_dies ?_
      unfold Dies
      rw [run_statementOrError_error hrun]
      exact dies_of_recover hS hlive

/-- In front of a pending mark, no statement is read, and none fails. -/
theorem dies_of_statementOrError (hS : S.Coherent)
    (hreal : kindAt W.left s.position ≠ .endOfFile) (hpending : ¬W.Clear s) :
    Dies S W.Live statementOrError s := by
  have hdies : Dies S W.Live statement s := dies_of_forward hS hreal hpending
  unfold Dies at hdies ⊢
  cases hrun : statement S.left s with
  | ok n s₁ =>
    rw [hrun] at hdies
    rw [run_statementOrError_ok hrun]
    exact hdies
  | error e s₁ =>
    rw [hrun] at hdies
    rw [run_statementOrError_error hrun]
    exact dies_of_recover hS hdies

/-! ### Sequences of statements -/

/-- Where statements stop: where nothing is pending, or in a block where the brace that ends it is. -/
def World.Resting (W : World) (inBlock : Bool) (_ : Array Node) (s : State) : Prop :=
  W.live s ∧ (W.Clear s ∨ inBlock = true ∧ W.pending s = some .rightBrace)

instance (inBlock : Bool) : Vital W (W.Resting inBlock) := ⟨And.left⟩

theorem keepStatement_composed (children : Array Node) (o : Option Node) : Composed (match o with
    | some n => Pure.pure (.more (children.push n))
    | none => Pure.pure (.more children) : Parse (Round (Array Node))) := by
  cases o <;> infer_instance

theorem statements_mirrors (hS : S.Coherent) {inBlock : Bool} {children children' : Array Node}
    (h : W.Alike children children') :
    Mirrors S (W.Resting inBlock) (statements inBlock children) s (statements inBlock children') t
      W.Lists := by
  have := keepStatement_composed
  unfold statements
  refine repeatFrom_mirrors (R := W.Lists) hS h fun children s₁ children' t₁ h => ?_
  refine .of_aligned fun haligned => ?_
  rw [mirrors_atEnd_bind]
  by_cases hclear : W.Clear s₁
  · have hlike := hS.world.kindLike haligned hclear
    refine .ite (by simp [hlike.eq_endOfFile]) (fun _ => .pure (.done h)) fun hend => ?_
    rw [mirrors_sees_bind, hlike.isPunctuation_eq]
    refine .ite Iff.rfl (fun _ => .pure (.done h)) fun _ => ?_
    have hreal : kindAt W.left s₁.position ≠ .endOfFile := by simpa using hend
    have hreads : Reads S.left (some s₁.position) statementOrError s₁ _ :=
      statementOrError_reads hS.sound hreal
    refine ((statementOrError_mirrors hS).reading hS hreads).bind hS fun o s₂ o' t₂ hboth => ?_
    obtain ⟨ho, n, hn, hgives, _⟩ := hboth
    cases ho with
    | none => cases hn
    | some ho => exact .pure ⟨h.push ho, fun _ _ => (Option.some.inj hn ▸ hgives).lt⟩
  · obtain ⟨mark, hmark⟩ := Option.ne_none_iff_exists'.mp hclear
    obtain ⟨hright, hkinds⟩ := hS.world.ahead haligned hmark
    by_cases hrest : inBlock = true ∧ W.pending s₁ = some .rightBrace
    · -- The left statements are over, and so are the right ones, as the brace is there.
      obtain rfl : mark = .rightBrace := Option.some.inj (hmark.symm.trans hrest.2)
      obtain ⟨-, hend⟩ := hkinds.resolve_left (by simp)
      rw [hend, hright]
      refine fun haligned _ => ⟨.done children', t₁, ?_, haligned, .done h⟩
      show (if (inBlock && (kindAt W.right t₁.position).isPunctuation .rightBrace) = true then _
        else _ : Parse (Round (Array Node))) S.right t₁ = _
      rw [hright, hrest.1]
      rfl
    · -- Wherever the left statements stop, it does not count, and none can be read.
      have hstop : ¬W.Resting inBlock children s₁ := fun hends => hends.2.elim hclear hrest
      refine .of_dies (.ite (fun _ => hstop) fun hend => ?_)
      rw [dies_sees_bind]
      refine .ite (fun _ => hstop) fun _ => ?_
      have hdies := dies_of_statementOrError hS (by simpa using hend) hclear
      exact hdies.bind fun _ _ hdead => dies_of_dead hS hdead

theorem block_mirrors (hS : S.Coherent) {ends : Node → State → Prop} [Vital W ends] :
    Mirrors S ends block s block t W.Nodes := by
  unfold block
  refine (expect_mirrors hS).bind hS fun opening s₁ opening' t₁ hopening => ?_
  refine (statements_mirrors hS (.cons hopening .nil)).bindTo
    (fun children s₂ children' t₂ _ h => ?_) fun children s₂ hends => ?_
  · exact (expectOrMissing_mirrors hS).bind hS fun closing s₃ closing' t₃ hclosing =>
      node_mirrors hS (h.push hclosing) (by simp)
  · by_cases hlive : W.live s₂
    · have hclear : ¬W.Clear s₂ := fun hclear => hends ⟨hlive, .inl hclear⟩
      have hother : W.pending s₂ ≠ some .rightBrace := fun h => hends ⟨hlive, .inr ⟨rfl, h⟩⟩
      have hdies : Dies S W.Live (expectOrMissing .rightBrace) s₂ :=
        dies_of_expectOrMissing hS hclear hother
      exact hdies.bind fun _ _ hdead => dies_of_dead hS hdead
    · exact dies_of_dead hS hlive

end ScriptTree.Parsing
