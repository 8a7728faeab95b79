import Mathlib
import ScriptTree.Proofs.Parsing.Composed
import ScriptTree.Proofs.Parsing.Literals

/-! What recovery gives: a statement, or damage that a report accounts for.

A statement that fails takes back its nodes but not its reports. What it has read is then skipped,
and more up to where parsing resumes, so that the problem that made it fail starts within the
damage or right behind it (`recover_reads`). Sequences of statements never fail themselves. -/
namespace ScriptTree.Parsing

variable {scope : Scope} {entry : Option Nat} {b : Nat} {s s₀ : State}

/-! ### Statements that may fail -/

theorem resumesBefore_sign {d : Depth} {kind : TokenKind} (h : isSign kind = true) :
    resumesBefore d kind = false := by
  rw [isSign, Bool.or_eq_true, isOperator_iff, isOperator_iff] at h
  rcases h with rfl | rfl <;> simp [resumesBefore, startsStatement, TokenKind.isPunctuation]

theorem errorNode?_reads {start : Nat} (hlt : start < s.position) :
    Reads scope entry (errorNode? start s.position) s fun o s' =>
      o = some (damageOver scope.tokens start s.position) ∧ Same s s' := by
  unfold errorNode?
  rw [if_neg (Nat.not_le.mpr hlt), reads_read_bind]
  refine (mapM_reads (g := skippedLeaf) (fun token s => leaf_reads) _ s).bind
    fun leaves s₁ ⟨hleaves, hs₁⟩ => ?_
  refine make_reads.bind fun n s₂ ⟨hn, hs₂⟩ => ?_
  subst hleaves hn
  exact .pure ⟨rfl, hs₁.trans hs₂⟩

/-- The problem that made a statement fail stands in the damage or right behind it. -/
theorem Blames.explains {tokens : Array Token} {start position : Nat} {problem : Problem}
    (hs : IsStream tokens) (hposition : position < tokens.size)
    (h : Blames tokens start position problem) (haffords : Affords tokens 0 start 0 position) :
    Explains tokens start (resumeFrom tokens start position (depthBetween tokens start position))
      problem := by
  refine ⟨h.kind, h.after, ?_, position, haffords, rfl⟩
  set d := depthBetween tokens start position
  have hlt : resumeFrom tokens start position d < tokens.size := resumeFrom_lt hs hposition
  rcases h.before with hbefore | ⟨hsign, hbefore⟩
  · exact hbefore.trans (hs.start_le le_resumeFrom hlt)
  · have hreal := isSign_ne_endOfFile hsign
    have hskipped : position < resumeFrom tokens start position d :=
      lt_resumeFrom hposition hreal (.inr (resumesBefore_sign hsign))
    exact hbefore.trans (hs.start_le hskipped hlt)

theorem sheltered_damageOver {tokens : Array Token} {p m : Nat} (hlt : p < m) (hm : m ≤ tokens.size)
    (hopen : kindAt tokens p ≠ .punctuation .rightBrace) : Sheltered (damageOver tokens p m) := by
  intro _ c hc
  rw [damageOver, Node.ofChildren, extract_eq_cons hlt hm] at hc
  obtain rfl := Option.some.inj hc
  exact fun hsymbol => hopen (eq_of_symbolOf hsymbol)

/-- A statement that fails becomes damage. -/
theorem recover_reads (hs : IsStream scope.tokens) {mark : Nat} {problem : Problem} {s' : State}
    (hreal : kindAt scope.tokens s.position ≠ .endOfFile) (h : Advances scope.tokens s s')
    (hblames : Blames scope.tokens s.position s'.position problem)
    (haffords : Affords scope.tokens 0 s.position 0 s'.position) :
    Reads scope entry (recover s.position mark problem) s' fun o s'' =>
      ∃ n, o = some n ∧ Gives scope.tokens Role.recovered s n s'' ∧
        (kindAt scope.tokens s.position ≠ .punctuation .rightBrace → Sheltered n) := by
  unfold recover
  rw [reads_read_bind, reads_get_bind]
  set d := depthBetween scope.tokens s.position s'.position
  set stop := resumeFrom scope.tokens s.position s'.position d
  have hle : s'.position ≤ stop := le_resumeFrom
  have hstop : stop < scope.tokens.size := resumeFrom_lt hs h.lt
  have hlt : s.position < stop := by
    rcases h.le.eq_or_lt with heq | hlt
    · exact heq.trans_lt (lt_resumeFrom h.lt (heq ▸ hreal) (.inl heq.symm))
    · exact hlt.trans_le hle
  refine (modify_reads ⟨hle, hstop, ?_⟩).bind ?_
  · simp only [Array.toList_push]
    exact List.prefix_append _ _
  rintro _ s₁ rfl
  obtain ⟨lost, hlost⟩ := h.problems
  have hdamage : (none, Symbol.named .error) ∈ Role.recovered := by decide
  refine (errorNode?_reads (s := ⟨stop, _, _⟩) hlt).mono fun o s'' ⟨ho, hsame⟩ => ?_
  refine ⟨_, ho, ⟨fun field => ⟨lost ++ [problem], ?_, ?_⟩, hdamage, rfl⟩, ?_⟩
  · rw [hsame.2, Array.toList_push, ← hlost, List.append_assoc]
  · rw [hsame.1]
    refine .damage field hlt (fun i _ hi => hs.real ?_) (hblames.explains hs h.lt haffords) .nil
    exact Nat.lt_of_le_of_lt hi hstop
  · exact fun hopen => sheltered_damageOver hlt hstop.le hopen

/-- A step that may fail, with a way on from every failure. -/
theorem Reads.catch {α : Type} {m : Parse α} {handler : Problem → Parse α} {post : α → State → Prop}
    (h : Reads scope (some s.position) m s post)
    (hhandler : ∀ problem s', m scope s = .error problem s' → Advances scope.tokens s s' →
      Blames scope.tokens s.position s'.position problem →
        Reads scope entry (handler problem) s' post) :
    Reads scope entry (tryCatch m handler) s post := by
  intro hentry hlt
  have hm := h (fun b hb => (Option.some.inj hb).ge) hlt
  cases hrun : m scope s with
  | ok a s' =>
    have hcatch : tryCatch m handler scope s = .ok a s' := by
      simp only [tryCatch, tryCatchThe, MonadExceptOf.tryCatch, EStateM.tryCatch, hrun]
    rw [hrun] at hm
    rw [hcatch]
    exact hm
  | error e s' =>
    have hcatch : tryCatch m handler scope s = handler e scope s' := by
      simp only [tryCatch, tryCatchThe, MonadExceptOf.tryCatch, EStateM.tryCatch, hrun]
      rfl
    rw [hrun] at hm
    obtain ⟨hadvances, _, ⟨⟩, hblames⟩ := hm
    rw [hcatch]
    have hrest := hhandler e s' hrun hadvances hblames
      (fun b hb => (hentry b hb).trans hadvances.le) hadvances.lt
    split at hrest
    · exact ⟨hadvances.trans hrest.1, hrest.2⟩
    · exact ⟨hadvances.trans hrest.1, hrest.2⟩

/-- A statement, or damage in its place; either way something has been read. -/
theorem statementOrError_reads (hs : Sound scope)
    (hreal : kindAt scope.tokens s.position ≠ .endOfFile) :
    Reads scope entry statementOrError s fun o s' =>
      ∃ n, o = some n ∧ Gives scope.tokens Role.recovered s n s' ∧
        (kindAt scope.tokens s.position ≠ .punctuation .rightBrace → Sheltered n) := by
  unfold statementOrError
  rw [reads_get_bind, reads_madeCount_bind, map_eq_pure_bind]
  refine .catch ?_ fun problem s' hrun h hblames => ?_
  · refine (statement_reads hs).bind fun n s' hn => .pure ⟨n, rfl, ?_, fun _ herror => ?_⟩
    · exact hn.mono (List.subset_append_left _ _)
    · have hsound : ∀ role ∈ Role.statements, role.2 ≠ .named .error := by decide
      exact absurd herror (hsound _ hn.role)
  · refine recover_reads hs.stream hreal h hblames (hs.failing s problem s' ?_)
    cases hstatement : statement scope s with
    | ok n s'' =>
      rw [run_bind_ok hstatement] at hrun
      cases hrun
    | error e s'' =>
      rw [run_bind_error hstatement] at hrun
      cases hrun
      exact hstatement

/-! ### Sequences of statements -/

theorem statements_reads (hs : Sound scope) {inBlock : Bool} {children : Array Node}
    (h : Made scope.tokens s₀ s children.toList) :
    Reads scope entry (statements inBlock children) s fun children' s' =>
      Gathers scope.tokens s₀ children.toList Role.recovered children' s' ∧
        (inBlock = true → (∀ c ∈ children, Sheltered c) → ∀ c ∈ children', Sheltered c) ∧
        (kindAt scope.tokens s'.position = .endOfFile ∨
          inBlock = true ∧ kindAt scope.tokens s'.position = .punctuation .rightBrace) := by
  unfold statements
  let inv (children' : Array Node) (s' : State) : Prop :=
    Gathers scope.tokens s₀ children.toList Role.recovered children' s' ∧
      (inBlock = true → (∀ c ∈ children, Sheltered c) → ∀ c ∈ children', Sheltered c)
  have hstart : inv children s := ⟨.start Role.recovered h, fun _ hsheltered => hsheltered⟩
  refine Reads.loop _ hstart fun children s₁ ⟨hchildren, hsheltered⟩ => ?_
  rw [reads_atEnd_bind]
  refine .ite (fun hend => .pure ⟨hchildren, hsheltered, .inl (beq_iff_eq.mp hend)⟩) fun hend => ?_
  rw [beq_iff_eq] at hend
  rw [reads_sees_bind]
  refine .ite (fun hclosing => .pure ⟨hchildren, hsheltered, .inr ?_⟩) fun hopen => ?_
  · rw [Bool.and_eq_true, isPunctuation_iff] at hclosing
    exact hclosing
  · refine (statementOrError_reads hs hend).bind ?_
    rintro _ s₂ ⟨n, rfl, hn, hnew⟩
    refine .pure ⟨⟨hchildren.push hn (List.Subset.refl _), fun hblock hfirst c hc => ?_⟩, hn.lt⟩
    rcases Array.mem_push.mp hc with hc | rfl
    · exact hsheltered hblock hfirst c hc
    · refine hnew fun hclosing => hopen ?_
      rw [Bool.and_eq_true, isPunctuation_iff]
      exact ⟨hblock, hclosing⟩

theorem block_reads (hs : Sound scope) :
    Reads scope (some b) block s (Gives scope.tokens (Role.plain [.blockStatement]) s) := by
  unfold block
  refine (expect_reads hs.stream .leftBrace).bind fun opening s₁ hopening => ?_
  refine (statements_reads hs hopening.plain).bind fun children s₂ ⟨hchildren, hsheltered, hend⟩ => ?_
  refine (expectOrMissing_reads hs.stream (.inr ⟨rfl, hend.imp_right And.right⟩)).bind
    fun closing s₃ ⟨hclosing, hrole, _⟩ => ?_
  obtain ⟨hmade, items, hlist, hroles⟩ := hchildren.close hclosing
  refine node_reads hmade ?_ (by simp) (.block fun c hc => ?_)
  · rw [hlist]
    show Matches _ (opening :: (items ++ [closing]))
    exact .one hopening.role (.many hroles (.one hrole .nil))
  · have hmark {n : Node} {mark : Punctuation} (hn : n.role ∈ Role.mark mark) : Sheltered n := by
      have hsymbol : n.symbol = .punctuation mark := congrArg Prod.snd (List.mem_singleton.mp hn)
      exact fun herror => nomatch hsymbol.symm.trans herror
    rw [Array.toList_push] at hc
    rcases List.mem_append.mp hc with hc | hc
    · refine hsheltered rfl (fun c hc => ?_) c (Array.mem_toList_iff.mp hc)
      rw [List.mem_singleton.mp (Array.mem_toList_iff.mpr hc)]
      exact hmark hopening.role
    · rw [List.mem_singleton.mp hc]
      exact hmark hrole

end ScriptTree.Parsing
