import Mathlib
import ScriptTree.Proofs.Mirror.Recovery
import ScriptTree.Proofs.Parsing.Match

/-! The productions of functions and match expressions in two runs. -/
namespace ScriptTree.Parsing

variable {W : World} {S : Stage W} {s t : State} {ends : Node → State → Prop} [Vital W ends]

/-! ### Functions -/

theorem parameter_mirrors (hS : S.Coherent) : Mirrors S ends parameter s parameter t W.Nodes := by
  have hellipsis := telling_mark .ellipsis (by decide)
  have hcolon := telling_mark .colon (by decide)
  unfold parameter
  rw [mirrors_sees_bind]
  refine (optionally_mirrors hS hellipsis fun _ hkind => ?_).bind hS
    fun spread s₁ spread' t₁ hspread => ?_
  · exact (bump_mirrors hS (hellipsis.real_of hkind)).bind hS fun dots s₁ dots' t₁ hdots =>
      .pure (.cons (hS.world.withField _ hdots) .nil)
  refine (expectIdentifier_mirrors hS rfl).bind hS fun name s₂ name' t₂ hname => ?_
  rw [mirrors_sees_bind]
  refine demand_mirrors hS hcolon fun _ _ => ?_
  refine (typeAscription_mirrors hS).bind hS fun type s₃ type' t₃ htype => ?_
  exact node_mirrors hS (hspread.append (.cons (hS.world.withField _ hname)
    (.cons (hS.world.withField _ htype) .nil))) (by simp)

theorem parameters_mirrors (hS : S.Coherent) :
    Mirrors S ends parameters s parameters t W.Nodes :=
  listOf_mirrors hS (fun _ => parameter_reads hS.sound) fun _ _ => parameter_mirrors hS

theorem returnType_mirrors (hS : S.Coherent) :
    Mirrors S ends returnType s returnType t W.Nodes := by
  unfold returnType
  rw [mirrors_sees_bind]
  refine demand_mirrors hS (telling_mark .colon (by decide)) fun _ _ => ?_
  exact (typeAscription_mirrors hS).bind hS fun type s₁ type' t₁ htype =>
    .pure (hS.world.withField _ htype)

theorem mirrors_opensObject_bind {β β' : Type} {ends : β → State → Prop}
    {R : β → State → β' → Prop} {f : Bool → Parse β} {f' : Bool → Parse β'} :
    Mirrors S ends (opensObject >>= f) s (opensObject >>= f') t R ↔
      Mirrors S ends (f (World.opens W.left s.position)) s (f' (World.opens W.right t.position)) t R :=
  Iff.rfl

theorem blockOrExpression_mirrors (hS : S.Coherent) :
    Mirrors S ends blockOrExpression s blockOrExpression t W.Nodes := by
  have hbrace := telling_mark .leftBrace (by decide)
  unfold blockOrExpression
  rw [mirrors_sees_bind, mirrors_opensObject_bind]
  refine .fork hS (fun haligned hclear => ?_) (fun mark hmark hright => ?_) (fun hc => ?_)
    (fun _ _ => block_mirrors hS) fun _ => expression_mirrors hS
  · rw [← hbrace.like (hS.world.kindLike haligned hclear)]
    cases hkind : (kindAt W.left s.position).isPunctuation .leftBrace with
    | false => exact Iff.rfl
    | true => rw [(hS.world.foreseen haligned hclear).opens (isPunctuation_iff.mp hkind)]
  · rw [hright, hbrace.marks mark hmark]
    exact Bool.false_ne_true
  · exact hbrace.real_of (Bool.and_eq_true_iff.mp hc).1

theorem functionDeclaration_mirrors (hS : S.Coherent)
    (hreal : kindAt W.left s.position ≠ .endOfFile) :
    Mirrors S ends functionDeclaration s functionDeclaration t W.Nodes := by
  unfold functionDeclaration
  refine (bump_mirrors hS hreal).bind hS fun word s₁ word' t₁ hword => ?_
  refine (expectIdentifier_mirrors hS rfl).bind hS fun name s₂ name' t₂ hname => ?_
  refine (parameters_mirrors hS).bind hS fun parameters s₃ parameters' t₃ hparameters => ?_
  refine (returnType_mirrors hS).bind hS fun type s₄ type' t₄ htype => ?_
  refine (block_mirrors hS).bind hS fun body s₅ body' t₅ hbody => ?_
  exact node_mirrors hS (.cons hword (.cons hname (.cons hparameters (.cons htype
    (.cons (hS.world.withField _ hbody) .nil))))) (by simp)

theorem anonymousFunction_mirrors (hS : S.Coherent)
    (hreal : kindAt W.left s.position ≠ .endOfFile) :
    Mirrors S ends anonymousFunction s anonymousFunction t W.Nodes := by
  unfold anonymousFunction
  refine (bump_mirrors hS hreal).bind hS fun word s₁ word' t₁ hword => ?_
  refine (parameters_mirrors hS).bind hS fun parameters s₂ parameters' t₂ hparameters => ?_
  refine (returnType_mirrors hS).bind hS fun type s₃ type' t₃ htype => ?_
  refine (block_mirrors hS).bind hS fun body s₄ body' t₄ hbody => ?_
  exact node_mirrors hS (.cons hword (.cons hparameters (.cons htype
    (.cons (hS.world.withField _ hbody) .nil)))) (by simp)

theorem arrowFunction_mirrors (hS : S.Coherent) :
    Mirrors S ends arrowFunction s arrowFunction t W.Nodes := by
  unfold arrowFunction
  refine (parameters_mirrors hS).bind hS fun parameters s₁ parameters' t₁ hparameters => ?_
  refine (returnType_mirrors hS).bind hS fun type s₂ type' t₂ htype => ?_
  refine (expect_mirrors hS).bind hS fun arrow s₃ arrow' t₃ harrow => ?_
  refine (blockOrExpression_mirrors hS).bind hS fun body s₄ body' t₄ hbody => ?_
  exact node_mirrors hS (.cons hparameters (.cons htype (.cons harrow
    (.cons (hS.world.withField _ hbody) .nil)))) (by simp)

/-! ### Integers -/

theorem parenthesized_mirrors (hS : S.Coherent) :
    Mirrors S ends parenthesized s parenthesized t W.Nodes := by
  unfold parenthesized
  refine (expect_mirrors hS).bind hS fun opening s₁ opening' t₁ hopening => ?_
  refine (expression_mirrors hS).bind hS fun inner s₂ inner' t₂ hinner => ?_
  exact (expect_mirrors hS).bind hS fun closing s₃ closing' t₃ hclosing =>
    node_mirrors hS (.cons hopening (.cons hinner (.cons hclosing .nil))) (by simp)

theorem requireInteger_mirrors (hS : S.Coherent) {ends : Unit → State → Prop} {token token' : Token}
    (h : W.TokenLike token token') :
    Mirrors S ends (requireInteger token) s (requireInteger token') t fun _ s' _ =>
      s' = s ∧ token.kind ≠ .endOfFile := by
  obtain ⟨kind, span⟩ := token
  obtain ⟨kind', span'⟩ := token'
  have hlike : KindLike kind kind' := h.kind
  have hnumber {text text' : String} (hdigits : text.all Char.isDigit = text'.all Char.isDigit)
      (hkind : kind = .number text) :
      Mirrors S ends (if text.all Char.isDigit then pure () else throw ⟨.notAnInteger, span⟩) s
        (if text'.all Char.isDigit then pure () else throw ⟨.notAnInteger, span'⟩) t
        fun _ s' _ => s' = s ∧ kind ≠ .endOfFile := by
    rw [hdigits]
    refine .ite Iff.rfl (fun _ => .pure ⟨rfl, ?_⟩) fun _ => .throws (h.blamed _)
    rw [hkind]
    exact nofun
  unfold requireInteger
  cases hlike with
  | refl =>
    dsimp only
    split
    · exact hnumber rfl rfl
    · exact unexpected_mirrors hS
  | number hdigits => exact hnumber hdigits rfl
  | identifier | string | regex => exact unexpected_mirrors hS

/-- What is no number is not an integer, whether the sign in front touches it or not. -/
theorem demand_requireInteger {α : Type} {token : Token} {touching : Bool} {rest : Parse α}
    (h : ¬∃ text, token.kind = .number text) :
    (do demand touching .number; requireInteger token; rest) = unexpected .number := by
  cases touching with
  | false => rfl
  | true =>
    have hfails : requireInteger token = unexpected .number := by
      unfold requireInteger
      split
      · exact absurd ⟨_, ‹_›⟩ h
      · rfl
    show (requireInteger token >>= fun _ => rest) = _
    rw [hfails]
    rfl

/-- Reading two tokens as one leaf. -/
theorem run_mergedLeaf (scope : Scope) (hreal : kindAt scope.tokens s.position ≠ .endOfFile)
    (hnext : kindAt scope.tokens (s.position + 1) ≠ .endOfFile) :
    ∃ s', (advance >>= fun sign => advance >>= fun number =>
        leaf (.named .number) (sign.span.merge number.span)) scope s =
      .ok (.leaf (.named .number) ((spanAt scope.tokens s.position).merge
        (spanAt scope.tokens (s.position + 1)))) s' ∧
      Same { s with position := s.position + 2 } s' := by
  rw [run_bind_ok (run_advance hreal), run_bind_ok (run_advance hnext)]
  exact ⟨_, rfl, rfl, rfl⟩

theorem signedInteger_mirrors (hS : S.Coherent) :
    Mirrors S ends signedInteger s signedInteger t W.Nodes := by
  refine .fresh hS (signedInteger_reads hS.world.streamLeft) (fun _ _ h => h.lt) fun hclear => ?_
  refine .of_aligned fun haligned => ?_
  have hlike := hS.world.token haligned hclear
  have hsigns : isSign (tokenAt W.left s.position).kind = isSign (tokenAt W.right t.position).kind :=
    hlike.kind.isSign_eq
  unfold signedInteger
  rw [mirrors_peek_bind, ← hsigns]
  refine .ite Iff.rfl (fun hsign => ?_) fun _ => ?_
  · obtain ⟨hnext, htouching, hmerged⟩ := (hS.world.foreseen haligned hclear).signed hsign
    rw [mirrors_tokenAhead_bind]
    by_cases hnumber : ∃ text, kindAt W.left (s.position + 1) = .number text
    swap
    · have hnumber' : ¬∃ text, kindAt W.right (t.position + 1) = .number text :=
        hnext.kind.isNumber_iff.not.mp hnumber
      rw [demand_requireInteger hnumber, demand_requireInteger hnumber']
      exact unexpected_mirrors hS
    have htouching : ((tokenAt W.left s.position).span.stop ==
      (tokenAt W.left (s.position + 1)).span.start) = _ := htouching hnumber
    rw [htouching]
    refine (demand_same_mirrors hS).bindStill hS fun _ _ _ => ?_
    refine (requireInteger_mirrors hS hnext).bindStill hS fun _ _ ⟨_, hreal'⟩ => ?_
    -- Both tokens are there; they become one leaf.
    have hreal := isSign_ne_endOfFile hsign
    intro _
    obtain ⟨s', hrun, hsame⟩ := run_mergedLeaf S.left hreal hreal'
    obtain ⟨t', hrun', hsame'⟩ := run_mergedLeaf (s := t) S.right
      (hlike.kind.eq_endOfFile.not.mp hreal) (hnext.kind.eq_endOfFile.not.mp hreal')
    rw [hrun]
    intro hends
    refine ⟨_, t', hrun', ?_, hmerged⟩
    have hlive := hS.world.live_of_same hsame (Vital.live (W := W) hends)
    have hpast : Past W.left { s with position := s.position + 1 }
        { s with position := s.position + 2 } := .of_problems (Nat.le_refl _) rfl
    have hfirst := hS.world.advance haligned hclear hreal
      (hS.world.alive (hpast.mono (Nat.le_succ _)) hlive)
    exact hS.world.same (hS.world.advance hfirst (hS.world.settle hpast hlive) hreal' hlive) hsame
      hsame'
  · refine (requireInteger_mirrors hS hlike).bind hS ?_
    rintro _ s' _ t' ⟨rfl, hreal⟩
    exact bump_mirrors hS hreal

/-! ### Conditions -/

theorem integerCondition_mirrors (hS : S.Coherent) :
    Mirrors S ends integerCondition s integerCondition t W.Nodes := by
  have hdots := telling_mark .dotDot (by decide)
  unfold integerCondition
  refine (signedInteger_mirrors hS).bind hS fun first s₁ first' t₁ hfirst => ?_
  rw [mirrors_sees_bind]
  refine .branch hS hdots (fun _ hkind => ?_) fun _ => .pure hfirst
  refine (bump_mirrors hS (hdots.real_of hkind)).bind hS fun dots s₂ dots' t₂ hdots => ?_
  refine (signedInteger_mirrors hS).bind hS fun last s₃ last' t₃ hlast => ?_
  exact node_mirrors hS (.cons (hS.world.withField _ hfirst) (.cons hdots
    (.cons (hS.world.withField _ hlast) .nil))) (by simp)

section Conditions
variable {children children' : Array Node} {ends : Array Node → State → Prop} [Vital W ends]

theorem pathCondition_mirrors (hS : S.Coherent) (h : W.Alike children children')
    (hreal : kindAt W.left s.position ≠ .endOfFile) :
    Mirrors S ends (pathCondition children) s (pathCondition children') t W.Lists := by
  unfold pathCondition
  refine (bump_mirrors hS hreal).bind hS fun first s₁ first' t₁ hfirst => ?_
  refine (gather_mirrors hS (h.push (hS.world.withField _ hfirst))
    fun children s₂ children' t₂ h => ?_).vital
  rw [mirrors_sees_bind, mirrors_kindAhead_bind]
  refine .branchTwo hS (by decide) (by decide) (·.isIdentifier_eq) (fun hkind hnext => ?_)
    (.pure (.done h))
  have hreal : kindAt W.left s₂.position ≠ .endOfFile := by simp [hkind]
  refine .advancing hS hreal ?_
  refine (bump_next_mirrors hS hreal).bind hS fun point s₃ point' t₃ ⟨hpoint, hsame⟩ => ?_
  refine (bump_mirrors hS ?_).bind hS fun name s₄ name' t₄ hname => .pure ?_
  · rw [hsame.1]
    exact telling_identifier.real_of hnext
  · exact h.append (.cons (hS.world.withField _ hpoint) (.cons (hS.world.withField _ hname) .nil))

theorem condition_mirrors (hS : S.Coherent) (h : W.Alike children children') :
    Mirrors S ends (condition children) s (condition children') t W.Lists := by
  have hadd {m m' : Parse Node} [Composed m] (hm : Mirrors S W.Live m s m' t W.Nodes) :
      Mirrors S ends (m >>= fun n => pure (children.push (n.withField .condition))) s
        (m' >>= fun n => pure (children'.push (n.withField .condition))) t W.Lists :=
    hm.bind hS fun _ _ _ _ hn => .pure (h.push (hS.world.withField _ hn))
  refine .of_clear (fun _ hpending => ?_) fun hclear => .of_aligned fun haligned => ?_
  · by_cases hend : kindAt W.left s.position = .endOfFile
    · unfold condition
      rw [dies_peekKind_bind, hend]
      exact dies_of_unexpected hS hpending
    · exact dies_of_forward hS hend hpending
  have hlike := hS.world.kindLike haligned hclear
  unfold condition
  rw [mirrors_peekKind_bind]
  generalize hkind : kindAt W.left s.position = kind at hlike
  generalize hkind' : kindAt W.right t.position = kind' at hlike
  cases hlike with
  | refl =>
    split
    · exact hadd (integerCondition_mirrors hS)
    · exact hadd (integerCondition_mirrors hS)
    · exact hadd (integerCondition_mirrors hS)
    · exact hadd (stringLiteral_mirrors hS hclear hkind hkind')
    · exact pathCondition_mirrors hS h (by simp [hkind])
    · split
      · exact hadd (bumpAs_mirrors hS (hkind.trans_ne (literalKind_real ‹_›)))
      · exact unexpected_mirrors hS
  | identifier => exact pathCondition_mirrors hS h (by simp [hkind])
  | number => exact hadd (integerCondition_mirrors hS)
  | string => exact hadd (stringLiteral_mirrors hS hclear hkind hkind')
  | regex => exact unexpected_mirrors hS

theorem conditions_mirrors (hS : S.Coherent) (h : W.Alike children children') :
    Mirrors S ends (conditions children) s (conditions children') t W.Lists := by
  have hcomma := telling_mark .comma (by decide)
  unfold conditions
  refine (condition_mirrors hS h).bind hS fun more s₁ more' t₁ h => ?_
  refine (gather_mirrors hS h fun children s₂ children' t₂ h => ?_).vital
  rw [mirrors_sees_bind]
  refine .branch hS hcomma (fun _ hkind => ?_) fun _ => .pure (.done h)
  have hreal := hcomma.real_of hkind
  refine .advancing hS hreal ((bump_mirrors hS hreal).bind hS fun comma s₃ comma' t₃ hlast => ?_)
  exact (condition_mirrors hS (h.push (hS.world.withField _ hlast))).bind hS
    fun more s₄ more' t₄ hmore => .pure hmore

end Conditions

/-! ### Cases -/

theorem matchCase_mirrors (hS : S.Coherent) (hreal : kindAt W.left s.position ≠ .endOfFile) :
    Mirrors S ends matchCase s matchCase t W.Nodes := by
  unfold matchCase
  refine (bump_mirrors hS hreal).bind hS fun word s₁ word' t₁ hword => ?_
  refine (conditions_mirrors hS (.cons hword .nil)).bind hS fun children s₂ children' t₂ h => ?_
  refine (expect_mirrors hS).bind hS fun colon s₃ colon' t₃ hcolon => ?_
  refine (blockOrExpression_mirrors hS).bind hS fun body s₄ body' t₄ hbody => ?_
  refine (expectOrMissing_mirrors hS).bind hS fun stop s₅ stop' t₅ hstop => ?_
  exact node_mirrors hS (h.append (.cons hcolon (.cons (hS.world.withField _ hbody)
    (.cons hstop .nil)))) (by simp)

theorem matchElse_mirrors (hS : S.Coherent) (hreal : kindAt W.left s.position ≠ .endOfFile) :
    Mirrors S ends matchElse s matchElse t W.Nodes := by
  unfold matchElse
  refine (bump_mirrors hS hreal).bind hS fun word s₁ word' t₁ hword => ?_
  refine (expect_mirrors hS).bind hS fun colon s₂ colon' t₂ hcolon => ?_
  refine (blockOrExpression_mirrors hS).bind hS fun body s₃ body' t₃ hbody => ?_
  refine (expectOrMissing_mirrors hS).bind hS fun stop s₄ stop' t₄ hstop => ?_
  exact node_mirrors hS (.cons hword (.cons hcolon (.cons (hS.world.withField _ hbody)
    (.cons hstop .nil)))) (by simp)

theorem matchExpression_mirrors (hS : S.Coherent)
    (hreal : kindAt W.left s.position ≠ .endOfFile) :
    Mirrors S ends matchExpression s matchExpression t W.Nodes := by
  have hcase := telling_word .caseWord
  have helse := telling_word .elseWord
  unfold matchExpression
  refine (bump_mirrors hS hreal).bind hS fun word s₁ word' t₁ hword => ?_
  refine (parenthesized_mirrors hS).bind hS fun value s₂ value' t₂ hvalue => ?_
  refine (expect_mirrors hS).bind hS fun opening s₃ opening' t₃ hopening => ?_
  refine (gather_mirrors hS .nil fun cases s₄ cases' t₄ h => ?_).bind hS
    fun cases s₄ cases' t₄ hcases => ?_
  · rw [mirrors_seesWord_bind]
    refine .branch hS hcase (fun _ hkind => ?_) fun _ => .pure (.done h)
    have hreal := hcase.real_of hkind
    exact .advancing hS hreal ((matchCase_mirrors hS hreal).bind hS fun body s₅ body' t₅ hbody =>
      .pure (h.push (hS.world.withField _ hbody)))
  rw [mirrors_seesWord_bind]
  refine (optionally_mirrors hS helse fun _ hkind => ?_).bind hS
    fun fallback s₅ fallback' t₅ hfallback => ?_
  · exact (matchElse_mirrors hS (helse.real_of hkind)).bind hS fun body s₅ body' t₅ hbody =>
      .pure (.cons (hS.world.withField _ hbody) .nil)
  refine (expect_mirrors hS).bind hS fun closing s₆ closing' t₆ hclosing => ?_
  have hhead : W.Alike #[word, value.withField .value, opening.withField .body]
      #[word', value'.withField .value, opening'.withField .body] :=
    .cons hword (.cons (hS.world.withField _ hvalue) (.cons (hS.world.withField _ hopening) .nil))
  exact node_mirrors hS (((hhead.append hcases).append hfallback).append
    (.cons (hS.world.withField _ hclosing) .nil)) (by simp)

end ScriptTree.Parsing
