import Mathlib
import ScriptTree.Proofs.Mirror.Callables
import ScriptTree.Proofs.Parsing.Operands

/-! The productions of operands in two runs. -/
namespace ScriptTree.Parsing

variable {W : World} {S : Stage W} {s t : State} {ends : Node → State → Prop} [Vital W ends]

/-! ### Primary expressions -/

theorem closesBefore_eq {scope : Scope} (p : TokenKind → Bool) : closesBefore p scope s =
    (match matchingClose? scope.tokens s.position with
      | some i => (do return p (tokenAt scope.tokens (i + 1)).kind : Parse Bool)
      | none => (do return false)) scope s := rfl

theorem run_closesBefore {scope : Scope} (p : TokenKind → Bool) :
    closesBefore p scope s = .ok (World.closes scope.tokens p s.position) s := by
  rw [closesBefore_eq, World.closes]
  cases matchingClose? scope.tokens s.position <;> rfl

theorem mirrors_closesBefore_bind {β β' : Type} {ends : β → State → Prop}
    {R : β → State → β' → Prop} {p : TokenKind → Bool} {f : Bool → Parse β} {f' : Bool → Parse β'} :
    Mirrors S ends (closesBefore p >>= f) s (closesBefore p >>= f') t R ↔
      Mirrors S ends (f (World.closes W.left p s.position)) s
        (f' (World.closes W.right p t.position)) t R := by
  have hleft : (closesBefore p >>= f) S.left s = f (World.closes W.left p s.position) S.left s :=
    run_bind_ok (run_closesBefore p)
  have hright : (closesBefore p >>= f') S.right t =
    f' (World.closes W.right p t.position) S.right t := run_bind_ok (run_closesBefore p)
  unfold Mirrors
  rw [hleft, hright]

theorem primaryContent_mirrors (hS : S.Coherent) :
    Mirrors S ends primaryContent s primaryContent t W.Nodes := by
  refine .fresh hS (primaryContent_reads hS.sound) (fun _ _ h => h.lt) fun hclear => ?_
  refine .of_aligned fun haligned => ?_
  have hlike := hS.world.kindLike haligned hclear
  have hforeseen := hS.world.foreseen haligned hclear
  unfold primaryContent
  rw [mirrors_peekKind_bind]
  generalize hkind : kindAt W.left s.position = kind at hlike
  generalize hkind' : kindAt W.right t.position = kind' at hlike
  cases hlike with
  | refl =>
    split
    · exact bump_mirrors hS (by simp [hkind])
    · exact bump_mirrors hS (by simp [hkind])
    · exact stringLiteral_mirrors hS hclear hkind hkind'
    · exact regexLiteral_mirrors hS hclear hkind hkind'
    · have hnext := hforeseen.next (by rw [hkind]; decide)
      rw [mirrors_kindAhead_bind, hnext.isPunctuation_eq]
      exact .ite Iff.rfl (fun _ => anonymousFunction_mirrors hS (by simp [hkind]))
        fun _ => unexpected_mirrors hS
    · exact matchExpression_mirrors hS (by simp [hkind])
    · exact comptimeIdentifier_mirrors hS (by simp [hkind])
    · exact templateString_mirrors hS (by simp [hkind])
    · rw [mirrors_closesBefore_bind, hforeseen.closes (by rw [hkind]; rfl) _ (by simp)]
      exact .ite Iff.rfl (fun _ => arrowFunction_mirrors hS) fun _ => parenthesized_mirrors hS
    · exact arrayLiteral_mirrors hS (by simp [hkind])
    · exact objectLiteral_mirrors hS (by simp [hkind])
    · split
      · exact bumpAs_mirrors hS (hkind.trans_ne (literalKind_real ‹_›))
      · exact unexpected_mirrors hS
  | identifier => exact bump_mirrors hS (by simp [hkind])
  | number => exact bump_mirrors hS (by simp [hkind])
  | string => exact stringLiteral_mirrors hS hclear hkind hkind'
  | regex => exact regexLiteral_mirrors hS hclear hkind hkind'

theorem primary_mirrors (hS : S.Coherent) : Mirrors S ends primary s primary t W.Nodes := by
  unfold primary
  exact (primaryContent_mirrors hS).bind hS fun n s₁ n' t₁ hn =>
    node_mirrors hS (.cons hn .nil) (by simp)

/-! ### Calls and members -/

theorem argument_mirrors (hS : S.Coherent) : Mirrors S ends argument s argument t W.Nodes := by
  have hellipsis := telling_mark .ellipsis (by decide)
  unfold argument
  rw [mirrors_sees_bind]
  refine .branch hS hellipsis (fun _ hkind => ?_) fun _ => expression_mirrors hS
  refine (bump_mirrors hS (hellipsis.real_of hkind)).bind hS fun dots s₁ dots' t₁ hdots => ?_
  exact (expression_mirrors hS).bind hS fun value s₂ value' t₂ hvalue =>
    node_mirrors hS (.cons hdots (.cons hvalue .nil)) (by simp)

theorem arguments_mirrors (hS : S.Coherent) : Mirrors S ends arguments s arguments t W.Nodes :=
  listOf_mirrors hS (fun _ => argument_reads hS.sound) fun _ _ => argument_mirrors hS

section Extensions
variable {operand operand' : Node}

theorem requirePrimary_mirrors (hS : S.Coherent) {ends : Unit → State → Prop}
    (h : W.like operand operand') :
    Mirrors S ends (requirePrimary operand) s (requirePrimary operand') t fun _ _ _ => True := by
  unfold requirePrimary
  rw [hS.world.kind h]
  refine .ite Iff.rfl (fun _ => .pure trivial) fun _ => ?_
  rw [mirrors_peek_bind]
  exact .fail hS nofun fun haligned hclear => (hS.world.token haligned hclear).blamed _

theorem accessMark_mirrors (hS : S.Coherent) (hreal : kindAt W.left s.position ≠ .endOfFile) :
    Mirrors S ends accessMark s accessMark t W.Nodes := by
  have hchain := telling_mark .questionDot (by decide)
  unfold accessMark
  rw [mirrors_sees_bind]
  refine .branch hS hchain (fun _ hkind => ?_) fun _ => bump_mirrors hS hreal
  exact (bumpAs_mirrors hS hreal).bind hS fun n s₁ n' t₁ hn => .pure (hS.world.withField _ hn)

theorem propertyName_mirrors (hS : S.Coherent) :
    Mirrors S ends propertyName s propertyName t W.Nodes := by
  unfold propertyName
  rw [mirrors_sees_bind]
  exact .branch hS (telling_mark .hash (by decide)) (fun _ _ => privateName_mirrors hS)
    fun _ => expectIdentifier_mirrors hS rfl

theorem member_mirrors (hS : S.Coherent) (h : W.like operand operand')
    (hreal : kindAt W.left s.position ≠ .endOfFile) :
    Mirrors S ends (member operand) s (member operand') t W.Nodes := by
  unfold member
  refine (accessMark_mirrors hS hreal).bind hS fun mark s₁ mark' t₁ hmark => ?_
  refine (propertyName_mirrors hS).bind hS fun property s₂ property' t₂ hproperty => ?_
  exact node_mirrors hS (.cons (hS.world.withField _ h) (.cons hmark
    (.cons (hS.world.withField _ hproperty) .nil))) (by simp)

theorem call_mirrors (hS : S.Coherent) (h : W.like operand operand') :
    Mirrors S ends (call operand) s (call operand') t W.Nodes := by
  unfold call
  exact (arguments_mirrors hS).bind hS fun arguments s₁ arguments' t₁ harguments =>
    node_mirrors hS (.cons (hS.world.withField _ h) (.cons (hS.world.withField _ harguments) .nil))
      (by simp)

theorem optionalCall_mirrors (hS : S.Coherent) (h : W.like operand operand')
    (hreal : kindAt W.left s.position ≠ .endOfFile) :
    Mirrors S ends (optionalCall operand) s (optionalCall operand') t W.Nodes := by
  unfold optionalCall
  refine (requirePrimary_mirrors hS h).bindStill hS fun _ _ _ => ?_
  refine (bumpAs_mirrors hS hreal).bind hS fun chain s₁ chain' t₁ hchain => ?_
  refine (arguments_mirrors hS).bind hS fun arguments s₂ arguments' t₂ harguments => ?_
  exact node_mirrors hS (.cons (hS.world.withField _ h) (.cons (hS.world.withField _ hchain)
    (.cons (hS.world.withField _ harguments) .nil))) (by simp)

theorem access_mirrors (hS : S.Coherent) (h : W.like operand operand')
    (hreal : kindAt W.left s.position ≠ .endOfFile) :
    Mirrors S ends (access operand) s (access operand') t W.Nodes := by
  unfold access
  refine (requirePrimary_mirrors hS h).bindStill hS fun _ _ _ => ?_
  exact (member_mirrors hS h hreal).bind hS fun n s₁ n' t₁ hn =>
    node_mirrors hS (.cons hn .nil) (by simp)

/-- A call or member access is read where nothing is pending; in front of a pending mark, the operand
ends on both sides. -/
theorem extend_mirrors (hS : S.Coherent) (h : W.like operand operand') :
    Mirrors S (W.Between ends) (extend operand) s (extend operand') t
      (Abreast s W.Nodes W.Nodes) := by
  have hmore {m m' : Parse Node} [Composed m] [Forward m]
      (hreal : kindAt W.left s.position ≠ .endOfFile) (hm : Mirrors S W.Live m s m' t W.Nodes) :
      Mirrors S (W.Between ends) (m >>= fun n => pure (.more n)) s (m' >>= fun n => pure (.more n))
        t (Abreast s W.Nodes W.Nodes) :=
    .advancing hS hreal (hm.bind hS fun _ _ _ _ hn => .pure hn)
  refine .of_aligned fun haligned => ?_
  unfold extend
  rw [mirrors_peekKind_bind]
  by_cases hclear : W.Clear s
  · have hlike := hS.world.kindLike haligned hclear
    have hforeseen := hS.world.foreseen haligned hclear
    generalize hkind : kindAt W.left s.position = kind at hlike
    generalize hkind' : kindAt W.right t.position = kind' at hlike
    cases hlike with
    | refl =>
      split
      · exact hmore (by simp [hkind]) (call_mirrors hS h)
      · have hreal : kindAt W.left s.position ≠ .endOfFile := by simp [hkind]
        have hnext := hforeseen.next (by rw [hkind]; decide)
        rw [mirrors_kindAhead_bind, hnext.isPunctuation_eq]
        exact .ite Iff.rfl (fun _ => hmore hreal (optionalCall_mirrors hS h hreal))
          fun _ => hmore hreal (access_mirrors hS h hreal)
      · have hreal : kindAt W.left s.position ≠ .endOfFile := by simp [hkind]
        exact hmore hreal (access_mirrors hS h hreal)
      · exact .pure (.done h)
    | identifier | number | string | regex => exact .pure (.done h)
  · obtain ⟨mark, hmark⟩ := Option.ne_none_iff_exists'.mp hclear
    obtain ⟨hright, hkinds⟩ := hS.world.ahead haligned hmark
    have hstops : mark = .semicolon ∨ mark = .rightBrace := hkinds.imp_right And.left
    rw [hright]
    generalize hkind : kindAt W.left s.position = kind
    split
    · exact .of_dies (dies_of_forward hS (by simp [hkind]) hclear)
    · exact .of_dies (dies_of_forward hS (by simp [hkind]) hclear)
    · exact .of_dies (dies_of_forward hS (by simp [hkind]) hclear)
    · rcases hstops with rfl | rfl <;> exact .pure (.done h)

theorem operand_mirrors (hS : S.Coherent) :
    Mirrors S ends Parsing.operand s Parsing.operand t W.Nodes := by
  unfold Parsing.operand
  exact (primary_mirrors hS).bind hS fun first s₁ first' t₁ hfirst =>
    repeatFrom_mirrors (R := W.Nodes) hS hfirst fun _ _ _ _ h => extend_mirrors hS h

end Extensions

end ScriptTree.Parsing
