import Mathlib
import ScriptTree.Proofs.Mirror.Primitives
import ScriptTree.Proofs.Parsing.Types

/-! The productions of types in two runs. -/
namespace ScriptTree.Parsing

variable {W : World} {S : Stage W} {s t : State} {ends : Node → State → Prop} [Vital W ends]

/-! ### Going deeper -/

theorem descend_mirrors (hS : S.Coherent) {goal : Goal}
    (hready : goal.Ready (kindAt W.left s.position)) :
    Mirrors S ends (descend goal) s (descend goal) t W.Nodes :=
  .fresh hS (hS.sound.deeper goal s.position s hready) (fun _ _ h => h.1.lt)
    fun hclear => (hS.descend goal s t hready hclear).vital

theorem expression_mirrors (hS : S.Coherent) :
    Mirrors S ends expression s expression t W.Nodes := descend_mirrors hS trivial

theorem type_mirrors (hS : S.Coherent) : Mirrors S ends type s type t W.Nodes :=
  descend_mirrors hS trivial

/-! ### Types -/

theorem tupleType_mirrors (hS : S.Coherent) (hreal : kindAt W.left s.position ≠ .endOfFile) :
    Mirrors S ends tupleType s tupleType t W.Nodes := by
  unfold tupleType
  dsimp only
  refine (bump_mirrors hS hreal).bind hS fun opening s₁ opening' t₁ hopening => ?_
  refine collect_mirrors hS (.cons hopening .nil) fun children s₂ children' t₂ h => ?_
  exact unlessClosing_mirrors hS h (dies_of_item hS (type_reads hS.sound))
    (addItem_mirrors hS h (type_reads hS.sound) (type_mirrors hS))

theorem literalKind_real {kind : TokenKind} {literal : NodeKind}
    (h : literalKind? kind = some literal) : kind ≠ .endOfFile := by
  rintro rfl
  cases h

theorem typeAtom_mirrors (hS : S.Coherent) : Mirrors S ends typeAtom s typeAtom t W.Nodes := by
  refine .fresh hS (typeAtom_reads hS.sound) (fun _ _ h => h.lt) fun hclear => ?_
  refine .of_aligned fun haligned => ?_
  have hlike := hS.world.kindLike haligned hclear
  have hprimitive : ∀ {n s₁ n' t₁}, W.like n n' →
      Mirrors S ends (node .primitiveType #[n]) s₁ (node .primitiveType #[n']) t₁ W.Nodes :=
    fun hn => node_mirrors hS (.cons hn .nil) (by simp)
  unfold typeAtom
  rw [mirrors_peekKind_bind]
  generalize hkind : kindAt W.left s.position = kind at hlike
  generalize kindAt W.right t.position = kind' at hlike
  cases hlike with
  | refl =>
    split
    · have hreal : kindAt W.left s.position ≠ .endOfFile := by simp [hkind]
      split
      · exact (bumpSymbol_next_mirrors hS hreal).bind hS fun _ _ _ _ h => hprimitive h.1
      · exact bumpAs_mirrors hS hreal
    · have hreal : kindAt W.left s.position ≠ .endOfFile := by simp [hkind]
      exact (bump_mirrors hS hreal).bind hS fun _ _ _ _ => hprimitive
    · exact tupleType_mirrors hS (by simp [hkind])
    · split
      · have hreal := hkind.trans_ne (literalKind_real ‹_›)
        exact (bumpAs_mirrors hS hreal).bind hS fun _ _ _ _ => hprimitive
      · exact unexpected_mirrors hS
  | identifier h =>
    have hreal : kindAt W.left s.position ≠ .endOfFile := by simp [hkind]
    dsimp only
    rw [h]
    split
    · exact (bumpSymbol_next_mirrors hS hreal).bind hS fun _ _ _ _ h => hprimitive h.1
    · exact bumpAs_mirrors hS hreal
  | number | string | regex => exact unexpected_mirrors hS

theorem postfixType_mirrors (hS : S.Coherent) :
    Mirrors S ends postfixType s postfixType t W.Nodes := by
  unfold postfixType
  refine (typeAtom_mirrors hS).bind hS fun left s₁ left' t₁ h => ?_
  refine repeatFrom_mirrors (R := W.Nodes) hS h fun left s₂ left' t₂ h => ?_
  rw [mirrors_sees_bind, mirrors_kindAhead_bind]
  refine .branchTwo hS (by decide) (by decide) (·.isPunctuation_eq _) (fun hkind hnext => ?_) ?_
  · have hreal : kindAt W.left s₂.position ≠ .endOfFile := by simp [hkind]
    refine .advancing hS hreal ?_
    refine (bump_next_mirrors hS hreal).bind hS
      fun opening s₃ opening' t₃ ⟨hopening, hsame⟩ => ?_
    refine (bump_mirrors hS ?_).bind hS fun closing s₄ closing' t₄ hclosing => ?_
    · rw [hsame.1, isPunctuation_iff.mp hnext]
      exact nofun
    · exact (node_mirrors hS (.cons h (.cons hopening (.cons hclosing .nil))) (by simp)).bind hS
        fun n s₅ n' t₅ hn => .pure hn
  · rw [mirrors_sees_bind]
    have hquestion := telling_mark .question (by decide)
    refine .branch hS hquestion (fun _ hkind => ?_) fun _ => .pure (.done h)
    have hreal := hquestion.real_of hkind
    refine .advancing hS hreal ((bump_mirrors hS hreal).bind hS fun mark s₃ mark' t₃ hmark => ?_)
    exact (node_mirrors hS (.cons h (.cons hmark .nil)) (by simp)).bind hS
      fun n s₄ n' t₄ hn => .pure hn

theorem firstOperand_mirrors (hS : S.Coherent) :
    Mirrors S ends firstOperand s firstOperand t W.Nodes := by
  unfold firstOperand
  rw [mirrors_seesOperator_bind]
  refine .branch hS (telling_operator _) (fun _ hkind => ?_) fun _ => postfixType_mirrors hS
  refine (bump_mirrors hS ((telling_operator _).real_of hkind)).bind hS
    fun bar s₁ bar' t₁ hbar => ?_
  exact (postfixType_mirrors hS).bind hS fun right s₂ right' t₂ hright =>
    node_mirrors hS (.cons hbar (.cons hright .nil)) (by simp)

theorem unionType_mirrors (hS : S.Coherent) : Mirrors S ends unionType s unionType t W.Nodes := by
  unfold unionType
  refine (firstOperand_mirrors hS).bind hS fun left s₁ left' t₁ h => ?_
  refine repeatFrom_mirrors (R := W.Nodes) hS h fun left s₂ left' t₂ h => ?_
  rw [mirrors_seesOperator_bind]
  refine .branch hS (telling_operator _) (fun _ hkind => ?_) fun _ => .pure (.done h)
  have hreal := (telling_operator _).real_of hkind
  refine .advancing hS hreal ((bump_mirrors hS hreal).bind hS fun bar s₃ bar' t₃ hbar => ?_)
  refine (postfixType_mirrors hS).bind hS fun right s₄ right' t₄ hright => ?_
  refine (node_mirrors hS (.cons h (.cons hbar (.cons hright .nil))) (by simp)).bind hS
    fun n s₅ n' t₅ hn => .pure hn

theorem typeAscription_mirrors (hS : S.Coherent) :
    Mirrors S ends typeAscription s typeAscription t W.Nodes := by
  unfold typeAscription
  refine (expect_mirrors hS).bind hS fun colon s₁ colon' t₁ hcolon => ?_
  exact (type_mirrors hS).bind hS fun n s₂ n' t₂ hn =>
    node_mirrors hS (.cons hcolon (.cons (hS.world.withField _ hn) .nil)) (by simp)

end ScriptTree.Parsing
