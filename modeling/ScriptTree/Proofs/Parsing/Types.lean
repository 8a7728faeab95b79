import Mathlib
import ScriptTree.Proofs.Parsing.Primitives

/-! What the productions of types give. -/
namespace ScriptTree.Parsing

variable {scope : Scope} {b : Nat} {s : State}

/-- A literal word as a leaf of its kind. -/
theorem literalKind_reads (hs : IsStream scope.tokens) {literal : NodeKind}
    (h : literalKind? (kindAt scope.tokens s.position) = some literal) :
    Reads scope (some b) (bumpAs literal) s (Gives scope.tokens Role.literals s) := by
  rw [literalKind?.eq_def] at h
  split at h <;> cases h <;>
    exact (bumpAs_reads hs ‹_› rfl).mono fun n s' hn => hn.mono (by decide)

theorem tupleType_reads (hs : Sound scope)
    (h : kindAt scope.tokens s.position = .punctuation .leftBracket) :
    Reads scope (some b) tupleType s (Gives scope.tokens (Role.plain [.tupleType]) s) := by
  unfold tupleType
  refine (bump_reads hs.stream h rfl).bind fun opening s₁ hopening => ?_
  refine (Reads.gather (Role.types ++ Role.mark .comma) hopening.plain
    fun children s₂ hchildren => ?_).bind fun children s₂ hchildren => ?_
  · rw [reads_sees_bind]
    refine .ite (fun _ => .pure hchildren) fun _ => ?_
    refine (type_reads hs).bind fun t s₃ ht => ?_
    have hpush := hchildren.push ht (List.subset_append_left _ _)
    simp only
    rw [reads_sees_bind]
    refine .ite (fun hcomma => ?_) fun _ => .pure hpush
    refine (bump_reads hs.stream (isPunctuation_iff.mp hcomma) rfl).bind fun comma s₄ hcomma => ?_
    exact .pure ⟨hpush.push hcomma (List.subset_append_right _ _), ht.lt.trans hcomma.lt⟩
  · refine closing_reads hs.stream hchildren (fun items last hitems hlast => ?_) rfl
    show Matches _ (opening :: (items ++ [last]))
    exact .one hopening.role (.many hitems (.one hlast .nil))

/-- The names of the builtin types stand in trees as words. -/
theorem primitiveWord_mem {name : String} {word : Keyword} (h : primitiveType? name = some word) :
    (none, Symbol.keyword word) ∈ Role.primitiveWords := by
  have := Option.filter_eq_some_iff.mp h
  refine List.mem_append_left _ (List.mem_map.mpr ⟨word, List.mem_filter.mpr ⟨?_, this.2⟩, rfl⟩)
  cases word <;> decide

theorem primitiveType_readsAs {name : String} {word : Keyword}
    (h : primitiveType? name = some word) : readsAs (.identifier name) (.keyword word) = true :=
  (Option.filter_eq_some_iff.mp h).2

theorem typeAtom_reads (hs : Sound scope) :
    Reads scope (some b) typeAtom s (Gives scope.tokens Role.types s) := by
  have hprimitive : ∀ {n s₁}, Gives scope.tokens (Role.primitiveWords ++ Role.literals) s n s₁ →
      Reads scope (some b) (node .primitiveType #[n]) s₁ (Gives scope.tokens Role.types s) :=
    fun hn => node_reads_as hn.plain (.one hn.role .nil) (by simp) (.free rfl) (by decide)
  unfold typeAtom
  rw [reads_peekKind_bind]
  split
  · rename_i name hname
    split
    · rename_i word hword
      refine (bumpSymbol_reads hs.stream hname (primitiveType_readsAs hword)).bind fun n s₁ hn =>
        hprimitive ?_
      refine hn.mono fun role hrole => List.mem_append_left _ ?_
      rw [List.mem_singleton.mp hrole]
      exact primitiveWord_mem hword
    · exact (bumpAs_reads hs.stream hname rfl).mono fun n s' hn => hn.mono (by decide)
  · refine (bump_reads hs.stream ‹_› rfl).bind fun n s₁ hn => hprimitive ?_
    exact hn.mono (by decide)
  · exact (tupleType_reads hs ‹_›).mono fun n s' hn => hn.mono (by decide)
  · split
    · refine (literalKind_reads hs.stream ‹_›).bind fun n s₁ hn => hprimitive ?_
      exact hn.mono (List.subset_append_right _ _)
    · exact unexpected_reads hs.stream

theorem postfixType_reads (hs : Sound scope) :
    Reads scope (some b) postfixType s (Gives scope.tokens Role.types s) := by
  unfold postfixType
  refine (typeAtom_reads hs).bind fun t s₁ ht => Reads.loop _ ht fun t s₁ ht => ?_
  rw [reads_sees_bind, reads_kindAhead_bind]
  refine .ite (fun hbrackets => ?_) fun _ => ?_
  · rw [Bool.and_eq_true] at hbrackets
    refine (bump_next hs.stream (isPunctuation_iff.mp hbrackets.1) rfl).bind
      fun opening s₂ ⟨hopening, hnext⟩ => ?_
    refine (bump_reads hs.stream (hnext ▸ isPunctuation_iff.mp hbrackets.2) rfl).bind
      fun closing s₃ hclosing => ?_
    refine Reads.again (node_reads_as ((ht.plain.append hopening.plain).append hclosing.plain) ?_
      (by simp) (.free rfl) (by decide))
      (hopening.lt.trans hclosing.lt)
    exact .one ht.role (.one hopening.role (.one hclosing.role .nil))
  · rw [reads_sees_bind]
    refine .ite (fun hquestion => ?_) fun _ => .pure ht
    refine (bump_reads hs.stream (isPunctuation_iff.mp hquestion) rfl).bind fun mark s₂ hmark => ?_
    exact Reads.again (node_reads_as (ht.plain.append hmark.plain)
      (.one ht.role (.one hmark.role .nil)) (by simp) (.free rfl) (by decide)) hmark.lt

theorem firstOperand_reads (hs : Sound scope) :
    Reads scope (some b) firstOperand s (Gives scope.tokens Role.types s) := by
  unfold firstOperand
  rw [reads_seesOperator_bind]
  refine .ite (fun hbar => ?_) fun _ => postfixType_reads hs
  refine (bump_reads hs.stream (isOperator_iff.mp hbar) rfl).bind fun bar s₁ hbar => ?_
  refine (postfixType_reads hs).bind fun right s₂ hright => ?_
  exact node_reads_as (hbar.plain.append hright.plain)
    (.absent (.one hbar.role (.one hright.role .nil))) (by simp) (.free rfl) (by decide)

theorem unionType_reads (hs : Sound scope) :
    Reads scope (some b) unionType s (Gives scope.tokens Role.types s) := by
  unfold unionType
  refine (firstOperand_reads hs).bind fun left s₁ hleft => Reads.loop _ hleft fun left s₁ hleft => ?_
  rw [reads_seesOperator_bind]
  refine .ite (fun hbar => ?_) fun _ => .pure hleft
  refine (bump_reads hs.stream (isOperator_iff.mp hbar) rfl).bind fun bar s₂ hbar => ?_
  refine (postfixType_reads hs).bind fun right s₃ hright => ?_
  exact Reads.again (node_reads_as ((hleft.plain.append hbar.plain).append hright.plain)
    (.present hleft.role (.one hbar.role (.one hright.role .nil)))
    (by simp) (.free rfl) (by decide)) (hbar.lt.trans hright.lt)

theorem typeAscription_reads (hs : Sound scope) :
    Reads scope (some b) typeAscription s (Gives scope.tokens (Role.plain [.typeAscription]) s) := by
  unfold typeAscription
  refine (expect_reads hs.stream .colon).bind fun colon s₁ hcolon => ?_
  refine (type_reads hs).bind fun t s₂ ht => ?_
  have ht := ht.label .type
  exact node_reads (hcolon.plain.append ht.plain) (.one hcolon.role (.one ht.role .nil))
    (by simp) (.free rfl)

end ScriptTree.Parsing
