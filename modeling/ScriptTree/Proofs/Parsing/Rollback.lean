import Mathlib
import ScriptTree.Proofs.Building.Programs

/-! What a statement that failed leaves behind.

The statement has taken back what it made (`Building.Spares.shrink`), so what is kept behind it are the
leaves of the skipped tokens and the damage above them. The leaves stand one behind the other
(`leaves_stack`), so the damage lists them in their order, and taking them up changes nothing in them
(`keep_damage`). What is kept never refers to anything behind it, in no state that the parts of
productions lead to (`EndsOnce.sane_respected`). -/
namespace ScriptTree.Parsing

open Building (Pending Stack)

/-! ### The damage as it is kept -/

section Leaves
variable {made : Array Built}

/-- Tokens as children without a field, from an index on. -/
def leavesFrom (first : Nat) : List Token → List (Child × Node)
  | [] => []
  | token :: tokens => ((NodeId.mk first).plain, skippedLeaf token) :: leavesFrom (first + 1) tokens

theorem map_snd_leavesFrom (first : Nat) (tokens : List Token) :
    (leavesFrom first tokens).map Prod.snd = tokens.map skippedLeaf := by
  induction tokens generalizing first with
  | nil => rfl
  | cons token tokens ih => exact congrArg _ (ih (first + 1))

theorem indices_leavesFrom (first : Nat) (tokens : List Token) :
    (leavesFrom first tokens).map (·.1.id.index) = List.range' first tokens.length := by
  induction tokens generalizing first with
  | nil => rfl
  | cons token tokens ih => exact congrArg _ (ih (first + 1))

/-- Leaves that have been made one after the other stand one behind the other. -/
theorem leaves_stack (tokens : List Token) : Stack (made ++ (tokens.map builtLeaf).toArray) made.size
    (made.size + tokens.length) (leavesFrom made.size tokens) := by
  induction tokens generalizing made with
  | nil => exact .nil
  | cons token tokens ih =>
    have hmade : made ++ ((token :: tokens).map builtLeaf).toArray =
        made.push (builtLeaf token) ++ (tokens.map builtLeaf).toArray :=
      Array.toList_inj.mp (by simp)
    have hrest := @ih (made.push (builtLeaf token))
    rw [Array.size_push, Nat.add_assoc, Nat.add_comm 1] at hrest
    rw [hmade]
    refine .cons ⟨⟨⟨builtLeaf token, ?_, ⟨rfl, rfl, rfl, rfl⟩, .nil⟩, Nat.lt_succ_self _, ?_⟩, rfl, nofun⟩ hrest
    · rw [Array.getElem?_append_left (by simp [NodeId.plain])]
      exact Array.getElem?_push_size
    · intro j hj hj'
      exact absurd (Nat.lt_succ_iff.mp hj') (Nat.not_le_of_lt hj)

theorem plain_leavesFrom {first : Nat} {tokens : List Token} :
    ∀ c ∈ (leavesFrom first tokens).map Prod.fst, c.field = none ∧ first ≤ c.id.index := by
  induction tokens generalizing first with
  | nil => nofun
  | cons token tokens ih =>
    exact List.forall_mem_cons.mpr ⟨⟨rfl, Nat.le_refl _⟩, fun c hc =>
      (ih c hc).imp_right (Nat.le_of_succ_le ·)⟩

/-- Taking up leaves without a field changes nothing. -/
theorem fills_leaves (tokens : List Token) :
    ((leavesFrom made.size tokens).map Prod.fst).foldl Building.filled
      (made ++ (tokens.map builtLeaf).toArray) = made ++ (tokens.map builtLeaf).toArray := by
  refine Building.fills_none (fun c hc => (plain_leavesFrom c hc).1) fun c hc b hb => ?_
  rw [Option.mem_def, Array.getElem?_append_right (plain_leavesFrom c hc).2, List.getElem?_toArray,
    List.getElem?_map] at hb
  obtain ⟨token, _, rfl⟩ := Option.map_eq_some_iff.mp hb
  rfl

end Leaves

section Damage
variable {tokens : Array Token} {start stop : Nat}

/-- The damage over the tokens from `start` up to `stop`, as it is kept behind the leaves of these
tokens, the first of which is at an index. -/
def builtDamage (tokens : Array Token) (start stop first : Nat) : Built :=
  ⟨.named .error, (damageOver tokens start stop).span, none, false, false,
    List.range' first (stop - start)⟩

/-- Making the damage adds it behind the leaves, which it lists in their order. -/
theorem keep_damage (made : Array Built) (hstop : stop < tokens.size) :
    keep (made ++ builtLeaves tokens start stop) (damageOver tokens start stop) =
      made ++ builtLeaves tokens start stop ++ #[builtDamage tokens start stop made.size] := by
  have hlength : (tokens.extract start stop).toList.length = stop - start := by
    rw [Array.length_toList, Array.size_extract, Nat.min_eq_left hstop.le]
  rw [builtLeaves]
  have hstack := @leaves_stack made (tokens.extract start stop).toList
  have hsize : (made ++ ((tokens.extract start stop).toList.map builtLeaf).toArray).size =
      made.size + (tokens.extract start stop).toList.length := by simp
  rw [← hsize] at hstack
  rw [hstack.keep_eq (map_snd_leavesFrom _ _).symm, indices_leavesFrom, hlength, fills_leaves,
    Array.push_eq_append]
  rfl

end Damage

/-! ### States of a parse -/

/-- Whether what was kept refers only to what stands in front of it. -/
def Grown (made : Array Built) : Prop :=
  ∀ (i : Nat) (b : Built), made[i]? = some b → ∀ j ∈ b.children, j < i

theorem lastIndex?_lt {made : Array Built} {n : Node} {bound i : Nat}
    (h : lastIndex? made n bound = some i) : i < bound := by
  induction bound with
  | zero => cases h
  | succ bound ih =>
    rw [lastIndex?] at h
    split at h
    · exact (Option.some.inj h) ▸ Nat.lt_succ_self _
    · exact (ih h).trans (Nat.lt_succ_self _)

namespace Grown
variable {made : Array Built}

theorem empty : Grown #[] := by
  intro i b hb
  rw [Array.getElem?_empty] at hb
  cases hb

theorem adopts (h : Grown made) (taken : List (Nat × Node)) : Grown (taken.foldl adopt made) := by
  induction taken generalizing made with
  | nil => exact h
  | cons first taken ih =>
    refine ih fun i b hb => ?_
    rw [adopt, Array.getElem?_modify] at hb
    split at hb
    · obtain ⟨b', hb', rfl⟩ := Option.map_eq_some_iff.mp hb
      exact h i b' hb'
    · exact h i b hb

theorem firstIndex_le (h : Grown made) (steps i : Nat) : firstIndex made steps i ≤ i := by
  induction steps generalizing i with
  | zero => exact Nat.le_refl _
  | succ steps ih =>
    rw [firstIndex]
    split
    · rename_i child hchild
      obtain ⟨b, hb, hhead⟩ := Option.bind_eq_some_iff.mp hchild
      exact (ih child).trans (h i b hb child (List.mem_of_head? hhead)).le
    · exact Nat.le_refl _

/-- Nodes are looked for in front of the bound. -/
theorem indicesBelow_lt (h : Grown made) (bound : Nat) (nodes : List Node) :
    (indicesBelow made bound nodes).1 ≤ bound ∧ ∀ i ∈ (indicesBelow made bound nodes).2, i < bound := by
  induction nodes with
  | nil => exact ⟨Nat.le_refl _, nofun⟩
  | cons n nodes ih =>
    obtain ⟨hle, hlt⟩ := ih
    rw [indicesBelow]
    split
    · rename_i bound' indices heq
      rw [heq] at hle hlt
      split
      · rename_i i hi
        have hi := lastIndex?_lt hi
        have := h.firstIndex_le i i
        exact ⟨by dsimp only at *; omega, List.forall_mem_cons.mpr ⟨hi.trans_le hle, hlt⟩⟩
      · exact ⟨hle, hlt⟩

theorem keep (h : Grown made) (n : Node) : Grown (keep made n) := by
  intro i b hb
  rw [Parsing.keep, Array.getElem?_push, size_adopts] at hb
  split at hb
  · obtain rfl := Option.some.inj hb
    exact ‹i = made.size› ▸ (h.indicesBelow_lt made.size n.children).2
  · exact h.adopts _ i b hb

theorem shrink (h : Grown made) (n : Nat) : Grown (made.shrink n) := by
  intro i b hb
  rw [← Array.getElem?_toList, Array.toList_shrink, List.getElem?_take] at hb
  split at hb
  · exact h i b (Array.getElem?_toList ▸ hb)
  · cases hb

end Grown

/-- A state among the tokens in which what was kept refers only to what stands in front of it. -/
structure Sane (tokens : Array Token) (s : State) : Prop where
  inside : s.position < tokens.size
  grown : Grown s.made

theorem EndsOnce.sane_respected {scope : Scope} (hends : EndsOnce scope.tokens)
    (hdeep : ∀ goal s, Leads (fun s s' => Sane scope.tokens s → Sane scope.tokens s')
      (fun _ => True) s (scope.deeper goal s)) :
    Respected scope (fun s s' => Sane scope.tokens s → Sane scope.tokens s') fun _ => True where
  refl _ h := h
  trans _ _ _ h h' hs := h' (h hs)
  advance _ hreal h := ⟨hends.succ_lt h.inside hreal, h.grown⟩
  make _ n h := ⟨h.inside, h.grown.keep n⟩
  missing _ _ _ h := ⟨h.inside, h.grown⟩
  throw _ _ _ := trivial
  deeper := hdeep
  recover s problem s' hrun h := by
    have hleads := hdeep .statement s
    rw [hrun] at hleads
    obtain ⟨hinside, hgrown⟩ := hleads.1 h
    exact ⟨hends.resumeFrom_lt hinside, hgrown.shrink _⟩

/-! ### Statements that may fail -/

section Statements
variable {source : String} {maxDepth levels : Nat} {s s' s₁ : State} {problem : Problem}

/-- A statement that may fail gives a node, and leaves as it is what was kept and reported before. -/
theorem statementOrError_spares (hreal : kindAt (lex source).tokens s.position ≠ .endOfFile) :
    ∃ n s', statementOrError ⟨(lex source).tokens, level (lex source).tokens maxDepth levels⟩ s =
      .ok (some n) s' ∧ Building.Spares s.made.size s s' ∧ s'.position < (lex source).tokens.size := by
  obtain ⟨n, s', hrun, _, hinside⟩ : ∃ n s',
      statementOrError ⟨(lex source).tokens, level (lex source).tokens maxDepth levels⟩ s =
        .ok (some n) s' ∧ _ ∧ _ :=
    statementOrError_progresses (lex_isStream source).endsOnce hreal
  have hfollows : Building.Follows .nothing Building.statementOrError statementOrError := inferInstance
  have hagrees := hfollows.follows _ _ (Building.level_fits (lex_stringsStand source) maxDepth levels)
    s.made.size s rfl
  rw [hrun] at hagrees
  generalize Building.statementOrError _ s = result at hagrees
  cases hagrees with
  | ok spares _ => exact ⟨n, s', hrun, spares, hinside⟩

/-- Of a statement that fails nothing is kept but the leaves of the skipped tokens and the damage. -/
theorem statementOrError_damage (hreal : kindAt (lex source).tokens s.position ≠ .endOfFile)
    (hfails : level (lex source).tokens maxDepth levels .statement s = .error problem s₁) {n : Option Node}
    (hrun : statementOrError ⟨(lex source).tokens, level (lex source).tokens maxDepth levels⟩ s = .ok n s') :
    s'.made = s.made ++ builtLeaves (lex source).tokens s.position s'.position ++
      #[builtDamage (lex source).tokens s.position s'.position s.made.size] := by
  let tokens := (lex source).tokens
  let scope : Scope := ⟨tokens, level tokens maxDepth levels⟩
  have hfails : scope.deeper .statement s = .error problem s₁ := hfails
  have hproceeds := level_proceeds (lex_isStream source).endsOnce maxDepth levels
  have hskip : s.position < (s.resumed tokens s₁ problem).position := by
    have hleads := hproceeds.deeper .statement s
    rw [hfails] at hleads
    exact lt_resumed (hleads.1 (lt_size_of_real hreal)).1 hreal problem
  have hinside : (s.resumed tokens s₁ problem).position < tokens.size :=
    (hproceeds.recover s problem s₁ hfails (lt_size_of_real hreal)).2
  have hagrees := (Building.level_fits (lex_stringsStand source) maxDepth levels).deeper .statement s
  rw [hfails] at hagrees
  generalize Building.Scope.deeper _ _ s = result at hagrees
  cases hagrees with
  | error spares =>
    rw [statementOrError_eq, hfails] at hrun
    dsimp only at hrun
    rw [errorNode?_eq hskip] at hrun
    cases hrun
    show keep ((s.resumed tokens s₁ problem).made ++ _) _ = _
    rw [show (s.resumed tokens s₁ problem).made = s.made from spares.shrink, keep_damage s.made hinside]

end Statements

end ScriptTree.Parsing
