import Mathlib
import ScriptTree.Proofs.Parsing.Lawful

/-! Damage and what was reported.

A mark of a forest is a made-up semicolon or brace, or a stretch of damage. Marks and reports are
made together, so the marks from left to right have reports from first to last (`Forest.reported`);
a report without a mark comes from a statement that was given up as a whole, and stands behind
damage as well (`Forest.damaged`). -/
namespace ScriptTree

/-- Whether a node shows damage that the parser reports where it makes the node. -/
def Node.isMark (n : Node) : Bool :=
  n.isError || n.missing &&
    (n.symbol == .punctuation .semicolon || n.symbol == .punctuation .rightBrace)

/-- Whether a problem is the report of a mark. -/
inductive Reports (tokens : Array Token) : Node → Problem → Prop
  | absent {n mark found} (missing : n.missing = true) (symbol : n.symbol = .punctuation mark)
      (place : n.span = .empty n.span.start) :
      Reports tokens n ⟨.missingMark mark found, n.span⟩
  | damage {n problem next} (symbol : n.symbol = .named .error)
      (kind : problem.cause.kind = .grammar ∨ problem.cause.kind = .limit)
      (after : n.span.start ≤ problem.span.start)
      (behind : tokens.find? (n.span.stop ≤ ·.span.start) = some next)
      (before : problem.span.start ≤ next.span.start) : Reports tokens n problem

/-- The marks in and below a list of nodes, in order. -/
def marksAll (nodes : List Node) : List Node := (Node.preorderAll nodes).filter Node.isMark

theorem marksAll_cons_mark {n : Node} {nodes : List Node} (h : n.isMark = true)
    (hbelow : marksAll n.children = []) : marksAll (n :: nodes) = n :: marksAll nodes := by
  rw [marksAll] at hbelow
  rw [marksAll, Node.preorderAll, Node.preorder_eq, List.filter_append, List.filter_cons_of_pos h,
    hbelow]
  rfl

theorem marksAll_cons_plain {n : Node} {nodes : List Node} (h : n.isMark = false) :
    marksAll (n :: nodes) = marksAll n.children ++ marksAll nodes := by
  rw [marksAll, Node.preorderAll, Node.preorder_eq, List.filter_append,
    List.filter_cons_of_neg (by simp [h])]
  rfl

theorem marksAll_leaves {nodes : List Node}
    (h : ∀ n ∈ nodes, n.children = [] ∧ n.isMark = false) : marksAll nodes = [] := by
  rw [marksAll, List.filter_eq_nil_iff]
  intro m hm
  rw [Node.mem_preorderAll_leaves fun n hn => (h n hn).1] at hm
  rw [(h m hm).2]
  exact nofun

theorem isMark_eq_false {n : Node} (hsound : n.symbol ≠ .named .error)
    (hpresent : n.missing = false) : n.isMark = false := by
  simp [Node.isMark, Node.isError, hsound, hpresent]

namespace Parsing
variable {tokens : Array Token}

/-- The first token that starts behind a stretch of tokens is the one that follows it. -/
theorem find?_behind (hs : IsStream tokens) {m : Nat} (hpos : 0 < m)
    (hreal : kindAt tokens (m - 1) ≠ .endOfFile) :
    tokens.find? (stopBefore tokens m ≤ ·.span.start) = some (tokenAt tokens m) := by
  have hm := hs.succ_lt_of_real hreal
  have hstop : stopBefore tokens m = (spanAt tokens (m - 1)).stop := if_neg hpos.ne'
  rw [Nat.sub_add_cancel hpos] at hm
  have hget (i : Nat) (hi : i < tokens.size) : tokens[i].span = spanAt tokens i := by
    simp [spanAt, tokenAt, Array.getD_eq_getD_getElem?, hi]
  refine Array.find?_eq_some_iff_getElem.mpr ⟨?_, m, hm, ?_, fun j hj => ?_⟩
  · have := hs.ordered (m - 1) (by omega)
    rw [Nat.sub_add_cancel hpos] at this
    rw [decide_eq_true_eq, hstop]
    exact this
  · simp [tokenAt, Array.getD_eq_getD_getElem?, hm]
  · have hstart := hs.start_le (show j ≤ m - 1 by omega) (by omega)
    have hproper := hs.proper (m - 1) (by omega)
    rw [hget j (by omega), hstop]
    simp only [Bool.not_eq_true', decide_eq_false_iff_not]
    omega

/-! ### Nodes without marks -/

/-- What closes a string or regular expression is no mark. -/
theorem literal_roles : ∀ kind ∈ [NodeKind.string, .regex], ∀ item ∈ kind.row,
    ∀ role ∈ item.roles, role.2 ≠ .named .error ∧ role.2 ≠ .punctuation .semicolon ∧
      role.2 ≠ .punctuation .rightBrace := by
  decide

theorem literal_marks (hs : IsStream tokens) {i : Nat} {n : Node} (field : Option Field)
    (h : literalNode? (tokenAt tokens i) = some n) :
    ({ n with field } : Node).isMark = false ∧ marksAll n.children = [] := by
  obtain ⟨kind, hkind, hsymbol⟩ := literal_kind h
  refine ⟨isMark_eq_false ?_ ?_, marksAll_leaves fun m hm => ⟨(literal_leaves h m hm).1, ?_⟩⟩
  · show n.symbol ≠ _
    rw [hsymbol]
    rintro ⟨⟩
    exact absurd hkind (by decide)
  · obtain ⟨_, _, _, rfl, _⟩ := literal_cases h
    rfl
  · obtain ⟨item, hitem, hrole⟩ := (hs.matched i n h).role_mem m hm
    rw [hsymbol] at hitem
    obtain ⟨hsound, hsemicolon, hbrace⟩ := literal_roles kind hkind item hitem _ hrole
    rw [Node.role] at hsound hsemicolon hbrace
    simp [Node.isMark, Node.isError, hsound, hsemicolon, hbrace]

theorem damage_leaves {p m : Nat}
    (real : ∀ i, p ≤ i → i < m → kindAt tokens i ≠ .endOfFile) :
    marksAll (damageOver tokens p m).children = [] := by
  refine marksAll_leaves fun n hn => ?_
  obtain ⟨token, htoken, rfl⟩ := List.mem_map.mp hn
  obtain ⟨i, hpi, him, rfl⟩ := mem_extract htoken
  have hskipped : IsSkipped (skippedLeaf (tokenAt tokens i)).symbol := ⟨_, real i hpi him, rfl⟩
  exact ⟨rfl, isMark_eq_false hskipped.ne_error rfl⟩

/-! ### Marks and their reports -/

theorem Forest.reported (hs : IsStream tokens) {p q : Nat} {ps : List Problem} {ns : List Node}
    (h : Forest tokens p q ps ns) :
    ∃ reports, List.Forall₂ (Reports tokens) (marksAll ns) reports ∧ reports.Sublist ps := by
  induction h with
  | nil => exact ⟨[], .nil, List.Sublist.refl _⟩
  | token _ reads _ ih =>
    rw [marksAll_cons_plain (isMark_eq_false (row_of_readsAs reads).2 rfl)]
    exact ih
  | signed _ _ _ _ _ _ ih =>
    have hsound : Symbol.named .number ≠ .named .error := nofun
    rw [marksAll_cons_plain (isMark_eq_false hsound rfl)]
    exact ih
  | literal field made _ ih =>
    obtain ⟨hnode, hchildren⟩ := literal_marks hs field made
    rw [marksAll_cons_plain hnode, hchildren]
    exact ih
  | absent _ closing _ ih =>
    obtain ⟨reports, hreports, hsub⟩ := ih
    refine ⟨_ :: reports, ?_, hsub.cons_cons _⟩
    rw [marksAll_cons_mark (by rcases closing with rfl | ⟨rfl, _⟩ <;> rfl) rfl]
    exact .cons (.absent rfl rfl rfl) hreports
  | @inner p m q ps ps' kind cs ns _ children row nonempty _ _ ihc ih =>
    obtain ⟨reports, hreports, hsub⟩ := ihc
    obtain ⟨reports', hreports', hsub'⟩ := ih
    refine ⟨reports ++ reports', ?_, hsub.append hsub'⟩
    rw [marksAll_cons_plain (isMark_eq_false (fun herror => ?_) rfl)]
    · exact List.rel_append hreports hreports'
    · obtain rfl : kind = .error := Symbol.named.inj herror
      cases row
      exact nonempty rfl
  | @damage p m q lost problem ps ns field lt real explains _ ih =>
    obtain ⟨reports, hreports, hsub⟩ := ih
    have hspan := damage_span hs lt real
    refine ⟨problem :: reports, ?_, (hsub.cons_cons problem).trans (List.sublist_append_right ..)⟩
    have hmark : ({ damageOver tokens p m with field } : Node).isMark = true := rfl
    rw [marksAll_cons_mark hmark (damage_leaves real)]
    refine .cons (.damage rfl explains.kind ?_ ?_ explains.before) hreports
    · show (damageOver tokens p m).span.start ≤ _
      rw [hspan]
      exact explains.after
    · show tokens.find? ((damageOver tokens p m).span.stop ≤ ·.span.start) = _
      rw [hspan]
      exact find?_behind hs (Nat.zero_lt_of_lt lt) (real (m - 1) (by omega) (by omega))

/-- What was reported has left damage. -/
theorem Forest.damaged {p q : Nat} {ps : List Problem} {ns : List Node}
    (h : Forest tokens p q ps ns) (hps : ps ≠ []) :
    ∃ n ∈ Node.preorderAll ns, n.isDamaged = true := by
  induction h with
  | nil => exact absurd rfl hps
  | token _ _ _ ih | signed _ _ _ _ _ _ ih | literal _ _ _ ih =>
    obtain ⟨n, hn, hdamaged⟩ := ih hps
    exact ⟨n, Node.mem_preorderAll_cons.mpr (.inr (.inr hn)), hdamaged⟩
  | absent => exact ⟨_, Node.mem_preorderAll_cons.mpr (.inl rfl), rfl⟩
  | inner _ _ _ _ _ _ ihc ih =>
    rw [ne_eq, List.append_eq_nil_iff, not_and_or] at hps
    rcases hps with hps | hps
    · obtain ⟨n, hn, hdamaged⟩ := ihc hps
      exact ⟨n, Node.mem_preorderAll_cons.mpr (.inr (.inl hn)), hdamaged⟩
    · obtain ⟨n, hn, hdamaged⟩ := ih hps
      exact ⟨n, Node.mem_preorderAll_cons.mpr (.inr (.inr hn)), hdamaged⟩
  | damage => exact ⟨_, Node.mem_preorderAll_cons.mpr (.inl rfl), rfl⟩

end Parsing

end ScriptTree
