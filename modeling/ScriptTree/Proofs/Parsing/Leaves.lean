import Mathlib
import ScriptTree.Proofs.Parsing.Framing
import ScriptTree.Proofs.Tree.Weaving

/-! The leaves of a forest against the tokens it was made of.

Every leaf stands in one token, unless it is a signed number, which is made of two tokens that touch
(`Forest.leaves_stand`); and every token is covered by leaves in a row, unless it is half of such a
number (`Forest.tokens_covered`). A comment, which is clear of tokens, is clear of leaves as well. -/
namespace ScriptTree

/-- The leaves in and below a list of nodes that are there. -/
def presentAll (nodes : List Node) : List Node := (leavesAll nodes).filter (!·.missing)

theorem presentAll_cons (n : Node) (nodes : List Node) :
    presentAll (n :: nodes) = presentAll [n] ++ presentAll nodes := by
  rw [presentAll, leavesAll_cons, List.filter_append]
  rfl

theorem presentAll_leaf {n : Node} (hchildren : n.children = []) (hpresent : n.missing = false) :
    presentAll [n] = [n] := by
  simp [presentAll, leavesAll_singleton_leaf hchildren, hpresent]

theorem presentAll_inner {n : Node} (h : n.children ≠ []) :
    presentAll [n] = presentAll n.children := by
  rw [presentAll, leavesAll_singleton_inner h]
  rfl

theorem leavesAll_leaves {nodes : List Node} (h : ∀ n ∈ nodes, n.children = []) :
    leavesAll nodes = nodes := by
  induction nodes with
  | nil => rfl
  | cons n nodes ih =>
    rw [leavesAll_cons, leavesAll_singleton_leaf (h n (List.mem_cons_self ..)),
      ih fun m hm => h m (List.mem_cons_of_mem _ hm), List.singleton_append]

namespace Tiles
variable {a b : Nat} {ns : List Node}

/-- Missing nodes have no width, so the others leave no gap. -/
theorem present_only (h : Tiles a ns b) : Tiles a (ns.filter (!·.missing)) b := by
  induction h with
  | nil => exact .nil
  | @cons b n ns forward width _ ih =>
    cases hmissing : n.missing with
    | false =>
      rw [List.filter_cons_of_pos (by simp [hmissing])]
      exact .cons forward width ih
    | true =>
      rw [List.filter_cons_of_neg (by simp [hmissing])]
      have hspan := width hmissing
      have hstop : n.span.stop = n.span.start := congrArg Span.stop hspan
      exact hstop ▸ ih

theorem head_start {n : Node} (h : Tiles a (n :: ns) b) : n.span.start = a := by
  cases h
  rfl

theorem touching (h : Tiles a ns b) : ns.IsChain fun n m => m.span.start ≤ n.span.stop := by
  induction h with
  | nil => exact .nil
  | @cons b n ns _ _ rest ih =>
    refine List.isChain_cons.mpr ⟨fun m hm => ?_, ih⟩
    obtain ⟨ns, rfl⟩ := List.head?_eq_some_iff.mp hm
    exact rest.head_start.le

/-- Every place between the ends is in one of the nodes. -/
theorem exists_covers (h : Tiles a ns b) {byte : Nat} (hstart : a ≤ byte) (hstop : byte < b) :
    ∃ n ∈ ns, n.span.start ≤ byte ∧ byte < n.span.stop := by
  induction h with
  | nil => omega
  | @cons b n ns _ _ _ ih =>
    rcases Nat.lt_or_ge byte n.span.stop with hlt | hge
    · exact ⟨n, List.mem_cons_self .., hstart, hlt⟩
    · obtain ⟨m, hm, hcovers⟩ := ih hge hstop
      exact ⟨m, List.mem_cons_of_mem _ hm, hcovers⟩

end Tiles

namespace Parsing
variable {tokens : Array Token}

/-- Whether a leaf is a signed number: the sign at an index, and the number that touches it. -/
structure IsSigned (tokens : Array Token) (i : Nat) (n : Node) : Prop where
  symbol : n.symbol = .named .number
  plain : n.extra = false
  field : ∃ field ∈ conditionFields, n.field = some field
  sign : isSign (kindAt tokens i) = true
  number : ∃ text, kindAt tokens (i + 1) = .number text
  touching : (spanAt tokens i).stop = (spanAt tokens (i + 1)).start
  span : n.span = ⟨(spanAt tokens i).start, (spanAt tokens (i + 1)).stop⟩

/-- Whether a leaf stands in a token. -/
def StandsIn (tokens : Array Token) (i : Nat) (n : Node) : Prop :=
  kindAt tokens i ≠ .endOfFile ∧ (spanAt tokens i).start ≤ n.span.start ∧
    n.span.stop ≤ (spanAt tokens i).stop

/-- Where a leaf stands. -/
def Stands (tokens : Array Token) (n : Node) : Prop :=
  (∃ i, StandsIn tokens i n) ∨ (∃ i, IsSigned tokens i n) ∨ n.missing = true ∧ n.span = .empty 0

/-- Whether a token is covered by leaves in a row, or half of a signed number. -/
def Covered (tokens : Array Token) (leaves : List Node) (i : Nat) : Prop :=
  (∃ group, group <:+: leaves ∧ Tiles (spanAt tokens i).start group (spanAt tokens i).stop) ∨
    ∃ n ∈ leaves, ∃ j, (i = j ∨ i = j + 1) ∧ IsSigned tokens j n

theorem Covered.mono {leaves leaves' : List Node} {i : Nat} (h : Covered tokens leaves i)
    (hsub : leaves <:+: leaves') : Covered tokens leaves' i := by
  rcases h with ⟨group, hgroup, htiles⟩ | ⟨n, hn, hsigned⟩
  · exact .inl ⟨group, hgroup.trans hsub, htiles⟩
  · exact .inr ⟨n, hsub.subset hn, hsigned⟩

theorem tiles_leaf {n : Node} {i : Nat} (hs : IsStream tokens)
    (hreal : kindAt tokens i ≠ .endOfFile) (hspan : n.span = spanAt tokens i)
    (hpresent : n.missing = false) :
    Tiles (spanAt tokens i).start [n] (spanAt tokens i).stop :=
  .present hspan (hs.start_lt_stop hreal).le hpresent .nil

/-! ### Leaves -/

theorem standsIn_of_span {i : Nat} {n : Node} (hreal : kindAt tokens i ≠ .endOfFile)
    (hspan : n.span = spanAt tokens i) : StandsIn tokens i n := by
  refine ⟨hreal, ?_, ?_⟩
  · rw [hspan]
  · rw [hspan]

/-- A place behind a token is in it, at its end. -/
theorem stands_absent (hs : IsStream tokens) {p : Nat} {n : Node} (hp : p < tokens.size)
    (hmissing : n.missing = true) (hspan : n.span = .empty (stopBefore tokens p)) :
    Stands tokens n := by
  cases p with
  | zero => exact .inr (.inr ⟨hmissing, hspan⟩)
  | succ p =>
    rw [stopBefore_succ] at hspan
    refine .inl ⟨p, hs.real hp, ?_, ?_⟩
    · rw [hspan]
      exact (hs.proper p hp).le
    · rw [hspan]
      exact Nat.le_refl _

theorem leavesAll_literal {token : Token} {n : Node} (field : Option Field)
    (h : literalNode? token = some n) : leavesAll [{ n with field }] = n.children := by
  have hnonempty : ({ n with field } : Node).children ≠ [] := by
    obtain ⟨_, _, _, rfl, _⟩ := literal_cases h
    exact List.cons_ne_nil _ _
  rw [leavesAll_singleton_inner hnonempty]
  exact leavesAll_leaves fun m hm => (literal_leaves h m hm).1

theorem leavesAll_damage (hs : IsStream tokens) {p m : Nat} (field : Option Field) (lt : p < m)
    (real : ∀ i, p ≤ i → i < m → kindAt tokens i ≠ .endOfFile) :
    leavesAll [{ damageOver tokens p m with field }] =
      (tokens.extract p m).toList.map skippedLeaf := by
  have hnonempty : ({ damageOver tokens p m with field } : Node).children ≠ [] := by
    simp only [damageOver, Node.ofChildren, damageOver_children hs lt real]
    exact List.cons_ne_nil _ _
  rw [leavesAll_singleton_inner hnonempty]
  refine leavesAll_leaves fun n hn => ?_
  obtain ⟨_, _, rfl⟩ := List.mem_map.mp hn
  rfl

theorem literal_stands (hs : IsStream tokens) {i : Nat} {n : Node}
    (h : literalNode? (tokenAt tokens i) = some n) : ∀ m ∈ n.children, StandsIn tokens i m := by
  intro m hm
  have hmem := (hs.tiled i n h).laid.mem hm
  exact ⟨literal_real h, hmem.1, hmem.2.2⟩

namespace Forest
variable {p q : Nat} {ps : List Problem} {ns : List Node}

theorem leaves_stand (hs : IsStream tokens) (h : Forest tokens p q ps ns) (hq : q < tokens.size) :
    ∀ m ∈ leavesAll ns, Stands tokens m := by
  induction h with
  | nil => nofun
  | token field reads _ ih =>
    intro m hm
    rw [leavesAll_cons, leavesAll_singleton_leaf rfl] at hm
    rcases List.mem_cons.mp hm with rfl | hm
    · exact .inl ⟨_, standsIn_of_span (real_of_readsAs reads) rfl⟩
    · exact ih hq m hm
  | signed sign number digits touching place _ ih =>
    intro m hm
    rw [leavesAll_cons, leavesAll_singleton_leaf rfl] at hm
    rcases List.mem_cons.mp hm with rfl | hm
    · exact .inr (.inl ⟨_, rfl, rfl, ⟨_, place, rfl⟩, sign, ⟨_, number⟩, touching,
        hs.merge_eq (isSign_ne_endOfFile sign) (number_real number)⟩)
    · exact ih hq m hm
  | literal field made _ ih =>
    intro m hm
    rw [leavesAll_cons, leavesAll_literal field made] at hm
    rcases List.mem_append.mp hm with hm | hm
    · exact .inl ⟨_, literal_stands hs made m hm⟩
    · exact ih hq m hm
  | absent field closing rest ih =>
    intro m hm
    rw [leavesAll_cons, leavesAll_singleton_leaf rfl] at hm
    rcases List.mem_cons.mp hm with rfl | hm
    · exact stands_absent hs (rest.le.trans_lt hq) rfl rfl
    · exact ih hq m hm
  | inner field children row nonempty _ rest ihc ih =>
    intro m hm
    rw [leavesAll_cons, leavesAll_singleton_inner nonempty] at hm
    rcases List.mem_append.mp hm with hm | hm
    · exact ihc (rest.le.trans_lt hq) m hm
    · exact ih hq m hm
  | damage field lt real _ rest ih =>
    intro m hm
    rw [leavesAll_cons, leavesAll_damage hs field lt real] at hm
    rcases List.mem_append.mp hm with hm | hm
    · obtain ⟨token, htoken, rfl⟩ := List.mem_map.mp hm
      obtain ⟨i, hpi, him, rfl⟩ := mem_extract htoken
      exact .inl ⟨i, standsIn_of_span (real i hpi him) rfl⟩
    · exact ih hq m hm

end Forest

/-! ### Tokens -/

theorem skipped_covered (hs : IsStream tokens) {p m : Nat} (hle : p ≤ m)
    (real : ∀ i, p ≤ i → i < m → kindAt tokens i ≠ .endOfFile) (i : Nat) (hpi : p ≤ i)
    (him : i < m) : Covered tokens ((tokens.extract p m).toList.map skippedLeaf) i := by
  induction hd : m - p generalizing p with
  | zero => omega
  | succ d ih =>
    have hm := lt_size_of_real (real (m - 1) (by omega) (by omega))
    rw [extract_eq_cons (by omega) (by omega), List.map_cons]
    rcases Nat.eq_or_lt_of_le hpi with rfl | hlt
    · exact .inl ⟨[skippedLeaf (tokenAt tokens p)], ⟨[], _, rfl⟩,
        tiles_leaf hs (real p (Nat.le_refl _) him) rfl rfl⟩
    · exact (ih (by omega) (fun i hi him => real i (by omega) him) hlt (by omega)).mono
        (List.suffix_cons _ _).isInfix

namespace Forest
variable {p q : Nat} {ps : List Problem} {ns : List Node}

theorem tokens_covered (hs : IsStream tokens) (h : Forest tokens p q ps ns) :
    ∀ i, p ≤ i → i < q → Covered tokens (presentAll ns) i := by
  induction h with
  | nil => intro i hpi hiq; omega
  | @token p q ps ns symbol field reads rest ih =>
    intro i hpi hiq
    rw [presentAll_cons, presentAll_leaf rfl rfl]
    rcases Nat.eq_or_lt_of_le hpi with rfl | hlt
    · exact .inl ⟨_, ⟨[], _, rfl⟩, tiles_leaf hs (real_of_readsAs reads) rfl rfl⟩
    · exact (ih i hlt hiq).mono (List.suffix_append _ _).isInfix
  | @signed p q ps ns text field sign number digits touching place rest ih =>
    intro i hpi hiq
    rw [presentAll_cons, presentAll_leaf rfl rfl]
    rcases Nat.lt_or_ge i (p + 2) with hlt | hge
    · refine .inr ⟨_, List.mem_append_left _ (List.mem_singleton.mpr rfl), p, by omega, ?_⟩
      exact ⟨rfl, rfl, ⟨_, place, rfl⟩, sign, ⟨_, number⟩, touching,
        hs.merge_eq (isSign_ne_endOfFile sign) (number_real number)⟩
    · exact (ih i hge hiq).mono (List.suffix_append _ _).isInfix
  | @literal p q ps ns n field made rest ih =>
    intro i hpi hiq
    rw [presentAll_cons, presentAll, leavesAll_literal field made]
    rcases Nat.eq_or_lt_of_le hpi with rfl | hlt
    · exact .inl ⟨_, (List.prefix_append _ _).isInfix, (hs.tiled p n made).present_only⟩
    · exact (ih i hlt hiq).mono (List.suffix_append _ _).isInfix
  | absent field closing rest ih =>
    intro i hpi hiq
    rw [presentAll_cons]
    exact (ih i hpi hiq).mono (List.suffix_append _ _).isInfix
  | @inner p m q ps ps' kind cs ns field children row nonempty _ rest ihc ih =>
    intro i hpi hiq
    rw [presentAll_cons, presentAll_inner nonempty]
    rcases Nat.lt_or_ge i m with hlt | hge
    · exact (ihc i hpi hlt).mono (List.prefix_append _ _).isInfix
    · exact (ih i hge hiq).mono (List.suffix_append _ _).isInfix
  | @damage p m q lost problem ps ns field lt real explains rest ih =>
    intro i hpi hiq
    have hleaves : presentAll [{ damageOver tokens p m with field }] =
        (tokens.extract p m).toList.map skippedLeaf := by
      rw [presentAll, leavesAll_damage hs field lt real, List.filter_eq_self]
      intro n hn
      obtain ⟨_, _, rfl⟩ := List.mem_map.mp hn
      rfl
    rw [presentAll_cons, hleaves]
    rcases Nat.lt_or_ge i m with hlt | hge
    · exact (skipped_covered hs lt.le real i hpi hlt).mono (List.prefix_append _ _).isInfix
    · exact (ih i hge hiq).mono (List.suffix_append _ _).isInfix

end Forest

end Parsing

end ScriptTree
