import Mathlib
import ScriptTree.Proofs.Parsing.Placement
import ScriptTree.Proofs.Token.Streaming
import ScriptTree.Proofs.Tree.Framing

/-! What the nodes of a forest cover.

Every node reaches from its first child to its last one (`Forest.framed`), none of them is a comment
(`Forest.plain`), and in the forest of a source all of them start and stop between characters
(`Forest.fits`). -/
namespace ScriptTree

/-- The first node holds on to where it starts. -/
theorem Laid.tighten {a b : Nat} {n : Node} {ns : List Node} (h : Laid a (n :: ns) b) :
    Laid n.span.start (n :: ns) b := by
  cases h with
  | cons after forward touches rest =>
    refine .cons (Nat.le_refl _) forward (fun hmissing => ?_) rest
    rw [touches hmissing]
    rfl

theorem framed_ofChildren {kind : NodeKind} {field : Option Field} {a b : Nat} {c : Node}
    {cs : List Node} (laid : Laid a (c :: cs) b) (proper : c.span.start < c.span.stop)
    (plain : ∀ m ∈ c :: cs, m.extra = false) (below : ∀ m ∈ c :: cs, Framed m) :
    Framed { Node.ofChildren kind (c :: cs) with field } := by
  have hspan : (Node.ofChildren kind (c :: cs)).span = ⟨c.span.start, b⟩ := laid.cover_eq
  refine .inner rfl ?_ proper (plain c (List.mem_cons_self ..)) (fun m hm => ?_) ?_ below
  · simp only [hspan]
  · exact plain m (List.mem_of_getLast? hm)
  · simp only [hspan]
    exact laid.tighten

namespace Parsing

variable {tokens : Array Token}

/-! ### Strings and regular expressions -/

theorem literal_leaves {token : Token} {n : Node} (h : literalNode? token = some n) :
    ∀ m ∈ n.children, m.children = [] ∧ m.extra = false := by
  have hclosing (symbol : Symbol) (closed : Bool) (offset : Nat) :
      (closingNode symbol closed offset).children = [] ∧
        (closingNode symbol closed offset).extra = false := by
    cases closed <;> exact ⟨rfl, rfl⟩
  rw [literalNode?] at h
  split at h
  · cases h
    intro m hm
    rcases List.mem_cons.mp hm with rfl | hm
    · exact ⟨rfl, rfl⟩
    rcases List.mem_append.mp hm with hm | hm
    · obtain ⟨part, _, rfl⟩ := List.mem_map.mp hm
      cases part <;> exact ⟨rfl, rfl⟩
    · rw [List.mem_singleton.mp hm]
      exact hclosing ..
  · cases h
    intro m hm
    rcases List.mem_append.mp hm with hm | hm
    · rcases hm with _ | ⟨_, _ | ⟨_, _ | ⟨_, ⟨⟩⟩⟩⟩
      · exact ⟨rfl, rfl⟩
      · exact ⟨rfl, rfl⟩
      · exact hclosing ..
    · obtain ⟨flags, _, rfl⟩ := List.mem_map.mp hm
      exact ⟨rfl, rfl⟩
  · cases h

theorem literal_framed (hs : IsStream tokens) {i : Nat} {n : Node} (field : Option Field)
    (h : literalNode? (tokenAt tokens i) = some n) : Framed { n with field } := by
  have hlaid := (hs.tiled i n h).laid
  have hleaves := literal_leaves h
  obtain ⟨kind, opening, cs, rfl, _, hspan⟩ := literal_cases h
  refine framed_ofChildren hlaid ?_ (fun m hm => (hleaves m hm).2)
    fun m hm => .leaf (hleaves m hm).1 (hlaid.mem hm).2.1
  rw [hspan]
  exact Nat.lt_succ_self _

/-! ### Damage -/

theorem mem_extract {p m : Nat} {token : Token} (h : token ∈ (tokens.extract p m).toList) :
    ∃ i, p ≤ i ∧ i < m ∧ token = tokenAt tokens i := by
  obtain ⟨k, hk, rfl⟩ := Array.mem_extract_iff_getElem.mp (Array.mem_def.mpr h)
  have hsize : p + k < tokens.size := by omega
  exact ⟨p + k, by omega, by omega, by simp [tokenAt, Array.getD_eq_getD_getElem?, hsize]⟩

theorem damageOver_children {p m : Nat} (hs : IsStream tokens) (lt : p < m)
    (real : ∀ i, p ≤ i → i < m → kindAt tokens i ≠ .endOfFile) :
    (tokens.extract p m).toList.map skippedLeaf =
      skippedLeaf (tokenAt tokens p) :: (tokens.extract (p + 1) m).toList.map skippedLeaf := by
  have := hs.succ_lt_of_real (real (m - 1) (by omega) (by omega))
  rw [extract_eq_cons lt (by omega), List.map_cons]

theorem damage_span (hs : IsStream tokens) {p m : Nat} (lt : p < m)
    (real : ∀ i, p ≤ i → i < m → kindAt tokens i ≠ .endOfFile) :
    (damageOver tokens p m).span = ⟨(spanAt tokens p).start, stopBefore tokens m⟩ := by
  have hlaid := skipped_laid hs lt.le real
  rw [damageOver]
  rw [damageOver_children hs lt real] at hlaid ⊢
  exact hlaid.cover_eq

theorem damage_framed (hs : IsStream tokens) {p m : Nat} (field : Option Field) (lt : p < m)
    (real : ∀ i, p ≤ i → i < m → kindAt tokens i ≠ .endOfFile) :
    Framed { damageOver tokens p m with field } := by
  have hlaid := skipped_laid hs lt.le real
  have hleaf : ∀ n ∈ (tokens.extract p m).toList.map skippedLeaf,
      n.children = [] ∧ n.extra = false := by
    intro n hn
    obtain ⟨token, _, rfl⟩ := List.mem_map.mp hn
    exact ⟨rfl, rfl⟩
  rw [damageOver]
  rw [damageOver_children hs lt real] at hlaid hleaf ⊢
  exact framed_ofChildren hlaid (hs.start_lt_stop (real p (Nat.le_refl _) lt))
    (fun n hn => (hleaf n hn).2) fun n hn => .leaf (hleaf n hn).1 (hlaid.mem hn).2.1

/-! ### Forests -/

/-- Whether a node stands for a mark that the parser makes up when it is absent. -/
def IsClosing (n : Node) : Prop :=
  n.symbol = .punctuation .semicolon ∨ n.symbol = .punctuation .rightBrace

namespace Forest
variable {p q : Nat} {ps : List Problem} {ns : List Node}

theorem plain (h : Forest tokens p q ps ns) : ∀ n ∈ ns, n.extra = false := by
  induction h with
  | nil => nofun
  | token _ _ _ ih | signed _ _ _ _ _ _ ih | absent _ _ _ ih | inner _ _ _ _ _ _ _ ih
  | damage _ _ _ _ _ ih =>
    rintro n (_ | ⟨_, hn⟩)
    · rfl
    · exact ih n hn
  | literal _ made _ ih =>
    obtain ⟨kind, opening, cs, rfl, _⟩ := literal_cases made
    rintro n (_ | ⟨_, hn⟩)
    · rfl
    · exact ih n hn

/-- The first node covers something, unless it was made up. -/
theorem first_proper (hs : IsStream tokens) {n : Node} (h : Forest tokens p q ps (n :: ns))
    (hpresent : n.missing = false) : n.span.start < n.span.stop := by
  have hlaid := h.laid hs
  generalize hl : n :: ns = nodes at h
  induction h generalizing n ns with
  | nil => cases hl
  | token _ reads =>
    cases hl
    exact hs.start_lt_stop (real_of_readsAs reads)
  | @signed p q ps ns text field sign number digits touching =>
    cases hl
    have hsign := isSign_ne_endOfFile sign
    have hlt := hs.start_lt_stop hsign
    have hlt' := hs.start_lt_stop (number_real number)
    simp only [Node.withField, Node.leaf, hs.merge_eq hsign (number_real number)]
    omega
  | literal field made =>
    cases hl
    cases literal_framed hs field made with
    | leaf hchildren =>
      obtain ⟨_, _, _, rfl, _⟩ := literal_cases made
      cases hchildren
    | inner hchildren start proper _ _ laid =>
      rw [← start]
      rw [hchildren] at laid
      exact proper.trans_le (laid.mem (List.mem_cons_self ..)).2.2
  | absent =>
    cases hl
    cases hpresent
  | inner field children row nonempty _ _ ihc =>
    cases hl
    obtain ⟨c, cs, rfl⟩ := List.exists_cons_of_ne_nil nonempty
    have hcs := children.laid hs
    have hproper := ihc (children.head_present row) hcs rfl
    have hspan := hcs.cover_eq
    simp only [Node.ofChildren, hspan]
    exact hproper.trans_le (hcs.mem (List.mem_cons_self ..)).2.2
  | damage field lt real =>
    cases hl
    cases damage_framed hs field lt real with
    | leaf hchildren =>
      rw [damageOver, damageOver_children hs lt real] at hchildren
      cases hchildren
    | inner hchildren start proper _ _ laid =>
      rw [← start]
      rw [hchildren] at laid
      exact proper.trans_le (laid.mem (List.mem_cons_self ..)).2.2

theorem framed (hs : IsStream tokens) (h : Forest tokens p q ps ns) : ∀ n ∈ ns, Framed n := by
  induction h with
  | nil => nofun
  | token _ reads _ ih =>
    rintro n (_ | ⟨_, hn⟩)
    · exact .leaf rfl (hs.start_lt_stop (real_of_readsAs reads)).le
    · exact ih n hn
  | @signed p q ps ns text field sign number digits touching place rest ih =>
    have hlaid := (Forest.signed sign number digits touching place rest).laid hs
    rintro n (_ | ⟨_, hn⟩)
    · exact .leaf rfl (hlaid.mem (List.mem_cons_self ..)).2.1
    · exact ih n hn
  | literal field made _ ih =>
    rintro n (_ | ⟨_, hn⟩)
    · exact literal_framed hs field made
    · exact ih n hn
  | absent _ _ _ ih =>
    rintro n (_ | ⟨_, hn⟩)
    · exact .leaf rfl (Nat.le_refl _)
    · exact ih n hn
  | inner field children row nonempty _ _ ihc ih =>
    rintro n (_ | ⟨_, hn⟩)
    · obtain ⟨c, cs, rfl⟩ := List.exists_cons_of_ne_nil nonempty
      exact framed_ofChildren (children.laid hs)
        (children.first_proper hs (children.head_present row)) children.plain ihc
    · exact ih n hn
  | damage field lt real _ _ ih =>
    rintro n (_ | ⟨_, hn⟩)
    · exact damage_framed hs field lt real
    · exact ih n hn

/-- Only marks that close a statement or a block are made up. -/
theorem missing_closing (h : Forest tokens p q ps ns) :
    ∀ n ∈ ns, n.missing = true → IsClosing n := by
  induction h with
  | nil => nofun
  | token _ _ _ ih | signed _ _ _ _ _ _ ih | inner _ _ _ _ _ _ _ ih | damage _ _ _ _ _ ih =>
    rintro n (_ | ⟨_, hn⟩)
    · nofun
    · exact ih n hn
  | literal _ made _ ih =>
    obtain ⟨kind, opening, cs, rfl, _⟩ := literal_cases made
    rintro n (_ | ⟨_, hn⟩)
    · nofun
    · exact ih n hn
  | absent _ closing _ ih =>
    rintro n (_ | ⟨_, hn⟩)
    · rintro -
      exact closing.imp (congrArg Symbol.punctuation) fun h => congrArg Symbol.punctuation h.1
    · exact ih n hn

end Forest

/-! ### Forests of a source -/

theorem literal_span (hs : IsStream tokens) {i : Nat} {n : Node}
    (h : literalNode? (tokenAt tokens i) = some n) : n.span = spanAt tokens i := by
  have hlaid := (hs.tiled i n h).laid
  obtain ⟨kind, opening, cs, rfl, _, hspan⟩ := literal_cases h
  refine hlaid.cover_eq.trans ?_
  rw [hspan]
  rfl

variable {source : String}

theorem stopBefore_isValid {p : Nat} (hp : p ≤ (lex source).tokens.size) :
    (⟨stopBefore (lex source).tokens p⟩ : String.Pos.Raw).IsValid source := by
  cases p with
  | zero => exact String.Pos.Raw.isValid_zero
  | succ p =>
    rw [stopBefore_succ]
    exact (spanAt_fits hp).stop

/-- What is true of each node of a source. -/
structure Faithful (source : String) (n : Node) : Prop where
  plain : n.extra = false
  fits : n.span.Fits source
  proper : n.missing = false → n.symbol ≠ .named .regexPattern → n.span.start < n.span.stop
  /-- A closing mark that was made up has been reported. -/
  unended : ∀ c ∈ n.children, c.missing = true → IsClosing c ∨
    (n.symbol = .named .string ∧ ⟨.unterminatedString, n.span⟩ ∈ (lex source).problems.toList) ∨
    (n.symbol = .named .regex ∧ ⟨.unterminatedRegex, n.span⟩ ∈ (lex source).problems.toList)

theorem faithful_leaf {n : Node} (hchildren : n.children = []) (plain : n.extra = false)
    (fits : n.span.Fits source)
    (proper : n.missing = false → n.symbol ≠ .named .regexPattern → n.span.start < n.span.stop) :
    Faithful source n := by
  refine ⟨plain, fits, proper, ?_⟩
  rw [hchildren]
  nofun

theorem literal_faithful {i : Nat} {n : Node} (field : Option Field)
    (h : literalNode? (tokenAt (lex source).tokens i) = some n) :
    Faithful source { n with field } ∧ ∀ m ∈ n.children, Faithful source m := by
  have hs := lex_isStream source
  have htaken := literal_takenApart h
  have hleaves := literal_leaves h
  have hspan := literal_span hs h
  refine ⟨⟨?_, ?_, fun _ _ => ?_, fun c hc hmissing => ?_⟩, fun m hm => ?_⟩
  · obtain ⟨kind, opening, cs, rfl, _⟩ := literal_cases h
    rfl
  · show n.span.Fits source
    rw [hspan]
    exact spanAt_fits (lt_size_of_real (literal_real h))
  · show n.span.start < n.span.stop
    rw [hspan]
    exact hs.start_lt_stop (literal_real h)
  · have := htaken.unended c hc hmissing
    rw [← hspan] at this
    exact .inr this
  · exact faithful_leaf (hleaves m hm).1 (hleaves m hm).2 (htaken.fits m hm) (htaken.proper m hm)

theorem damage_faithful {p m : Nat} (field : Option Field) (lt : p < m)
    (real : ∀ i, p ≤ i → i < m → kindAt (lex source).tokens i ≠ .endOfFile) :
    Faithful source { damageOver (lex source).tokens p m with field } ∧
      ∀ n ∈ (damageOver (lex source).tokens p m).children, n.children = [] ∧ Faithful source n := by
  have hs := lex_isStream source
  have hm := lt_size_of_real (real (m - 1) (by omega) (by omega))
  have hp := lt_size_of_real (real p (Nat.le_refl _) lt)
  have hspan := damage_span hs lt real
  have hleaf : ∀ n ∈ (damageOver (lex source).tokens p m).children,
      n.children = [] ∧ n.missing = false ∧ Faithful source n := by
    intro n hn
    obtain ⟨token, htoken, rfl⟩ := List.mem_map.mp hn
    obtain ⟨i, hpi, him, rfl⟩ := mem_extract htoken
    have hreal := real i hpi him
    exact ⟨rfl, rfl, faithful_leaf rfl rfl (spanAt_fits (lt_size_of_real hreal))
      fun _ _ => hs.start_lt_stop hreal⟩
  refine ⟨⟨rfl, ?_, fun _ _ => ?_, fun c hc hmissing => ?_⟩,
    fun n hn => ⟨(hleaf n hn).1, (hleaf n hn).2.2⟩⟩
  · show (damageOver (lex source).tokens p m).span.Fits source
    rw [hspan]
    exact ⟨(spanAt_fits hp).start, stopBefore_isValid (by omega)⟩
  · have hstart := hs.start_le (show p ≤ m - 1 by omega) (by omega)
    have hlt := hs.start_lt_stop (real (m - 1) (by omega) (by omega))
    have hstop : stopBefore (lex source).tokens m = (spanAt (lex source).tokens (m - 1)).stop :=
      if_neg (by omega)
    show (damageOver (lex source).tokens p m).span.start <
      (damageOver (lex source).tokens p m).span.stop
    rw [hspan, hstop]
    exact hstart.trans_lt hlt
  · rw [(hleaf c hc).2.1] at hmissing
    cases hmissing

theorem Forest.faithful {p q : Nat} {ps : List Problem} {ns : List Node}
    (h : Forest (lex source).tokens p q ps ns) (hq : q ≤ (lex source).tokens.size) :
    ∀ m ∈ Node.preorderAll ns, Faithful source m := by
  have hs := lex_isStream source
  induction h with
  | nil => nofun
  | token _ reads _ ih =>
    have real := real_of_readsAs reads
    intro m hm
    rcases Node.mem_preorderAll_cons.mp hm with rfl | hm | hm
    · exact faithful_leaf rfl rfl (spanAt_fits (lt_size_of_real real))
        fun _ _ => hs.start_lt_stop real
    · cases hm
    · exact ih hq m hm
  | @signed p q ps ns text field sign number digits touching place rest ih =>
    have hsign := isSign_ne_endOfFile sign
    have hnumber := number_real number
    intro m hm
    rcases Node.mem_preorderAll_cons.mp hm with rfl | hm | hm
    · have hproper := (Forest.signed sign number digits touching place rest).first_proper hs rfl
      refine faithful_leaf rfl rfl ?_ fun _ _ => hproper
      simp only [Node.withField, Node.leaf, hs.merge_eq hsign hnumber]
      exact ⟨(spanAt_fits (lt_size_of_real hsign)).start,
        (spanAt_fits (lt_size_of_real hnumber)).stop⟩
    · cases hm
    · exact ih hq m hm
  | literal field made _ ih =>
    obtain ⟨hnode, hchildren⟩ := literal_faithful field made
    intro m hm
    rcases Node.mem_preorderAll_cons.mp hm with rfl | hm | hm
    · exact hnode
    · rw [Node.mem_preorderAll_leaves fun n hn => (literal_leaves made n hn).1] at hm
      exact hchildren m hm
    · exact ih hq m hm
  | absent _ _ rest ih =>
    have hvalid := stopBefore_isValid (rest.le.trans hq)
    intro m hm
    rcases Node.mem_preorderAll_cons.mp hm with rfl | hm | hm
    · exact faithful_leaf rfl rfl ⟨hvalid, hvalid⟩ nofun
    · cases hm
    · exact ih hq m hm
  | inner field children row nonempty orderly rest ihc ih =>
    have hm := rest.le.trans hq
    intro n hn
    rcases Node.mem_preorderAll_cons.mp hn with rfl | hn | hn
    · obtain ⟨c, cs, rfl⟩ := List.exists_cons_of_ne_nil nonempty
      have hspan := (children.laid hs).cover_eq
      have hproper := (Forest.inner field children row nonempty orderly rest).first_proper hs rfl
      refine ⟨rfl, ?_, fun _ _ => hproper,
        fun c hc hmissing => .inl (children.missing_closing c hc hmissing)⟩
      simp only [Node.ofChildren, hspan]
      exact ⟨(ihc hm c (Node.mem_preorderAll_cons.mpr (.inl rfl))).fits.start,
        stopBefore_isValid hm⟩
    · exact ihc hm n hn
    · exact ih hq n hn
  | damage field lt real _ rest ih =>
    obtain ⟨hnode, hleaves⟩ := damage_faithful field lt real
    intro n hn
    rcases Node.mem_preorderAll_cons.mp hn with rfl | hn | hn
    · exact hnode
    · rw [Node.mem_preorderAll_leaves fun n hn => (hleaves n hn).1] at hn
      exact (hleaves n hn).2
    · exact ih hq n hn

end Parsing

end ScriptTree
