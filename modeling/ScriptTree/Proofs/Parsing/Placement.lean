import Mathlib
import ScriptTree.Proofs.Parsing.Forest

/-! Where the nodes of a forest stand.

The nodes made of the tokens from `p` up to `q` stand side by side from the end of the token in
front of `p` to the end of the last token (`Forest.laid`), and the first one starts where the token
at `p` starts (`Forest.start_eq`). -/
namespace ScriptTree.Parsing

variable {tokens : Array Token}

/-! ### Tokens -/

theorem stopBefore_succ (i : Nat) : stopBefore tokens (i + 1) = (spanAt tokens i).stop := by
  rw [stopBefore, if_neg (Nat.succ_ne_zero i), Nat.add_sub_cancel]

theorem isSign_ne_endOfFile {kind : TokenKind} (h : isSign kind = true) : kind ≠ .endOfFile := by
  rintro rfl
  cases h

namespace IsStream

theorem succ_lt_of_real (hs : IsStream tokens) {i : Nat} (h : kindAt tokens i ≠ .endOfFile) :
    i + 1 < tokens.size :=
  hs.succ_lt (lt_size_of_real h) h

theorem start_lt_stop (hs : IsStream tokens) {i : Nat} (h : kindAt tokens i ≠ .endOfFile) :
    (spanAt tokens i).start < (spanAt tokens i).stop :=
  hs.proper i (hs.succ_lt_of_real h)

theorem stopBefore_le (hs : IsStream tokens) {i : Nat} (hi : i < tokens.size) :
    stopBefore tokens i ≤ (spanAt tokens i).start := by
  cases i with
  | zero => exact Nat.zero_le _
  | succ i =>
    rw [stopBefore_succ]
    exact hs.ordered i hi

theorem merge_eq (hs : IsStream tokens) {i : Nat} (h : kindAt tokens i ≠ .endOfFile)
    (h' : kindAt tokens (i + 1) ≠ .endOfFile) : (spanAt tokens i).merge (spanAt tokens (i + 1)) =
      ⟨(spanAt tokens i).start, (spanAt tokens (i + 1)).stop⟩ := by
  have hlt := hs.start_lt_stop h
  have hlt' := hs.start_lt_stop h'
  have hle := hs.ordered i (hs.succ_lt_of_real h)
  simp only [Span.merge, Span.mk.injEq]
  omega

end IsStream

theorem number_real {i : Nat} {text : String} (h : kindAt tokens i = .number text) :
    kindAt tokens i ≠ .endOfFile := by
  rw [h]
  exact nofun

theorem literal_real {i : Nat} {n : Node} (h : literalNode? (tokenAt tokens i) = some n) :
    kindAt tokens i ≠ .endOfFile := by
  intro heof
  have : (tokenAt tokens i).kind = .endOfFile := heof
  rw [literalNode?, this] at h
  cases h

/-- A string or regular expression becomes a node that begins with its opening mark. -/
theorem literal_cases {token : Token} {n : Node} (h : literalNode? token = some n) :
    ∃ kind opening cs, n = .ofChildren kind (opening :: cs) ∧ opening.missing = false ∧
      opening.span = ⟨token.span.start, token.span.start + 1⟩ := by
  rw [literalNode?] at h
  split at h <;> cases h
  · exact ⟨_, _, _, rfl, rfl, rfl⟩
  · exact ⟨_, _, _, rfl, rfl, rfl⟩

/-! ### Nodes -/

/-- A leaf that covers a token. -/
theorem laid_token (hs : IsStream tokens) {i b : Nat} {n : Node} {ns : List Node}
    (hreal : kindAt tokens i ≠ .endOfFile) (hspan : n.span = spanAt tokens i)
    (hpresent : n.missing = false) (rest : Laid (stopBefore tokens (i + 1)) ns b) :
    Laid (stopBefore tokens i) (n :: ns) b := by
  rw [stopBefore_succ, ← hspan] at rest
  refine .cons ?_ ?_ (fun hmissing => ?_) rest
  · rw [hspan]
    exact hs.stopBefore_le (lt_size_of_real hreal)
  · rw [hspan]
    exact (hs.start_lt_stop hreal).le
  · rw [hpresent] at hmissing
    cases hmissing

theorem skipped_laid (hs : IsStream tokens) {p m : Nat} (hle : p ≤ m)
    (hreal : ∀ i, p ≤ i → i < m → kindAt tokens i ≠ .endOfFile) :
    Laid (stopBefore tokens p) ((tokens.extract p m).toList.map skippedLeaf)
      (stopBefore tokens m) := by
  induction hd : m - p generalizing p with
  | zero =>
    obtain rfl : p = m := by omega
    simpa using Laid.nil
  | succ d ih =>
    have hm : m ≤ tokens.size := by
      have := lt_size_of_real (hreal (m - 1) (by omega) (by omega))
      omega
    rw [extract_eq_cons (by omega) hm, List.map_cons]
    exact laid_token hs (hreal p (Nat.le_refl _) (by omega)) rfl rfl
      (ih (by omega) (fun i hi him => hreal i (by omega) him) (by omega))

/-- A node over children side by side. -/
theorem laid_inner {kind : NodeKind} {a m b : Nat} {field : Option Field} {cs ns : List Node}
    (children : Laid a cs m) (nonempty : cs ≠ []) (rest : Laid m ns b) :
    Laid a ({ Node.ofChildren kind cs with field } :: ns) b := by
  obtain ⟨c, cs, rfl⟩ := List.exists_cons_of_ne_nil nonempty
  have hspan : (Node.ofChildren kind (c :: cs)).span = ⟨c.span.start, m⟩ := children.cover_eq
  cases children with
  | cons after forward _ below =>
    refine .cons ?_ ?_ (fun hmissing => nomatch hmissing) ?_
    · simp only [hspan]
      exact after
    · simp only [hspan]
      exact forward.trans below.le
    · simp only [hspan]
      exact rest

/-- Nodes stand where their tokens are. -/
theorem Forest.laid (hs : IsStream tokens) {p q : Nat} {ps : List Problem} {ns : List Node}
    (h : Forest tokens p q ps ns) : Laid (stopBefore tokens p) ns (stopBefore tokens q) := by
  induction h with
  | nil => exact .nil
  | token field reads _ ih => exact laid_token hs (real_of_readsAs reads) rfl rfl ih
  | @signed p q ps ns text field sign number _ touching _ _ ih =>
    have hnumber := number_real number
    have hsign := isSign_ne_endOfFile sign
    have hlt := hs.start_lt_stop hsign
    have hlt' := hs.start_lt_stop hnumber
    rw [hs.merge_eq hsign hnumber]
    rw [stopBefore_succ] at ih
    refine .cons (hs.stopBefore_le (lt_size_of_real hsign)) ?_ (fun hmissing => nomatch hmissing) ih
    show (spanAt tokens p).start ≤ (spanAt tokens (p + 1)).stop
    omega
  | @literal p q ps ns n field made _ ih =>
    have hlaid := (hs.tiled p n made).laid
    obtain ⟨kind, opening, cs, rfl, hpresent, _⟩ := literal_cases made
    rw [stopBefore_succ] at ih
    exact laid_inner (hlaid.weaken (hs.stopBefore_le (lt_size_of_real (literal_real made))) hpresent)
      (List.cons_ne_nil _ _) ih
  | absent field _ _ ih =>
    exact .cons (Nat.le_refl _) (Nat.le_refl _) (fun _ => rfl) ih
  | inner field _ _ nonempty _ _ ihc ih => exact laid_inner ihc nonempty ih
  | @damage p m q lost problem ps ns field lt real _ _ ih =>
    refine laid_inner (skipped_laid hs lt.le real) ?_ ih
    have hm := lt_size_of_real (real (m - 1) (by omega) (by omega))
    rw [extract_eq_cons lt (by omega)]
    exact List.cons_ne_nil _ _

/-- The first node starts with the first token, unless it was made up. -/
theorem Forest.start_eq (hs : IsStream tokens) {p q : Nat} {ps : List Problem} {n : Node}
    {ns : List Node} (h : Forest tokens p q ps (n :: ns)) (hpresent : n.missing = false) :
    n.span.start = (spanAt tokens p).start := by
  generalize hl : n :: ns = nodes at h
  induction h generalizing n ns with
  | nil => cases hl
  | token =>
    cases hl
    rfl
  | @signed p q ps ns' text field sign number =>
    cases hl
    have hlt := hs.start_lt_stop (isSign_ne_endOfFile sign)
    have hle := hs.ordered p (hs.succ_lt_of_real (isSign_ne_endOfFile sign))
    show min _ _ = _
    omega
  | @literal p q ps ns' n' field made =>
    cases hl
    have hlaid := (hs.tiled p n' made).laid
    obtain ⟨kind, opening, cs, rfl, _, hspan⟩ := literal_cases made
    calc (Node.cover (opening :: cs)).start
        = opening.span.start := by rw [hlaid.cover_eq]
      _ = (spanAt tokens p).start := by rw [hspan]; rfl
  | absent =>
    cases hl
    cases hpresent
  | @inner p m q ps ps' kind cs ns' field children row nonempty _ _ ihc =>
    cases hl
    obtain ⟨c, cs, rfl⟩ := List.exists_cons_of_ne_nil nonempty
    calc (Node.cover (c :: cs)).start
        = c.span.start := by rw [(children.laid hs).cover_eq]
      _ = (spanAt tokens p).start := ihc (children.head_present row) rfl
  | @damage p m q lost problem ps ns' field lt real =>
    cases hl
    have hlaid := skipped_laid hs lt.le real
    have hm := lt_size_of_real (real (m - 1) (by omega) (by omega))
    show (Node.cover ((tokens.extract p m).toList.map skippedLeaf)).start = _
    rw [extract_eq_cons lt (by omega), List.map_cons] at hlaid ⊢
    rw [hlaid.cover_eq]
    rfl

end ScriptTree.Parsing
