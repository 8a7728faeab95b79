import Mathlib
import ScriptTree.Proofs.Mirror.Steps

/-! What the parts of productions do in two runs: making nodes, reading and requiring tokens, options
and repetition. -/
namespace ScriptTree.Parsing

section Parts
variable {W : World} {S : Stage W} {s t : State}

/-! ### Making nodes -/

section Making
variable {ends : Node → State → Prop}

theorem make_mirrors (hS : S.Coherent) {n n' : Node} (h : W.like n n') :
    Mirrors S ends (make n) s (make n') t W.Nodes :=
  fun haligned _ => ⟨n', _, rfl, hS.world.same haligned ⟨rfl, rfl⟩ ⟨rfl, rfl⟩, h⟩

theorem node_mirrors (hS : S.Coherent) {kind : NodeKind} {children children' : Array Node}
    (h : W.Alike children children') (hne : children.toList ≠ []) :
    Mirrors S ends (node kind children) s (node kind children') t W.Nodes :=
  make_mirrors hS (hS.world.inner kind h hne)

end Making

/-! ### Reading tokens -/

theorem advance_mirrors (hS : S.Coherent) {ends : Token → State → Prop} [Vital W ends]
    (hreal : kindAt W.left s.position ≠ .endOfFile) :
    Mirrors S ends advance s advance t fun token s' token' =>
      W.TokenLike token token' ∧ s' = { s with position := s.position + 1 } := by
  refine .of_clear (fun _ => dies_of_forward hS hreal) fun hclear haligned => ?_
  have hlike := hS.world.token haligned hclear
  have hreal' : kindAt W.right t.position ≠ .endOfFile := hlike.kind.eq_endOfFile.not.mp hreal
  have hleft : advance S.left s = _ := run_advance hreal
  rw [hleft]
  exact fun hends => ⟨_, _, run_advance hreal',
    hS.world.advance haligned hclear hreal (Vital.live hends), hlike, rfl⟩

section Reading
variable {ends : Node → State → Prop} [Vital W ends]

/-- Reading a token as a leaf with a symbol, and where that leads on the left. -/
theorem bumpSymbol_next_mirrors (hS : S.Coherent) {symbol : Symbol}
    (hreal : kindAt W.left s.position ≠ .endOfFile) :
    Mirrors S ends (bumpSymbol symbol) s (bumpSymbol symbol) t fun n s' n' =>
      W.like n n' ∧ Same { s with position := s.position + 1 } s' :=
  (advance_mirrors hS hreal).bind hS fun _ s₁ _ t₁ ⟨htoken, hs₁⟩ haligned hends =>
    ⟨_, _, rfl, hS.world.same haligned ⟨rfl, rfl⟩ ⟨rfl, rfl⟩, htoken.leaf symbol, by rw [hs₁], by rw [hs₁]⟩

theorem bumpAs_mirrors (hS : S.Coherent) {kind : NodeKind}
    (hreal : kindAt W.left s.position ≠ .endOfFile) :
    Mirrors S ends (bumpAs kind) s (bumpAs kind) t W.Nodes :=
  (bumpSymbol_next_mirrors hS hreal).mono fun _ _ _ h => h.1

/-- Reading a token, and where that leads on the left. -/
theorem bump_next_mirrors (hS : S.Coherent) (hreal : kindAt W.left s.position ≠ .endOfFile) :
    Mirrors S ends bump s bump t fun n s' n' =>
      W.like n n' ∧ Same { s with position := s.position + 1 } s' := by
  refine .of_clear (fun _ => dies_of_forward hS hreal) fun hclear => .of_aligned fun haligned => ?_
  unfold bump
  rw [mirrors_peekKind_bind, (hS.world.kindLike haligned hclear).symbolOf_eq]
  exact bumpSymbol_next_mirrors hS hreal

theorem bump_mirrors (hS : S.Coherent) (hreal : kindAt W.left s.position ≠ .endOfFile) :
    Mirrors S ends bump s bump t W.Nodes :=
  (bump_next_mirrors hS hreal).mono fun _ _ _ h => h.1

end Reading

/-! ### Requiring tokens -/

section Requiring
variable {α β : Type} {ends : α → State → Prop} {R : α → State → β → Prop}

/-- A failure for a token ahead. -/
theorem Mirrors.fail (hS : S.Coherent) {problem problem' : Problem}
    (hkind : problem.cause.kind ≠ .missing)
    (h : W.aligned s t → W.Clear s → W.problem problem problem') :
    Mirrors S ends (throw problem : Parse α) s (throw problem' : Parse β) t R :=
  fun haligned hlive => ⟨problem', t, rfl, haligned,
    h haligned (hS.world.stern .refl hkind hlive)⟩

theorem unexpected_mirrors (hS : S.Coherent) {what : Expected} :
    Mirrors S ends (unexpected what : Parse α) s (unexpected what : Parse β) t R := by
  unfold unexpected
  rw [mirrors_peek_bind]
  exact .fail hS nofun fun haligned hclear => (hS.world.token haligned hclear).expected what

theorem demand_same_mirrors (hS : S.Coherent) {ends : Unit → State → Prop} {holds : Bool}
    {what : Expected} : Mirrors S ends (demand holds what) s (demand holds what) t fun _ _ _ => True := by
  cases holds with
  | true => exact .pure trivial
  | false => exact unexpected_mirrors hS

theorem dies_of_unexpected (hS : S.Coherent) {what : Expected} (hpending : ¬W.Clear s) :
    Dies S ends (unexpected what : Parse α) s :=
  fun hlive => hpending (hS.world.stern .refl (by exact nofun) hlive)

end Requiring

/-- A token that has to be there, where nothing is pending. -/
theorem require_mirrors (hS : S.Coherent) {α α' : Type} {ends : α → State → Prop} {A : Parse α}
    {A' : Parse α'} {R : α → State → α' → Prop} {p : TokenKind → Bool} {what : Expected}
    (hlike : ∀ {k k'}, KindLike k k' → p k = p k') (hclear : W.Clear s)
    (hthen : p (kindAt W.left s.position) = true → Mirrors S ends A s A' t R) :
    Mirrors S ends (if p (kindAt W.left s.position) = true then A else unexpected what) s
      (if p (kindAt W.right t.position) = true then A' else unexpected what) t R := by
  exact .same hS hlike hclear hthen fun _ => unexpected_mirrors hS

section Expecting
variable {ends : Node → State → Prop} [Vital W ends]

theorem expect_mirrors (hS : S.Coherent) {mark : Punctuation} :
    Mirrors S ends (expect mark) s (expect mark) t W.Nodes := by
  refine .fresh hS (expect_reads hS.world.streamLeft mark) (fun _ _ h => h.lt) fun hclear => ?_
  unfold expect
  rw [mirrors_sees_bind]
  refine require_mirrors hS (·.isPunctuation_eq mark) hclear fun h => bump_mirrors hS ?_
  rw [isPunctuation_iff.mp h]
  exact nofun

theorem expectOperator_mirrors (hS : S.Coherent) {o : Operator} :
    Mirrors S ends (expectOperator o) s (expectOperator o) t W.Nodes := by
  refine .fresh hS (expectOperator_reads hS.world.streamLeft o) (fun _ _ h => h.lt) fun hclear => ?_
  unfold expectOperator
  rw [mirrors_seesOperator_bind]
  refine require_mirrors hS (·.isOperator_eq o) hclear fun h => bump_mirrors hS ?_
  rw [isOperator_iff.mp h]
  exact nofun

theorem expectWord_mirrors (hS : S.Coherent) {word : Keyword} {what : Expected} :
    Mirrors S ends (expectWord word what) s (expectWord word what) t W.Nodes := by
  refine .fresh hS (expectWord_reads hS.world.streamLeft word what) (fun _ _ h => h.lt) fun hclear => ?_
  unfold expectWord
  rw [mirrors_seesWord_bind]
  refine require_mirrors hS (·.isKeyword_eq word) hclear fun h => bump_mirrors hS ?_
  rw [isKeyword_iff.mp h]
  exact nofun

theorem expectIdentifier_mirrors (hS : S.Coherent) {kind : NodeKind} {what : Expected}
    (hname : nameKinds.contains kind = true) :
    Mirrors S ends (expectIdentifier kind what) s (expectIdentifier kind what) t W.Nodes := by
  refine .fresh hS (expectIdentifier_reads hS.world.streamLeft hname) (fun _ _ h => h.lt)
    fun hclear => ?_
  unfold expectIdentifier
  rw [mirrors_seesIdentifier_bind]
  refine require_mirrors hS (·.isIdentifier_eq) hclear fun h => bumpAs_mirrors hS ?_
  obtain ⟨name, hname⟩ := isIdentifier_iff.mp h
  rw [hname]
  exact nofun

theorem run_bump {scope : Scope} (h : kindAt scope.tokens s.position ≠ .endOfFile) :
    bump scope s =
      let n := Node.leaf (symbolOf (kindAt scope.tokens s.position))
        (spanAt scope.tokens s.position)
      .ok n { s with position := s.position + 1, made := keep s.made n } := by
  show (advance >>= fun token => leaf (symbolOf (kindAt scope.tokens s.position)) token.span)
    scope s = _
  rw [run_bind_ok (run_advance h)]
  rfl

theorem run_expectOrMissing_mark (scope : Scope) {mark : Punctuation}
    (h : kindAt scope.tokens s.position = .punctuation mark) :
    expectOrMissing mark scope s =
      let n := Node.leaf (.punctuation mark) (spanAt scope.tokens s.position)
      .ok n { s with position := s.position + 1, made := keep s.made n } := by
  show (if (kindAt scope.tokens s.position).isPunctuation mark = true then bump else _ :
    Parse Node) scope s = _
  rw [if_pos (isPunctuation_iff.mpr h), run_bump (by rw [h]; exact nofun), h]
  rfl

theorem run_expectOrMissing (scope : Scope) {mark : Punctuation}
    (h : kindAt scope.tokens s.position ≠ .punctuation mark) :
    expectOrMissing mark scope s =
      let report := s.report (World.missing scope.tokens s.position mark)
      let n := World.absent scope.tokens s.position mark
      .ok n { report with made := keep report.made n } := by
  show (if (kindAt scope.tokens s.position).isPunctuation mark = true then bump else _ :
    Parse Node) scope s = _
  rw [if_neg (isPunctuation_iff.not.mpr h)]
  rfl

/-- A mark that is read or made up on both sides, or made up on the left and read on the right. -/
theorem expectOrMissing_mirrors (hS : S.Coherent) {mark : Punctuation} :
    Mirrors S ends (expectOrMissing mark) s (expectOrMissing mark) t W.Nodes := by
  refine .of_aligned fun haligned => ?_
  by_cases hkind : kindAt W.left s.position = .punctuation mark
  · have hreal : kindAt W.left s.position ≠ .endOfFile := by
      rw [hkind]
      exact nofun
    have hsees : (kindAt W.left s.position).isPunctuation mark = true := isPunctuation_iff.mpr hkind
    unfold expectOrMissing
    rw [mirrors_sees_bind, if_pos hsees]
    refine .of_clear (fun _ => dies_of_forward hS hreal) fun hclear => ?_
    rw [if_pos ((hS.world.kindLike haligned hclear).isPunctuation_eq mark ▸ hsees)]
    exact bump_mirrors hS hreal
  · intro _
    rw [run_expectOrMissing S.left hkind]
    intro hends
    -- Whether an end is live does not depend on the nodes made.
    have hend := Vital.live (W := W) hends
    have hlive : W.live (s.report (World.missing W.left s.position mark)) := by
      refine hS.world.live_of_same ?_ hend
      exact ⟨rfl, rfl⟩
    rcases hS.world.lacking hlive with hclear | hahead
    · obtain ⟨hreports, hmarks⟩ := hS.world.lacked haligned hclear hlive
      have hkind' : kindAt W.right t.position ≠ .punctuation mark := by
        intro h
        rw [← isPunctuation_iff, ← (hS.world.kindLike haligned hclear).isPunctuation_eq mark] at h
        exact hkind (isPunctuation_iff.mp h)
      exact ⟨_, _, run_expectOrMissing S.right hkind',
        hS.world.same hreports ⟨rfl, rfl⟩ ⟨rfl, rfl⟩, hmarks⟩
    · obtain ⟨hreads, hmarks⟩ := hS.world.supplied haligned hahead hlive
      have hkind' := (hS.world.ahead haligned hahead).1
      exact ⟨_, _, run_expectOrMissing_mark S.right hkind',
        hS.world.same hreads ⟨rfl, rfl⟩ ⟨rfl, rfl⟩, hmarks⟩

/-- Where another mark is pending, none is made up. -/
theorem dies_of_expectOrMissing (hS : S.Coherent) {mark : Punctuation} (hpending : ¬W.Clear s)
    (hother : W.pending s ≠ some mark) : Dies S ends (expectOrMissing mark) s := by
  by_cases hkind : kindAt W.left s.position = .punctuation mark
  · have hreal : kindAt W.left s.position ≠ .endOfFile := by
      rw [hkind]
      exact nofun
    show Dies S ends (if (kindAt W.left s.position).isPunctuation mark = true then bump else _) s
    rw [if_pos (isPunctuation_iff.mpr hkind)]
    exact dies_of_forward hS hreal hpending
  · unfold Dies
    rw [run_expectOrMissing S.left hkind]
    intro hends
    have hlive : W.live (s.report (World.missing W.left s.position mark)) := by
      refine hS.world.live_of_same ?_ (Vital.live (W := W) hends)
      exact ⟨rfl, rfl⟩
    rcases hS.world.lacking hlive with hclear | hahead
    · exact hpending hclear
    · exact hother hahead

end Expecting

/-! ### Options and repetition -/

section Repetition
variable {α α' : Type}

theorem optionally_mirrors (hS : S.Coherent) {ends : Array Node → State → Prop} [Vital W ends]
    {p : TokenKind → Bool} (hp : Telling p) {part part' : Parse (Array Node)} [Forward part]
    [Composed part]
    (hpart : W.Clear s → p (kindAt W.left s.position) = true →
      Mirrors S ends part s part' t W.Lists) :
    Mirrors S ends (optionally (p (kindAt W.left s.position)) part) s
      (optionally (p (kindAt W.right t.position)) part') t W.Lists := by
  unfold optionally
  exact .branch hS hp hpart fun _ => .pure .nil

/-- A mark that has to be there, without being read yet. -/
theorem demand_mirrors (hS : S.Coherent) {ends : α → State → Prop} [Vital W ends]
    {p : TokenKind → Bool} (hp : Telling p) {what : Expected} {f : Unit → Parse α}
    {f' : Unit → Parse α'} {R : α → State → α' → Prop} [Forward (f ())] [Composed (f ())]
    (h : W.Clear s → p (kindAt W.left s.position) = true → Mirrors S ends (f ()) s (f' ()) t R) :
    Mirrors S ends (demand (p (kindAt W.left s.position)) what >>= f) s
      (demand (p (kindAt W.right t.position)) what >>= f') t R := by
  have hdemand {β : Type} (holds : Bool) (g : Unit → Parse β) :
      (demand holds what >>= g) = if holds = true then g () else unexpected what := by
    cases holds <;> rfl
  rw [hdemand, hdemand]
  exact .branch hS hp h fun _ => unexpected_mirrors hS

/-- Whether two rounds both go on or both stop, and with what. -/
def Paired (R stop : α → State → α' → Prop) : Round α → State → Round α' → Prop
  | .more a, s', .more a' => R a s' a'
  | .done a, s', .done a' => stop a s' a'
  | _, _, _ => False

/-- The same, and a round that goes on has read something. -/
def Abreast (s : State) (R stop : α → State → α' → Prop) (r : Round α) (s' : State)
    (r' : Round α') : Prop :=
  Paired R stop r s' r' ∧ ∀ a, r = .more a → s.position < s'.position

theorem Abreast.done {s s' : State} {R stop : α → State → α' → Prop} {a : α} {a' : α'}
    (h : stop a s' a') : Abreast s R stop (.done a) s' (.done a') := ⟨h, nofun⟩

/-- The ends of rounds that count, if only certain ones count of the whole loop. -/
def World.Between (W : World) (ends : α → State → Prop) : Round α → State → Prop
  | .more _, s => W.live s
  | .done a, s => ends a s

instance (ends : α → State → Prop) [Vital W ends] : Vital W (W.Between ends) where
  live {r s} h := by
    cases r with
    | more a => exact h
    | done a =>
      have hends : ends a s := h
      exact Vital.live hends

variable {ends : α → State → Prop} {R stop : α → State → α' → Prop}
  {round : α → Parse (Round α)} {round' : α' → Parse (Round α')}

/-- A round that begins with reading. -/
theorem Mirrors.advancing (hS : S.Coherent) {ends : Round α → State → Prop} {m : Parse (Round α)}
    {m' : Parse (Round α')} [Forward m] (hreal : kindAt W.left s.position ≠ .endOfFile)
    (h : Mirrors S ends m s m' t (Paired R stop)) :
    Mirrors S ends m s m' t (Abreast s R stop) :=
  (h.past hS hreal).mono fun _ _ _ h => ⟨h.1, fun _ _ => h.2⟩

theorem rounds_mirrors (hS : S.Coherent) [Vital W ends] [∀ a, Composed (round a)]
    (hround : ∀ a s a' t, R a s a' →
      Mirrors S (W.Between ends) (round a) s (round' a') t (Abreast s R stop)) :
    ∀ (n n' : Nat) (a : α) (s : State) (a' : α') (t : State), n ≤ n' →
      W.left.size < s.position + n + 1 → R a s a' →
      Mirrors S ends (rounds round n a) s (rounds round' n' a') t stop := by
  intro n
  induction n with
  | zero =>
    intro n' a s a' t _ hfuel _
    refine .of_aligned fun haligned => ?_
    have := (hS.world.inside haligned).1
    omega
  | succ n ih =>
    intro n' a s a' t hle hfuel hr
    obtain ⟨n', rfl⟩ := Nat.exists_eq_add_one_of_ne_zero (show n' ≠ 0 by omega)
    refine (hround a s a' t hr).bindTo (fun r s₁ r' t₁ _ habreast => ?_) fun r s₁ hends => ?_
    · cases r <;> cases r'
      · exact ih n' _ _ _ _ (by omega) (by have := habreast.2 _ rfl; omega) habreast.1
      · exact habreast.1.elim
      · exact habreast.1.elim
      · exact .pure habreast.1
    · cases r with
      | more b => exact dies_of_dead hS (m := rounds round n b) hends
      | done b => exact hends

/-- Rounds that are taken alike as long as it matters. -/
theorem repeatFrom_mirrors (hS : S.Coherent) [Vital W ends] [∀ a, Composed (round a)]
    {a : α} {a' : α'} (ha : R a s a')
    (hround : ∀ a s a' t, R a s a' →
      Mirrors S (W.Between ends) (round a) s (round' a') t (Abreast s R stop)) :
    Mirrors S ends (repeatFrom a round) s (repeatFrom a' round') t stop := by
  refine .of_aligned fun haligned => ?_
  have hinside := hS.world.inside haligned
  exact rounds_mirrors hS hround (W.left.size - s.position + 1) (W.right.size - t.position + 1)
    a s a' t (by omega) (by omega) ha

/-- In front of a pending mark, no closing mark is found. -/
theorem dies_of_expect (hS : S.Coherent) [Vital W ends] {mark : Punctuation} {f : Node → Parse α}
    [∀ n, Composed (f n)] (hpending : ¬W.Clear s) : Dies S ends (expect mark >>= f) s := by
  by_cases hend : kindAt W.left s.position = .endOfFile
  · have hrun : expect mark S.left s = .error ⟨.expected (.mark mark)
        (kindAt W.left s.position).describe, spanAt W.left s.position⟩ s := by
      show (if (kindAt W.left s.position).isPunctuation mark = true then _ else _ : Parse Node)
        S.left s = _
      rw [if_neg (by rw [hend]; exact Bool.false_ne_true)]
      rfl
    unfold Dies
    rw [run_bind_error hrun]
    exact fun hlive => hpending (hS.world.stern .refl (by exact nofun) hlive)
  · exact dies_of_forward hS hend hpending

end Repetition

/-- Children are collected, and a node is made of them when the closing mark is there. -/
theorem collect_mirrors (hS : S.Coherent) {ends : Node → State → Prop} [Vital W ends]
    {kind : NodeKind} {closing : Punctuation} {children children' : Array Node}
    {round round' : Array Node → Parse (Round (Array Node))} [∀ a, Composed (round a)]
    (h : W.Alike children children')
    (hround : ∀ a s a' t, W.Alike a a' →
      Mirrors S (W.Between W.Settled) (round a) s (round' a') t (Abreast s W.Lists W.Lists)) :
    Mirrors S ends
      (repeatFrom children round >>= fun children => expect closing >>= fun last =>
        node kind (children.push last)) s
      (repeatFrom children' round' >>= fun children => expect closing >>= fun last =>
        node kind (children.push last)) t W.Nodes := by
  refine (repeatFrom_mirrors (R := W.Lists) hS h hround).bindTo (fun a s₁ a' t₁ _ ha => ?_)
    fun a s₁ hends => ?_
  · exact (expect_mirrors hS).bind hS fun last s₂ last' t₂ hlast =>
      node_mirrors hS (ha.push hlast) (by simp)
  · by_cases hlive : W.live s₁
    · exact dies_of_expect hS fun hclear => hends ⟨hlive, hclear⟩
    · exact dies_of_dead hS hlive

section Items
variable {children children' : Array Node}

/-- Children are collected, whatever comes behind them. -/
theorem gather_mirrors (hS : S.Coherent) {round round' : Array Node → Parse (Round (Array Node))}
    [∀ a, Composed (round a)] (h : W.Alike children children')
    (hround : ∀ a s a' t, W.Alike a a' →
      Mirrors S (W.Between W.Live) (round a) s (round' a') t (Abreast s W.Lists W.Lists)) :
    Mirrors S W.Live (repeatFrom children round) s (repeatFrom children' round') t W.Lists :=
  repeatFrom_mirrors (R := W.Lists) hS h hround

/-- A round that stops in front of the closing mark. Where a mark is pending, it makes no difference
on which side the closing mark is seen. -/
theorem unlessClosing_mirrors (hS : S.Coherent) {closing : Punctuation}
    {rest rest' : Parse (Round (Array Node))} (h : W.Alike children children')
    (hdies : W.aligned s t → ¬W.Clear s → Dies S (W.Between W.Settled) rest s)
    (hrest : Mirrors S (W.Between W.Settled) rest s rest' t (Abreast s W.Lists W.Lists)) :
    Mirrors S (W.Between W.Settled)
      (sees closing >>= fun there => if there = true then pure (.done children) else rest) s
      (sees closing >>= fun there => if there = true then pure (.done children') else rest') t
      (Abreast s W.Lists W.Lists) := by
  refine .of_clear (fun haligned hpending => ?_) fun hclear => ?_
  · rw [dies_sees_bind]
    exact .ite (fun _ hends => hpending hends.2) fun _ => hdies haligned hpending
  · rw [mirrors_sees_bind]
    exact .same hS (·.isPunctuation_eq closing) hclear (fun _ => .pure (.done h)) fun _ => hrest

variable {item : Parse Node} [Composed item] {roles : List Role}

omit [Composed item] in
/-- An item, and a comma if there is one; without, it is the last. -/
theorem addItem_mirrors (hS : S.Coherent) {ends : Array Node → State → Prop} [Vital W ends]
    (h : W.Alike children children')
    (hreads : Reads S.left (some s.position) item s (Gives W.left roles s))
    (hitem : Mirrors S W.Live item s item t W.Nodes) :
    Mirrors S (W.Between ends)
      (item >>= fun n => sees .comma >>= fun there =>
        if there = true then bump >>= fun comma => pure (.more ((children.push n).push comma))
        else pure (.done (children.push n))) s
      (item >>= fun n => sees .comma >>= fun there =>
        if there = true then bump >>= fun comma => pure (.more ((children'.push n).push comma))
        else pure (.done (children'.push n))) t (Abreast s W.Lists W.Lists) := by
  have hcomma := telling_mark .comma (by decide)
  refine (hitem.reading hS hreads).bind hS fun n s₁ n' t₁ hn => ?_
  rw [mirrors_sees_bind]
  refine .branch hS hcomma (fun _ hkind => ?_) fun _ => .pure (.done (h.push hn.1))
  have hreal := hcomma.real_of hkind
  exact ((bump_mirrors hS hreal).past hS hreal).bind hS fun comma s₂ comma' t₂ hlast =>
    .pure ⟨(h.push hn.1).push hlast.1, fun _ _ => hn.2.lt.trans hlast.2⟩

/-- In front of a pending mark, no item is found. -/
theorem dies_of_item (hS : S.Coherent) [Forward item] {α : Type} {ends : α → State → Prop}
    [Vital W ends] {f : Node → Parse α} [∀ n, Composed (f n)]
    (hreads : Reads S.left (some s.position) item s (Gives W.left roles s))
    (haligned : W.aligned s t) (hpending : ¬W.Clear s) : Dies S ends (item >>= f) s := by
  have hdies : Dies S W.Live item s :=
    dies_of_unclear hS hreads (fun _ _ hn => hn.lt) haligned hpending
  exact hdies.bind fun _ _ hdead => dies_of_dead hS hdead

end Items

set_option synthInstance.maxSize 256 in
/-- Items between two marks. -/
theorem listOf_mirrors (hS : S.Coherent) {ends : Node → State → Prop} [Vital W ends]
    {kind : NodeKind} {opening closing : Punctuation} {item : Parse Node} [Composed item]
    [Forward item] {roles : List Role}
    (hreads : ∀ s, Reads S.left (some s.position) item s (Gives W.left roles s))
    (hitem : ∀ s t, Mirrors S W.Live item s item t W.Nodes) :
    Mirrors S ends (listOf kind opening closing item) s (listOf kind opening closing item) t
      W.Nodes := by
  have hcomma := telling_mark .comma (by decide)
  unfold listOf
  dsimp only
  refine (expect_mirrors hS).bind hS fun first s₁ first' t₁ hfirst => ?_
  refine collect_mirrors hS (.cons hfirst .nil) fun children s₂ children' t₂ h => ?_
  refine unlessClosing_mirrors hS h (fun haligned hpending => ?_) ?_
  · rw [dies_sees_bind]
    exact .ite (fun h => dies_of_forward hS (hcomma.real_of h) hpending)
      fun _ => dies_of_item hS (hreads s₂) haligned hpending
  · rw [mirrors_sees_bind]
    refine .branch hS hcomma (fun _ hkind => .advancing hS (hcomma.real_of hkind) ?_)
      fun _ => addItem_mirrors hS h (hreads s₂) (hitem s₂ t₂)
    exact (bump_mirrors hS (hcomma.real_of hkind)).bind hS fun comma s₃ comma' t₃ hlast =>
      .pure (h.push hlast)

end Parts

end ScriptTree.Parsing
