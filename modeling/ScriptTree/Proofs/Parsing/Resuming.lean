import Mathlib
import ScriptTree.Proofs.Parsing.Stream

/-! Where parsing resumes, and the braces on the way there.

Braces are counted as they come: `Affords tokens k p k' q` says that from `p` up to `q` none is closed
beyond the `k` that are open in front, and that `k'` are still open behind. Looking for the place to
resume does not close more than was opened by the tokens skipped (`affords_resumeFrom`), and ends in
front of a closing brace, a word that starts a statement or the end, or behind a semicolon
(`boundary_resumeFrom`). -/
namespace ScriptTree.Parsing

variable {tokens : Array Token} {start i p q : Nat} {d : Depth}

/-! ### Going on -/

theorem le_resumeFrom : i ≤ resumeFrom tokens start i d := by
  fun_induction resumeFrom tokens start i d with
  | case1 | case4 => exact Nat.le_refl _
  | case2 => exact Nat.le_succ _
  | case3 i d h kind _ _ ih => exact (Nat.le_succ i).trans ih

theorem EndsOnce.resumeFrom_lt (hs : EndsOnce tokens) (hi : i < tokens.size) :
    resumeFrom tokens start i d < tokens.size := by
  fun_induction resumeFrom tokens start i d with
  | case1 => exact hi
  | case2 i d h kind hgo _ =>
    refine hs.succ_lt h ?_
    rw [kindAt_eq_getElem h]
    intro heof
    exact hgo (by simp [kind, heof])
  | case3 i d h kind hgo _ ih =>
    refine ih (hs.succ_lt h ?_)
    rw [kindAt_eq_getElem h]
    intro heof
    exact hgo (by simp [kind, heof])
  | case4 => omega

theorem resumeFrom_lt (hs : IsStream tokens) (hi : i < tokens.size) :
    resumeFrom tokens start i d < tokens.size :=
  hs.endsOnce.resumeFrom_lt hi

/-- A token is skipped if nothing says to resume in front of it. -/
theorem lt_resumeFrom (h : i < tokens.size) (hreal : kindAt tokens i ≠ .endOfFile)
    (hgo : i = start ∨ resumesBefore d (kindAt tokens i) = false) :
    i < resumeFrom tokens start i d := by
  rw [kindAt_eq_getElem h] at hreal hgo
  have hcond : ¬(tokens[i].kind = .endOfFile ||
      (i != start && resumesBefore d tokens[i].kind)) = true := by
    rcases hgo with rfl | hgo
    · simpa using hreal
    · simpa [hgo] using hreal
  rw [resumeFrom, dif_pos h]
  dsimp only
  rw [if_neg hcond]
  split
  · exact Nat.lt_succ_self i
  · exact Nat.lt_of_succ_le le_resumeFrom

/-! ### Depths -/

/-- How many brackets are open behind others in front of which `depth + 1` are; none if the outermost is
closed among them. -/
def depthBehind : Nat → List Bracket → Option Nat
  | depth, [] => some depth
  | depth, .opening :: brackets => depthBehind (depth + 1) brackets
  | 0, .closing :: _ => none
  | depth + 1, .closing :: brackets => depthBehind depth brackets


theorem depthBehind_append (depth : Nat) (a b : List Bracket) :
    depthBehind depth (a ++ b) = (depthBehind depth a).bind (depthBehind · b) := by
  induction a generalizing depth with
  | nil => rfl
  | cons bracket a ih =>
    match bracket, depth with
    | .opening, depth => exact ih (depth + 1)
    | .closing, 0 => rfl
    | .closing, depth + 1 => exact ih depth

/-- With more brackets open in front, as many more are open behind. -/
theorem depthBehind_add {depth depth' : Nat} {brackets : List Bracket}
    (h : depthBehind depth brackets = some depth') (n : Nat) :
    depthBehind (depth + n) brackets = some (depth' + n) := by
  induction brackets generalizing depth with
  | nil => exact congrArg (some <| · + n) (Option.some.inj h)
  | cons bracket brackets ih =>
    match bracket, depth with
    | .opening, depth =>
      rw [depthBehind, Nat.add_right_comm]
      exact ih h
    | .closing, 0 => cases h
    | .closing, depth + 1 =>
      rw [Nat.add_right_comm]
      rw [depthBehind] at h
      exact ih h

/-! ### Braces -/

/-- The braces among the tokens from one index up to another. -/
def bracesBetween (tokens : Array Token) (p q : Nat) : List Bracket :=
  (kindsBetween tokens p q).filterMap brace?

theorem bracesBetween_self : bracesBetween tokens p p = [] := by
  simp [bracesBetween, kindsBetween]

theorem bracesBetween_append {m : Nat} (hp : p ≤ m) (hq : m ≤ q) :
    bracesBetween tokens p q = bracesBetween tokens p m ++ bracesBetween tokens m q := by
  rw [bracesBetween, kindsBetween_append hp hq, List.filterMap_append]
  rfl

theorem bracesBetween_cons (hlt : p < q) (hq : q ≤ tokens.size) :
    bracesBetween tokens p q =
      (brace? (kindAt tokens p)).toList ++ bracesBetween tokens (p + 1) q := by
  rw [bracesBetween, kindsBetween_cons hlt hq, List.filterMap_cons]
  cases brace? (kindAt tokens p) <;> rfl

theorem bracesBetween_succ (h : p < tokens.size) :
    bracesBetween tokens p (p + 1) = (brace? (kindAt tokens p)).toList := by
  rw [bracesBetween_cons (Nat.lt_succ_self p) h, bracesBetween_self, List.append_nil]

theorem brace?_eq_closing {kind : TokenKind} :
    brace? kind = some .closing ↔ kind = .punctuation .rightBrace := by
  refine ⟨fun h => ?_, fun h => h ▸ rfl⟩
  unfold brace? at h
  split at h <;> first | rfl | cases h

/-- Whether the tokens from `p` up to `q` close no brace beyond `k` that are open in front of them, and
leave `k'` open. -/
structure Affords (tokens : Array Token) (k p k' q : Nat) : Prop where
  le : p ≤ q
  depth : ∃ d, depthBehind k (bracesBetween tokens p q) = some d ∧ k' ≤ d

namespace Affords
variable {k k' k'' m : Nat}

theorem refl : Affords tokens k p k p := ⟨Nat.le_refl p, k, by rw [bracesBetween_self]; rfl, Nat.le_refl k⟩

theorem mono (h : Affords tokens k p k' q) (hle : k'' ≤ k') : Affords tokens k p k'' q := by
  obtain ⟨hpq, d, hd, hk⟩ := h
  exact ⟨hpq, d, hd, hle.trans hk⟩

theorem add (h : Affords tokens k p k' q) (n : Nat) : Affords tokens (k + n) p (k' + n) q := by
  obtain ⟨hpq, d, hd, hk⟩ := h
  exact ⟨hpq, d + n, depthBehind_add hd n, Nat.add_le_add_right hk n⟩

theorem trans (h : Affords tokens k p k' m) (h' : Affords tokens k' m k'' q) :
    Affords tokens k p k'' q := by
  obtain ⟨hpm, d, hd, hk⟩ := h
  -- With the braces that are open beyond `k'`, the rest leaves as many more open.
  obtain ⟨n, rfl⟩ := Nat.exists_eq_add_of_le hk
  obtain ⟨hmq, d', hd', hk'⟩ := h'
  refine ⟨hpm.trans hmq, d' + n, ?_, hk'.trans (Nat.le_add_right d' n)⟩
  rw [bracesBetween_append hpm hmq, depthBehind_append, hd, Option.bind_some]
  exact depthBehind_add hd' n

theorem of_depth (hle : p ≤ q) {d : Nat} (h : depthBehind k (bracesBetween tokens p q) = some d) :
    Affords tokens k p d q :=
  ⟨hle, d, h, Nat.le_refl d⟩

/-- A token that does not close a brace. -/
theorem token (h : p < tokens.size) (hopen : brace? (kindAt tokens p) ≠ some .closing) :
    Affords tokens k p k (p + 1) := by
  refine ⟨Nat.le_succ p, ?_⟩
  rw [bracesBetween_succ h]
  cases hbrace : brace? (kindAt tokens p) with
  | none => exact ⟨k, rfl, Nat.le_refl k⟩
  | some bracket =>
    cases bracket with
    | opening => exact ⟨k + 1, rfl, Nat.le_succ k⟩
    | closing => exact absurd hbrace hopen

theorem opening (h : p < tokens.size) (hopen : brace? (kindAt tokens p) = some .opening) :
    Affords tokens k p (k + 1) (p + 1) :=
  of_depth (Nat.le_succ p) (by rw [bracesBetween_succ h, hopen]; rfl)

theorem closing (h : p < tokens.size) (hclose : brace? (kindAt tokens p) = some .closing) :
    Affords tokens (k + 1) p k (p + 1) :=
  of_depth (Nat.le_succ p) (by rw [bracesBetween_succ h, hclose]; rfl)

/-- Where no brace is open, none is closed first. -/
theorem eq_of_closing (h : Affords tokens 0 p k' q) (hq : q ≤ tokens.size)
    (hclose : brace? (kindAt tokens p) = some .closing) : p = q := by
  refine h.le.eq_or_lt.resolve_right fun hlt => ?_
  obtain ⟨d, hd, _⟩ := h.depth
  rw [bracesBetween_cons hlt hq, hclose] at hd
  cases hd

end Affords

/-! ### Depths as recovery counts them -/

theorem stepDepth_eq {n n' : Nat} {bracket : Option Bracket}
    (h : depthBehind n bracket.toList = some n') : stepDepth n bracket = n' := by
  match bracket, n with
  | none, n | some .opening, n | some .closing, n + 1 => exact Option.some.inj h
  | some .closing, 0 => cases h

theorem foldl_braces {n : Nat} {d : Depth} {l : List Token}
    (h : depthBehind d.braces ((l.map Token.kind).filterMap brace?) = some n) :
    (l.foldl (fun d token => d.after token.kind) d).braces = n := by
  induction l generalizing d with
  | nil => exact Option.some.inj h
  | cons token l ih =>
    have hsplit : (((token :: l).map Token.kind).filterMap brace?) =
        (brace? token.kind).toList ++ (l.map Token.kind).filterMap brace? := by
      rw [List.map_cons, List.filterMap_cons]
      cases brace? token.kind <;> rfl
    rw [hsplit, depthBehind_append] at h
    obtain ⟨n', hn', hrest⟩ := Option.bind_eq_some_iff.mp h
    rw [List.foldl_cons]
    refine ih ?_
    rwa [← stepDepth_eq hn'] at hrest

/-- As long as no brace is closed that is not open, recovery counts as it should. -/
theorem depthBetween_braces {n : Nat} (h : depthBehind 0 (bracesBetween tokens p q) = some n) :
    (depthBetween tokens p q).braces = n := by
  rw [depthBetween, ← Array.foldl_toList]
  exact foldl_braces h

/-- What is skipped behind a failed statement closes no brace that was not opened before. -/
theorem affords_resumeFrom (hp : p ≤ i) (hle : start ≤ i)
    (hdepth : depthBehind 0 (bracesBetween tokens p i) = some d.braces)
    (hstart : i = start → kindAt tokens i ≠ .punctuation .rightBrace) :
    Affords tokens 0 p 0 (resumeFrom tokens start i d) := by
  have hstep {i : Nat} {d : Depth} (hi : i < tokens.size) (hp : p ≤ i)
      (hdepth : depthBehind 0 (bracesBetween tokens p i) = some d.braces)
      (hopen : kindAt tokens i = .punctuation .rightBrace → d.braces ≠ 0) :
      depthBehind 0 (bracesBetween tokens p (i + 1)) = some (d.after tokens[i].kind).braces := by
    rw [bracesBetween_append hp (Nat.le_succ i), depthBehind_append, hdepth, bracesBetween_succ hi,
      Option.bind_some, ← kindAt_eq_getElem hi]
    show _ = some (stepDepth _ _)
    cases hbrace : brace? (kindAt tokens i) with
    | none => rfl
    | some bracket =>
      cases bracket with
      | opening => rfl
      | closing =>
        obtain ⟨n, hn⟩ := Nat.exists_eq_succ_of_ne_zero (hopen (brace?_eq_closing.mp hbrace))
        rw [hn]
        rfl
  fun_induction resumeFrom tokens start i d with
  | case1 => exact (Affords.of_depth hp hdepth).mono (Nat.zero_le _)
  | case2 i d hi kind _ hafter =>
    have hkind : kindAt tokens i = .punctuation .semicolon := by
      rw [kindAt_eq_getElem hi]
      exact beq_iff_eq.mp (Bool.and_eq_true_iff.mp hafter).2
    exact (Affords.of_depth (hp.trans (Nat.le_succ i))
      (hstep hi hp hdepth (by simp [hkind]))).mono (Nat.zero_le _)
  | case3 i d hi kind hgo _ ih =>
    refine ih (by omega) (by omega) (hstep hi hp hdepth fun hclose hzero => hgo ?_) (by omega)
    have hne : i ≠ start := fun heq => hstart heq hclose
    rw [kindAt_eq_getElem hi] at hclose
    simp [kind, hne, resumesBefore, hzero, hclose, TokenKind.isPunctuation]
  | case4 => exact (Affords.of_depth hp hdepth).mono (Nat.zero_le _)

/-! ### Boundaries -/

/-- The words that start a statement. -/
def startingWords : List Keyword :=
  [.letWord, .constWord, .returnWord, .breakWord, .enumWord, .functionWord, .ifWord, .matchWord]

/-- Whether damage may end in front of an index. -/
inductive Boundary (tokens : Array Token) (m : Nat) : Prop
  | behindSemicolon (kind : kindAt tokens (m - 1) = .punctuation .semicolon)
  | beforeEnd (kind : kindAt tokens m = .endOfFile)
  | beforeBrace (kind : kindAt tokens m = .punctuation .rightBrace)
  | beforeWord {word : Keyword} (mem : word ∈ startingWords) (kind : kindAt tokens m = .keyword word)

theorem word_of_startsStatement {n : Nat} {kind : TokenKind} (h : startsStatement n kind = true) :
    ∃ word ∈ startingWords, kind = .keyword word := by
  unfold startsStatement at h
  split at h <;> first | exact ⟨_, by decide, rfl⟩ | cases h

theorem boundary_resumeFrom : Boundary tokens (resumeFrom tokens start i d) := by
  fun_induction resumeFrom tokens start i d with
  | case1 i d hi kind hstop =>
    simp only [kind, ← kindAt_eq_getElem hi, Bool.or_eq_true, Bool.and_eq_true, decide_eq_true_eq,
      resumesBefore] at hstop
    rcases hstop with hend | ⟨_, hword | ⟨_, hbrace⟩⟩
    · exact .beforeEnd hend
    · obtain ⟨word, hmem, hkind⟩ := word_of_startsStatement hword
      exact .beforeWord hmem hkind
    · exact .beforeBrace (beq_iff_eq.mp hbrace)
  | case2 i d hi kind _ hafter =>
    refine .behindSemicolon ?_
    rw [Nat.add_sub_cancel, kindAt_eq_getElem hi]
    exact beq_iff_eq.mp (Bool.and_eq_true_iff.mp hafter).2
  | case3 _ _ _ _ _ _ ih => exact ih
  | case4 i d hi => exact .beforeEnd (Decidable.byContradiction fun hreal => hi (lt_size_of_real hreal))

/-! ### Stretches without a boundary -/

/-- Whether a token is skipped wherever it stands: it is no bracket, nothing resumes in front of it, and
nothing behind it. -/
structure IsPassable (kind : TokenKind) : Prop where
  flat : bracket? kind = none
  wordless : startsStatement 0 kind = false
  ne_semicolon : kind ≠ .punctuation .semicolon
  real : kind ≠ .endOfFile

theorem depth_after_flat {kind : TokenKind} (h : bracket? kind = none) (d : Depth) : d.after kind = d := by
  have hbrace : brace? kind = none := by
    unfold brace?
    split
    · cases h
    · cases h
    · cases h
    · rfl
  rw [Depth.after, h, hbrace]
  rfl

theorem depthBetween_flat (hq : q ≤ tokens.size)
    (hflat : ∀ i, p ≤ i → i < q → bracket? (kindAt tokens i) = none) : depthBetween tokens p q = {} := by
  rw [depthBetween, ← Array.foldl_toList]
  induction hn : q - p generalizing p with
  | zero =>
    rw [Array.extract_empty_of_stop_le_start (by omega)]
    rfl
  | succ n ih =>
    rw [extract_eq_cons (by omega) hq, List.foldl_cons]
    have hkind : (tokenAt tokens p).kind = kindAt tokens p := rfl
    rw [hkind, depth_after_flat (hflat p (Nat.le_refl _) (by omega))]
    exact ih (fun i hi => hflat i (by omega)) (by omega)

theorem resumeFrom_passable (hi : i < tokens.size) (hpassable : IsPassable (kindAt tokens i)) :
    resumeFrom tokens start i {} = resumeFrom tokens start (i + 1) {} := by
  have hbrace : kindAt tokens i ≠ .punctuation .rightBrace := fun hkind => by
    have hflat := hpassable.flat
    rw [hkind] at hflat
    cases hflat
  have hbefore : resumesBefore {} (kindAt tokens i) = false := by
    simp [resumesBefore, hpassable.wordless, TokenKind.isPunctuation, hbrace]
  have hafter : resumesAfter {} (kindAt tokens i) = false := by
    simp [resumesAfter, TokenKind.isPunctuation, hpassable.ne_semicolon]
  conv => lhs; unfold resumeFrom
  rw [dif_pos hi]
  dsimp only
  rw [← kindAt_eq_getElem hi, hbefore, hafter, depth_after_flat hpassable.flat]
  simp [hpassable.real]

/-- Behind tokens that are all skipped, parsing resumes behind the first semicolon. -/
theorem resumeFrom_semicolon {stop : Nat} (hkind : kindAt tokens stop = .punctuation .semicolon)
    (hpassable : ∀ i, start ≤ i → i < stop → IsPassable (kindAt tokens i)) (hstart : start ≤ i)
    (hi : i ≤ stop) : resumeFrom tokens start i (depthBetween tokens start i) = stop + 1 := by
  have hstop : stop < tokens.size := lt_size_of_real (hkind.trans_ne nofun)
  rw [depthBetween_flat (by omega) fun j hj hlt => (hpassable j hj (by omega)).flat]
  induction hi using Nat.decreasingInduction with
  | self =>
    rw [kindAt_eq_getElem hstop] at hkind
    rw [resumeFrom, dif_pos hstop]
    simp [hkind, resumesBefore, startsStatement, resumesAfter, TokenKind.isPunctuation]
  | of_succ i hi ih =>
    rw [resumeFrom_passable (by omega) (hpassable i hstart hi)]
    exact ih (by omega)

end ScriptTree.Parsing
