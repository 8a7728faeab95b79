import Mathlib
import ScriptTree.Proofs.Token.Spelling

/-! What a token is read from.

A token comes from one lexeme, scanned at the head of the text from the token's start on, and what is
reported of places in the token is what is reported of this lexeme (`exists_readFrom`). So what a
scanner does at the head of a text is what a source has at its tokens. -/
namespace ScriptTree

/-- Whether a text is the longest beginning of another one that has a property. -/
structure IsLongestFront (p : List Char → Prop) (text cs : List Char) : Prop where
  holds : p text
  ahead : text <+: cs
  longest : ∀ other, p other → other <+: cs → other.length ≤ text.length

def Problem.startsIn (problem : Problem) (span : Span) : Bool :=
  span.start ≤ problem.span.start && problem.span.start < span.stop

theorem Problem.startsIn_iff {problem : Problem} {span : Span} : problem.startsIn span = true ↔
    span.start ≤ problem.span.start ∧ problem.span.start < span.stop := by
  simp [startsIn]

/-- The reports that start in a span. -/
def Lexed.problemsIn (out : Lexed) (span : Span) : List Problem :=
  out.problems.toList.filter (·.startsIn span)

/-! ### The reports of one lexeme -/

namespace Lexeme
variable {l : Lexeme} {start : Nat}

theorem escapeProblems_proper {ps : List Piece} (hps : ∀ p ∈ ps, p.text ≠ []) :
    ∀ problem ∈ escapeProblems start ps, problem.span.start < problem.span.stop := by
  induction ps generalizing start with
  | nil => exact List.forall_mem_nil _
  | cons p ps ih =>
    obtain ⟨hp, hrest⟩ := List.forall_mem_cons.mp hps
    unfold escapeProblems
    dsimp only
    split
    · exact List.forall_mem_cons.mpr ⟨Nat.lt_add_of_pos_right (byteLength_pos hp), ih hrest⟩
    · exact ih hrest

/-- No report is about nothing. -/
theorem problems_proper (hregular : l.Regular) (hne : l.text ≠ []) :
    ∀ problem ∈ l.problems start, problem.span.start < problem.span.stop := by
  have hwhole {cause : Cause} : ∀ problem ∈ [(⟨cause, l.span start⟩ : Problem)],
      problem.span.start < problem.span.stop := by
    intro problem hproblem
    rw [List.mem_singleton.mp hproblem]
    exact Nat.lt_add_of_pos_right (byteLength_pos hne)
  cases l with
  | string quote ps closed =>
    refine List.forall_mem_append.mpr ⟨escapeProblems_proper hregular.2, ?_⟩
    cases closed with
    | true => exact List.forall_mem_nil _
    | false => exact hwhole
  | number text missing =>
    cases missing with
    | none => exact List.forall_mem_nil _
    | some radix =>
      intro problem hproblem
      rw [List.mem_singleton.mp hproblem]
      exact Nat.lt_add_of_pos_right Nat.two_pos
  | unexpected c => exact hwhole
  | loose spelling strict => exact hwhole
  | comment kind text closed => cases closed <;> first | exact hwhole | exact List.forall_mem_nil _
  | regex pattern flags closed => cases closed <;> first | exact hwhole | exact List.forall_mem_nil _
  | templateEscape text wellFormed => cases wellFormed <;> first | exact hwhole | exact List.forall_mem_nil _
  | blank | keyword | identifier | operator | punctuation | templateChars => exact List.forall_mem_nil _

/-- A report about a lexeme starts in it. -/
theorem problems_start (hregular : l.Regular) (hne : l.text ≠ []) : ∀ problem ∈ l.problems start,
    start ≤ problem.span.start ∧ problem.span.start < start + l.size := by
  intro problem hproblem
  have hproper := problems_proper hregular hne problem hproblem
  obtain ⟨front, inner, hprefix, hspan⟩ := problems_covered hregular problem hproblem
  obtain ⟨back, htext⟩ := hprefix
  rw [size, ← htext, byteLength_append]
  rw [hspan] at hproper ⊢
  dsimp only at hproper ⊢
  omega

end Lexeme

/-- A report about lexemes that stand one behind the other starts in one of them. -/
theorem problems_placeFrom_start (start : Nat) {ls : List Lexeme} (hregular : ∀ l ∈ ls, l.Regular)
    (hne : ∀ l ∈ ls, l.text ≠ []) : ∀ problem ∈ (placeFrom start ls).flatMap Placed.problems,
      start ≤ problem.span.start ∧
        problem.span.start < start + byteLength (ls.flatMap Lexeme.text) := by
  intro problem hproblem
  obtain ⟨p, hp, hreported⟩ := List.mem_flatMap.mp hproblem
  obtain ⟨before, after, rfl, hstart⟩ := mem_placeFrom hp
  obtain ⟨hle, hlt⟩ := Lexeme.problems_start (hregular p.lexeme (by simp)) (hne p.lexeme (by simp))
    problem hreported
  rw [Lexeme.size] at hlt
  rw [List.flatMap_append, List.flatMap_cons, byteLength_append, byteLength_append]
  omega

/-- What is reported of places in a lexeme is what the lexeme reports. -/
theorem Lexes.problemsIn {source : String} {last : Context} {before after : List Lexeme} {l : Lexeme}
    (h : Lexes {} source.toList (before ++ l :: after) last) {start : Nat}
    (hstart : start = byteLength (before.flatMap Lexeme.text)) :
    (lex source).problemsIn (l.span start) = l.problems start := by
  have hregular := h.regular
  have hne := h.nonempty
  have hbefore := @problems_placeFrom_start 0 before (fun m hm => hregular m (by simp [hm]))
    fun m hm => hne m (by simp [hm])
  have hafter := @problems_placeFrom_start (start + l.size) after
    (fun m hm => hregular m (by simp [hm])) fun m hm => hne m (by simp [hm])
  have hhere := @Lexeme.problems_start l start (hregular l (by simp)) (hne l (by simp))
  have hlength : byteLength source.toList =
      start + (l.size + byteLength (after.flatMap Lexeme.text)) := by
    rw [← h.text, List.flatMap_append, List.flatMap_cons, byteLength_append, byteLength_append, hstart]
    rfl
  rw [Nat.zero_add, ← hstart] at hbefore
  have hnone {problem : Problem} (hapart : problem.span.start < start ∨
      start + l.size ≤ problem.span.start) : ¬problem.startsIn (l.span start) = true := by
    rw [Problem.startsIn_iff]
    dsimp only [Lexeme.span]
    omega
  have hfront := List.filter_eq_nil_iff.mpr fun problem hproblem =>
    hnone (.inl (hbefore problem hproblem).2)
  have hback := List.filter_eq_nil_iff.mpr fun problem hproblem =>
    hnone (.inr (hafter problem hproblem).1)
  have hend : (if last.modes.contains .template then
      [(⟨.unterminatedTemplate, .empty (byteLength source.toList)⟩ : Problem)] else []).filter
        (·.startsIn (l.span start)) = [] := by
    refine List.filter_eq_nil_iff.mpr fun problem hproblem => hnone (.inr ?_)
    obtain rfl := List.mem_singleton.mp (List.mem_ite_nil_right.mp hproblem).2
    show start + l.size ≤ byteLength source.toList
    omega
  have hall : (l.problems start).filter (·.startsIn (l.span start)) = l.problems start :=
    List.filter_eq_self.mpr fun problem hproblem => Problem.startsIn_iff.mpr (hhere problem hproblem)
  rw [Lexed.problemsIn, lex, h.problems, placeFrom_append, Nat.zero_add, ← hstart, placeFrom,
    List.flatMap_append, List.flatMap_cons, List.filter_append, List.filter_append, List.filter_append,
    hfront, hback, hend, List.nil_append, List.append_nil, List.append_nil]
  exact hall

/-! ### The scanner of a lexeme -/

namespace Lexeme

/-- Which scanner a lexeme with an inner structure comes from at the head of a text. -/
def ScannedAt (c : Char) (cs : List Char) : Lexeme → Prop
  | number text missing => opensNumber c cs = true ∧ ofNumber (c :: cs) = .number text missing
  | string quote ps closed => quote? c = some quote ∧ Lexeme.pieces c cs [] = (ps, closed)
  | regex pattern flags closed => c = '/' ∧ ofRegex cs = .regex pattern flags closed
  | templateEscape text wellFormed =>
    c = '\\' ∧ text = '\\' :: (escapeBody cs).1 ∧ wellFormed = (escapeBody cs).2
  | loose spelling strict => (spelling, strict) ∈ Operator.looseSpellings
  | punctuation mark => mark ≠ .doubleQuote ∧ mark ≠ .singleQuote
  | _ => True

theorem scannedAt_symbol {c : Char} {cs text : List Char} {other : Lexeme}
    (hother : ScannedAt c cs other) : ScannedAt c cs ((ofSymbol? text).getD other) := by
  cases hsymbol : ofSymbol? text with
  | none => exact hother
  | some l =>
    have hmem := mem_symbols hsymbol
    cases l with
    | number | string | regex | templateEscape => simp [symbols] at hmem
    | loose spelling strict => exact mem_looseSpellings hsymbol
    | punctuation mark =>
      -- A quote opens a string, and none of the symbols is written with it.
      constructor <;>
      · rintro rfl
        simp [symbols] at hmem
    | _ => trivial

theorem scannedAt_ofCode (ctx : Context) (c : Char) (cs : List Char) :
    ScannedAt c cs (ofCode ctx c cs) := by
  unfold ofCode
  split
  · trivial
  split
  · rename_i hslash
    rw [ofSlash_eq]
    split
    · trivial
    split
    · trivial
    split
    · exact scannedAt_symbol trivial
    · exact ⟨hslash, rfl⟩
  split
  · trivial
  split
  · rename_i hopens
    obtain ⟨text, missing, hnumber⟩ : ∃ text missing, ofNumber (c :: cs) = .number text missing := by
      unfold ofNumber
      split
      · split <;> exact ⟨_, _, rfl⟩
      · exact ⟨_, _, rfl⟩
    rw [hnumber]
    exact ⟨hopens, hnumber⟩
  split
  · rcases ofWord_cases (c :: cs) with ⟨_, _, hword⟩ | ⟨_, hword⟩ <;>
    · rw [hword]
      trivial
  split
  · rename_i hquote
    exact ⟨hquote, rfl⟩
  · exact scannedAt_symbol trivial

theorem scannedAt_first (ctx : Context) (c : Char) (cs : List Char) :
    ScannedAt c cs (first ctx c cs) := by
  unfold first
  split
  · unfold ofTemplate
    split
    · exact ⟨nofun, nofun⟩
    split
    · exact ⟨nofun, nofun⟩
    split
    · rename_i hbackslash
      subst hbackslash
      exact ⟨rfl, rfl, rfl⟩
    · trivial
  · exact scannedAt_ofCode ctx c cs

end Lexeme

/-! ### The lexeme of a token -/

/-- Whether a token of a source is read from a lexeme. -/
structure ReadFrom (source : String) (t : Token) (l : Lexeme) : Prop where
  token : l.token? t.span.start = some t
  /-- The lexeme is scanned at the head of what the source has from the token on. -/
  scanned : ∃ c behind, textFrom source t.span.start = c :: behind ∧ Lexeme.ScannedAt c behind l
  stands : Placed.StandsIn ⟨t.span.start, l⟩ source
  problems : (lex source).problemsIn t.span = l.problems t.span.start

theorem textFrom_of_split {source : String} {front back : List Char} (h : source.toList = front ++ back) :
    textFrom source (byteLength front) = back := by
  rw [textFrom, h, ← Nat.add_zero (byteLength front), dropBytes_append, dropBytes_zero]

/-- The source has any stretch of a lexeme where this stretch stands. -/
theorem Placed.StandsIn.stretch {p : Placed} {source : String} (h : p.StandsIn source)
    {front inner back : List Char} (htext : p.lexeme.text = front ++ inner ++ back) {span : Span}
    (hspan : span = ⟨p.start + byteLength front, p.start + byteLength front + byteLength inner⟩) :
    span.slice source = .ofList inner ∧
      textFrom source span.start = inner ++ back ++ textFrom source p.span.stop := by
  obtain ⟨before, after, hsource, hstart⟩ := h.between
  have hsplit : (before ++ front) ++ inner ++ (back ++ after) = source.toList := by
    rw [← hsource, htext]
    simp only [List.append_assoc]
  have hoffset : byteLength (before ++ front) = p.start + byteLength front := by
    rw [byteLength_append, hstart]
  have hslice := slice?_of_split hsplit
  rw [hoffset, ← hspan] at hslice
  have hbehind : textFrom source p.span.stop = after := by
    rw [show p.span.stop = byteLength (before ++ p.lexeme.text) by rw [byteLength_append, hstart]; rfl]
    exact textFrom_of_split hsource.symm
  refine ⟨?_, ?_⟩
  · have hlies : span.LiesIn source :=
      h.liesIn ⟨front, inner, by rw [htext]; exact List.prefix_append _ _,
        by rw [hspan, byteLength_append, Nat.add_assoc]⟩
    exact Option.some.inj (hlies.slice?_eq.symm.trans hslice)
  · rw [hspan, hbehind, ← hoffset, textFrom_of_split (by rw [← hsplit, List.append_assoc]),
      List.append_assoc]

namespace ReadFrom
variable {source : String} {t : Token} {l : Lexeme}

theorem span_eq (h : ReadFrom source t l) : t.span = (⟨t.span.start, l⟩ : Placed).span := by
  obtain ⟨_, _, ht⟩ := Option.map_eq_some_iff.mp h.token
  rw [← ht]
  rfl

theorem kind_eq (h : ReadFrom source t l) : l.tokenKind? t.span.start = some t.kind := by
  obtain ⟨kind, hkind, ht⟩ := Option.map_eq_some_iff.mp h.token
  rw [hkind, ← ht]

theorem slice (h : ReadFrom source t l) : t.span.slice source = .ofList l.text := by
  rw [h.span_eq]
  exact h.stands.slice_eq

theorem ahead (h : ReadFrom source t l) :
    textFrom source t.span.start = l.text ++ textFrom source t.span.stop := by
  have htext : l.text = [] ++ l.text ++ [] := (List.append_nil _).symm
  have hahead := (h.stands.stretch htext h.span_eq).2
  rwa [List.append_nil, ← h.span_eq] at hahead

/-- A stretch of the token is a stretch of the text that it is read from. -/
theorem stretch (h : ReadFrom source t l) {front inner back behind : List Char}
    (htext : l.text = front ++ inner ++ back)
    (hahead : textFrom source t.span.start = front ++ behind) {span : Span}
    (hspan : span =
      ⟨t.span.start + byteLength front, t.span.start + byteLength front + byteLength inner⟩) :
    span.slice source = .ofList inner ∧ textFrom source span.start = behind := by
  obtain ⟨hslice, hhere⟩ := h.stands.stretch htext hspan
  refine ⟨hslice, ?_⟩
  rw [h.ahead, htext, List.append_assoc, List.append_assoc] at hahead
  rw [hhere, ← h.span_eq, List.append_assoc]
  exact List.append_cancel_left hahead

/-- What is reported of a place in the token is what its lexeme reports. -/
theorem mem_problems (h : ReadFrom source t l) {problem : Problem}
    (hstart : t.span.start ≤ problem.span.start) (hstop : problem.span.start < t.span.stop) :
    problem ∈ (lex source).problems.toList ↔ problem ∈ l.problems t.span.start := by
  rw [← h.problems, Lexed.problemsIn, List.mem_filter, Problem.startsIn_iff]
  exact (and_iff_left ⟨hstart, hstop⟩).symm

end ReadFrom

theorem exists_readFrom {source : String} {t : Token} (ht : t ∈ (lex source).tokens.toList)
    (hreal : t.kind ≠ .endOfFile) : ∃ l, ReadFrom source t l := by
  obtain ⟨ls, last, h⟩ := Lexes.total {} source.toList
  rw [lex, h.tokens] at ht
  rcases List.mem_append.mp ht with ht | ht
  swap
  · rw [List.mem_singleton.mp ht] at hreal
    exact absurd rfl hreal
  obtain ⟨front, back, hsplit⟩ := List.append_of_mem ht
  obtain ⟨before, l, after, c, behind, rfl, hsource, htext, hfirst, htoken, -⟩ := h.at_token hsplit
  obtain ⟨kind, hkind, rfl⟩ := Option.map_eq_some_iff.mp htoken
  set start := byteLength (before.flatMap Lexeme.text) with hstart
  have hstands : Placed.StandsIn ⟨start, l⟩ source := by
    refine h.standsIn _ ?_
    rw [placeFrom_append, Nat.zero_add]
    exact List.mem_append_right _ (List.mem_cons_self ..)
  have hahead : textFrom source start = c :: behind := textFrom_of_split hsource
  refine ⟨l, htoken, ⟨c, behind, hahead, ?_⟩, hstands, h.problemsIn hstart⟩
  rw [← hfirst]
  exact Lexeme.scannedAt_first ..

end ScriptTree
