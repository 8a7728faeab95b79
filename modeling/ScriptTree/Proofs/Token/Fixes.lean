import Mathlib
import ScriptTree.Proofs.Text.Bytes
import ScriptTree.Proofs.Token.Equality
import ScriptTree.Proofs.Token.Respelling

/-! Sources in which loose spellings are replaced.

A problem about a loose spelling asks for an edit (`Problem.fix?`). The source with these edits is what
the lexemes with strict operators are the text of (`applyEdits_placeFrom`), and so what the lexer makes
of it is what it made of the source, moved (`lex_withStrictEquality`). -/
namespace ScriptTree

/-! ### Problems and edits -/

/-- The strict operator that a problem asks for. -/
def Problem.strict? (p : Problem) : Option Operator :=
  match p.cause with
  | .looseEquality _ o => some o
  | _ => none

/-- The edit that a problem asks for. -/
def Problem.fix? (p : Problem) : Option Edit := p.strict?.map fun o => ⟨p.span, o.spelling.toList⟩

theorem Problem.fix?_eq_none {p : Problem} (h : p.strict? = none) : p.fix? = none := by
  rw [fix?, h]
  rfl

theorem escapeProblems_strict? (start : Nat) (pieces : List Piece) :
    ∀ p ∈ Lexeme.escapeProblems start pieces, p.strict? = none := by
  induction pieces generalizing start with
  | nil => simp [Lexeme.escapeProblems]
  | cons piece pieces ih =>
    cases piece with
    | fragment text => exact ih _
    | escape text wellFormed =>
      cases wellFormed with
      | false => exact List.forall_mem_cons.mpr ⟨rfl, ih _⟩
      | true => exact ih _

/-- Nothing but a loose spelling asks for an operator. -/
theorem problems_strict? {l : Lexeme} (hstrict : l.strict = l) (start : Nat) :
    ∀ p ∈ l.problems start, p.strict? = none := by
  cases l with
  | loose spelling o => cases hstrict
  | string quote pieces closed =>
    intro p hp
    rcases List.mem_append.mp hp with hp | hp
    · exact escapeProblems_strict? _ _ p hp
    · cases closed
      · rw [List.mem_singleton.mp hp]
        rfl
      · cases hp
  | number text missing =>
    cases missing with
    | none => simp [Lexeme.problems]
    | some radix => exact List.forall_mem_singleton.mpr rfl
  | comment kind text closed =>
    cases closed with
    | false => exact List.forall_mem_singleton.mpr rfl
    | true => simp [Lexeme.problems]
  | regex pattern flags closed =>
    cases closed with
    | false => exact List.forall_mem_singleton.mpr rfl
    | true => simp [Lexeme.problems]
  | templateEscape text wellFormed =>
    cases wellFormed with
    | false => exact List.forall_mem_singleton.mpr rfl
    | true => simp [Lexeme.problems]
  | unexpected c => exact List.forall_mem_singleton.mpr rfl
  | blank | keyword | identifier | operator | punctuation | templateChars => simp [Lexeme.problems]

theorem Lexeme.strict_cases (l : Lexeme) : l.strict = l ∨ ∃ spelling o, l = .loose spelling o := by
  cases l with
  | loose spelling o => exact .inr ⟨spelling, o, rfl⟩
  | blank | unexpected | comment | keyword | identifier | number | operator | punctuation | string
  | regex | templateChars | templateEscape => exact .inl rfl

section Rewriting
variable {fix : Problem → Option Edit} {written : Lexeme → List Char} {ls : List Lexeme}

/-- Whether lexemes ask for edits after which they are written in a certain way: each for none, or for one
of all of it. -/
def Rewritten (fix : Problem → Option Edit) (written : Lexeme → List Char) (ls : List Lexeme) : Prop :=
  ∀ l ∈ ls, ∀ start, (l.problems start).filterMap fix = [] ∧ written l = l.text ∨
    (l.problems start).filterMap fix = [⟨l.span start, written l⟩]

/-- An edit is about a lexeme. -/
theorem edit_placeFrom (h : Rewritten fix written ls) {start : Nat} {e : Edit}
    (he : e ∈ ((placeFrom start ls).flatMap Placed.problems).filterMap fix) :
    start ≤ e.span.start ∧ e.span.start ≤ e.span.stop := by
  obtain ⟨p, hp, hfix⟩ := List.mem_filterMap.mp he
  obtain ⟨q, hq, hproblem⟩ := List.mem_flatMap.mp hp
  obtain ⟨before, after, rfl, hstart⟩ := mem_placeFrom hq
  have hedit : e ∈ (q.lexeme.problems q.start).filterMap fix := List.mem_filterMap.mpr ⟨p, hproblem, hfix⟩
  rcases h q.lexeme (by simp) q.start with ⟨hnone, _⟩ | hone
  · rw [hnone] at hedit
    cases hedit
  · rw [hone, List.mem_singleton] at hedit
    rw [hedit]
    exact ⟨(Nat.le_add_right _ _).trans_eq hstart.symm, Nat.le_add_right _ _⟩

theorem applyEdits_placeFrom (h : Rewritten fix written ls) (start : Nat) :
    applyEdits start (ls.flatMap Lexeme.text)
      (((placeFrom start ls).flatMap Placed.problems).filterMap fix) = ls.flatMap written := by
  induction ls generalizing start with
  | nil => rfl
  | cons l ls ih =>
    obtain ⟨hl, hls⟩ := List.forall_mem_cons.mp h
    have hrest := ih hls (start + l.size)
    rw [List.flatMap_cons, placeFrom, List.flatMap_cons, List.filterMap_append, List.flatMap_cons,
      Placed.problems]
    rcases hl start with ⟨hnone, hwritten⟩ | hone
    · rw [hnone, List.nil_append, applyEdits_gap, hwritten]
      · exact congrArg (l.text ++ ·) hrest
      · exact fun e he => edit_placeFrom hls (List.mem_of_mem_head? he)
    · rw [hone, ← hrest]
      exact applyEdits_here _

end Rewriting

/-- With strict operators in their places, loose spellings are as advised. -/
theorem rewritten_strict (ls : List Lexeme) : Rewritten Problem.fix? (·.strict.text) ls := by
  intro l _ start
  rcases l.strict_cases with hstrict | ⟨spelling, o, rfl⟩
  · refine .inl ⟨List.filterMap_eq_nil_iff.mpr fun p hp => ?_, congrArg Lexeme.text hstrict⟩
    exact Problem.fix?_eq_none (problems_strict? hstrict start p hp)
  · exact .inr rfl

/-! ### Places -/

/-- Where an offset into the text of lexemes is with strict operators. -/
def strictOffset : List Lexeme → Nat → Nat
  | [], offset => offset
  | l :: ls, offset =>
    if offset < l.size then offset else l.strict.size + strictOffset ls (offset - l.size)

section Places
variable {l : Lexeme} {ls : List Lexeme} {place : Nat → Nat} {start start' : Nat}

theorem Lexeme.Known.size_pos (h : l.Known) : 0 < l.size := byteLength_pos h.nonempty

theorem Lexeme.Known.size_le (h : l.Known) : l.size ≤ l.strict.size := by
  rcases l.strict_cases with hstrict | ⟨spelling, o, rfl⟩
  · rw [hstrict]
  · have hall : ∀ pair ∈ Operator.looseSpellings,
        (Lexeme.loose pair.1 pair.2).size ≤ (Lexeme.operator pair.2).size := by decide
    exact hall _ (h.loose spelling o rfl)

theorem strictOffset_add (l : Lexeme) (ls : List Lexeme) (offset : Nat) :
    strictOffset (l :: ls) (l.size + offset) = l.strict.size + strictOffset ls offset := by
  rw [strictOffset, if_neg (by omega), Nat.add_sub_cancel_left]

theorem strictOffset_zero (h : ∀ l ∈ ls, l.Known) : strictOffset ls 0 = 0 := by
  cases ls with
  | nil => rfl
  | cons l ls => exact if_pos (h l (List.mem_cons_self ..)).size_pos

theorem strictOffset_strictMono (h : ∀ l ∈ ls, l.Known) : StrictMono (strictOffset ls) := by
  induction ls with
  | nil => exact strictMono_id
  | cons l ls ih =>
    obtain ⟨hl, hls⟩ := List.forall_mem_cons.mp h
    have hwidth := hl.size_le
    intro a b hab
    rw [strictOffset, strictOffset]
    by_cases hb : b < l.size
    · rw [if_pos hb, if_pos (hab.trans hb)]
      exact hab
    · rw [if_neg hb]
      by_cases ha : a < l.size
      · rw [if_pos ha]
        omega
      · rw [if_neg ha]
        have := ih hls (by omega : a - l.size < b - l.size)
        omega

theorem strictOffset_end (h : ∀ l ∈ ls, l.Known) :
    strictOffset ls (byteLength (ls.flatMap Lexeme.text)) =
      byteLength ((ls.map Lexeme.strict).flatMap Lexeme.text) := by
  induction ls with
  | nil => rfl
  | cons l ls ih =>
    rw [List.flatMap_cons, byteLength_append, List.map_cons, List.flatMap_cons, byteLength_append]
    exact (strictOffset_add ..).trans (congrArg (l.strict.size + ·) (ih (List.forall_mem_cons.mp h).2))

/-- Whether `place` moves the offsets in the text of lexemes from `start` on like `strictOffset`. -/
def Stricter (place : Nat → Nat) (start start' : Nat) (ls : List Lexeme) : Prop :=
  ∀ offset, place (start + offset) = start' + strictOffset ls offset

theorem Stricter.below (h : Stricter place start start' (l :: ls)) :
    Stricter place (start + l.size) (start' + l.strict.size) ls := fun offset => by
  rw [Nat.add_assoc, h, strictOffset_add, Nat.add_assoc]

theorem Stricter.respells (h : Stricter place start start' (l :: ls)) (hls : ∀ l ∈ ls, l.Known)
    (hstrict : l.strict = l) : Respells ['\n'] place start start' l.text := by
  rintro part ⟨rest, hrest⟩
  rw [respell_self, h, strictOffset]
  split
  · rfl
  · have hsize : l.size = byteLength part + byteLength rest := by
      rw [Lexeme.size, ← hrest, byteLength_append]
    have hzero : byteLength part - l.size = 0 := by omega
    rw [hzero, strictOffset_zero hls, hstrict]
    omega

/-- What a lexeme with a strict operator is found to be. -/
theorem placed_strict (h : Stricter place start start' (l :: ls)) (hl : l.Known)
    (hls : ∀ l ∈ ls, l.Known) :
    l.strict.token? start' = (l.token? start).map (Token.relocate place) ∧
      l.strict.comment? start' = (l.comment? start).map (Comment.relocate place) ∧
      l.strict.problems start' =
        ((l.problems start).filter (·.strict?.isNone)).map (Problem.relocate place) ∧
      ∀ t, l.token? start = some t → ∀ offset ∈ t.marks, place (offset + 1) = place offset + 1 := by
  rcases l.strict_cases with hstrict | ⟨spelling, o, rfl⟩
  · have hrespells := h.respells hls hstrict
    obtain ⟨htoken, hcomment, hproblems⟩ := placed_elsewhere hrespells hl.regular
    have hall : (l.problems start).filter (·.strict?.isNone) = l.problems start :=
      List.filter_eq_self.mpr fun p hp => by rw [problems_strict? hstrict start p hp]; rfl
    rw [hstrict, hall]
    exact ⟨htoken, hcomment, hproblems, fun t ht => Lexeme.marks_respell hrespells hl.regular ht⟩
  · have hspan : (Lexeme.operator o).span start' =
        ((Lexeme.loose spelling o).span start).relocate place := by
      have hbegin := h 0
      have hend := h.below 0
      rw [strictOffset_zero hls] at hend
      rw [Nat.add_zero, strictOffset, if_pos hl.size_pos] at hbegin
      exact congrArg₂ Span.mk hbegin.symm hend.symm
    refine ⟨?_, rfl, rfl, fun t ht => ?_⟩
    · exact congrArg (fun span => some (Token.mk (.operator o) span)) hspan
    · cases ht
      simp [Token.marks]

theorem placeFrom_strict (h : Stricter place start start' ls) (hls : ∀ l ∈ ls, l.Known) :
    (placeFrom start' (ls.map Lexeme.strict)).filterMap Placed.token? =
        ((placeFrom start ls).filterMap Placed.token?).map (Token.relocate place) ∧
      (placeFrom start' (ls.map Lexeme.strict)).filterMap Placed.comment? =
        ((placeFrom start ls).filterMap Placed.comment?).map (Comment.relocate place) ∧
      (placeFrom start' (ls.map Lexeme.strict)).flatMap Placed.problems =
        (((placeFrom start ls).flatMap Placed.problems).filter (·.strict?.isNone)).map
          (Problem.relocate place) ∧
      ∀ t ∈ (placeFrom start ls).filterMap Placed.token?, ∀ offset ∈ t.marks,
        place (offset + 1) = place offset + 1 := by
  induction ls generalizing start start' with
  | nil => exact ⟨rfl, rfl, rfl, by simp [placeFrom]⟩
  | cons l ls ih =>
    obtain ⟨hl, hls⟩ := List.forall_mem_cons.mp hls
    obtain ⟨htoken, hcomment, hproblems, hmarks⟩ := placed_strict h hl hls
    obtain ⟨htokens, hcomments, hrest, hbelow⟩ := ih h.below hls
    rw [List.map_cons, placeFrom, placeFrom]
    refine ⟨?_, ?_, ?_, fun t ht => ?_⟩
    · rw [List.filterMap_cons, List.filterMap_cons, Placed.token?, Placed.token?, htoken, htokens]
      cases l.token? start <;> rfl
    · rw [List.filterMap_cons, List.filterMap_cons, Placed.comment?, Placed.comment?, hcomment, hcomments]
      cases l.comment? start <;> rfl
    · rw [List.flatMap_cons, List.flatMap_cons, List.filter_append, List.map_append, hrest]
      exact congrArg (· ++ _) hproblems
    · obtain ⟨p, hp, ht⟩ := List.mem_filterMap.mp ht
      rcases List.mem_cons.mp hp with rfl | hp
      · exact hmarks t ht
      · exact hbelow t (List.mem_filterMap.mpr ⟨p, hp, ht⟩)

end Places

/-! ### Sources -/

/-- The source with strict operators in the place of loose spellings. -/
def withStrictEquality (source : String) : String :=
  edited source ((lex source).problems.toList.filterMap Problem.fix?)

theorem lex_withStrictEquality (source : String) : ∃ place, StrictMono place ∧ place 0 = 0 ∧
    place source.utf8ByteSize = (withStrictEquality source).utf8ByteSize ∧
    (lex (withStrictEquality source)).tokens.toList =
      (lex source).tokens.toList.map (Token.relocate place) ∧
    (lex (withStrictEquality source)).comments.toList =
      (lex source).comments.toList.map (Comment.relocate place) ∧
    (lex (withStrictEquality source)).problems.toList =
      ((lex source).problems.toList.filter (·.strict?.isNone)).map (Problem.relocate place) ∧
    ∀ t ∈ (lex source).tokens.toList, ∀ offset ∈ t.marks,
      place (offset + 1) = place offset + 1 := by
  obtain ⟨ls, last, h⟩ := Lexes.total {} source.toList
  have hknown := h.known
  have hsource : withStrictEquality source =
      .ofList ((ls.map Lexeme.strict).flatMap Lexeme.text) := by
    rw [withStrictEquality, edited, List.flatMap_map, ← applyEdits_placeFrom (rewritten_strict ls) 0,
      h.text, lex, h.problems, List.filterMap_append]
    split <;> exact congrArg (fun edits => String.ofList (applyEdits 0 source.toList edits))
      (List.append_nil _)
  obtain ⟨hstrict, _⟩ := h.strict
  have hplaces : Stricter (strictOffset ls) 0 0 ls := fun offset => by rw [Nat.zero_add, Nat.zero_add]
  obtain ⟨htokens, hcomments, hproblems, hmarks⟩ := placeFrom_strict hplaces hknown
  have hstop := strictOffset_end hknown
  rw [h.text] at hstop
  have hwidth : source.utf8ByteSize = byteLength source.toList := by
    rw [← utf8ByteSize_ofList, String.ofList_toList]
  refine ⟨strictOffset ls, strictOffset_strictMono hknown, strictOffset_zero hknown, ?_, ?_, ?_, ?_, ?_⟩
  · rw [hsource, utf8ByteSize_ofList, hwidth, hstop]
  · rw [hsource, lex, lex, String.toList_ofList, hstrict.tokens, h.tokens, htokens, List.map_append,
      ← hstop]
    rfl
  · rw [hsource, lex, lex, String.toList_ofList, hstrict.comments, h.comments, hcomments]
  · rw [hsource, lex, lex, String.toList_ofList, hstrict.problems, h.problems, hproblems, ← hstop,
      List.filter_append, List.map_append]
    split <;> rfl
  · intro t ht
    rw [lex, h.tokens] at ht
    rcases List.mem_append.mp ht with ht | ht
    · exact hmarks t ht
    · rw [List.mem_singleton.mp ht]
      simp [Token.marks]

end ScriptTree
