import Mathlib
import ScriptTree.Proofs.Token.LineEndings
import ScriptTree.Proofs.Token.Nesting

/-! Sources joined by a line feed.

A text that is closed, with nothing wrong in it, falls into the same lexemes when a line feed and more
text follow (`Lexes.joined`). Behind it the lexer knows what it knows at the start of a source, unless
the last token ends an operand. So the tokens of the joined source are those of the first part and,
further on, those of the second (`lex_joined`). -/
namespace ScriptTree

/-! ### Lexemes in front of a line feed -/

namespace Lexeme

/-- Whether a comment or a string has its closing mark. -/
def isClosed : Lexeme → Bool
  | comment _ _ closed | string _ _ closed => closed
  | _ => true

theorem isClosed_of_problems {l : Lexeme} {start : Nat} (h : l.problems start = []) :
    l.isClosed = true := by
  cases l with
  | comment kind text closed =>
    cases closed with
    | true => rfl
    | false => cases h
  | string quote pieces closed =>
    cases closed with
    | true => rfl
    | false => exact absurd (List.append_eq_nil_iff.mp h).2 (List.cons_ne_nil _ _)
  | blank | unexpected | keyword | identifier | number | operator | loose | punctuation | regex
  | templateChars | templateEscape => rfl

section Joined
variable {c : Char} {cs rest back : List Char}

/-- What is read as code goes no further than the end of a line, if it is closed. -/
theorem ofCode_joined {ctx : Context} (split : c :: cs = (ofCode ctx c cs).text ++ rest)
    (hclosed : (ofCode ctx c cs).isClosed = true) (hback : Halts lineEnds back) :
    ofCode ctx c (cs ++ back) = ofCode ctx c cs := by
  have hfront {l : Lexeme} (hl : ofCode ctx c cs = l) {front : List Char} (htext : l.text = c :: front) :
      cs = front ++ rest := by
    rw [hl, htext, List.cons_append] at split
    exact (List.cons.inj split).2
  by_cases hquote : ∃ mark, quote? c = some mark
  · obtain ⟨mark, hquote⟩ := hquote
    have hcode := ofCode_quote hquote ctx
    obtain ⟨front, htext⟩ := hcode cs ▸ (ofCode_heads ctx c cs).text_cons
    obtain rfl := hfront (hcode cs) htext
    rw [hcode] at hclosed
    rw [hcode, hcode, List.append_assoc]
    exact ofString_of_front hquote htext (.inr hclosed)
  have hquote : quote? c = none := Option.eq_none_iff_forall_ne_some.mpr fun mark h => hquote ⟨mark, h⟩
  by_cases hblock : c = '/' ∧ cs.head? = some '*'
  · obtain ⟨rfl, hhead⟩ := hblock
    obtain ⟨cs, rfl⟩ := List.head?_eq_some_iff.mp hhead
    have hcode (cs : List Char) : ofCode ctx '/' ('*' :: cs) = ofBlockComment cs := rfl
    rw [hcode] at split hclosed
    have hfront : cs = (blockBody cs []).1 ++ rest := (List.cons.inj (List.cons.inj split).2).2
    rw [List.cons_append, hcode, hcode]
    generalize hbody : (blockBody cs []).1 = front at hfront
    subst hfront
    rw [List.append_assoc]
    exact ofBlockComment_of_front (congrArg ('/' :: '*' :: ·) hbody) (.inr hclosed)
  · exact ofCode_append hback ctx hquote fun hc hhead => hblock ⟨hc, hhead⟩

/-- What is read as template text goes no further than the backtick that ends the text. -/
theorem ofTemplate_joined (split : c :: cs = (ofTemplate c cs).text ++ rest)
    (hends : ofTemplate c cs = .punctuation .backtick ∨ '\x60' ∈ rest) (back : List Char) :
    ofTemplate c (cs ++ back) = ofTemplate c cs := by
  obtain ⟨front, htext⟩ := (ofTemplate_heads c cs).text_cons
  rw [htext, List.cons_append] at split
  obtain rfl := (List.cons.inj split).2
  rcases hends with hends | hends
  · have hc : c = '\x60' := by
      rw [hends] at htext
      exact (List.cons.inj htext).1.symm
    subst hc
    rfl
  · rw [List.append_assoc]
    obtain ⟨d, rest, rfl⟩ := List.exists_cons_of_ne_nil (List.ne_nil_of_mem hends)
    refine ofTemplate_of_front htext rfl fun hdollar => ?_
    obtain rfl : d = '$' := by simpa using hdollar
    have hrest : '\x60' ∈ rest := by simpa using hends
    obtain ⟨e, rest, rfl⟩ := List.exists_cons_of_ne_nil (List.ne_nil_of_mem hrest)
    rfl

end Joined

end Lexeme

/-! ### Texts in front of a line feed -/

/-- A template that is open stays open up to a backtick. -/
theorem Lexes.template_mem {ctx last : Context} {cs : List Char} {ls : List Lexeme}
    (h : Lexes ctx cs ls last) (hopen : .template ∈ ctx.modes) (hcs : '\x60' ∉ cs) :
    .template ∈ last.modes := by
  induction h with
  | nil => exact hopen
  | @cons ctx last c cs rest l ls first split below ih =>
    refine ih ?_ fun hmem => hcs (split ▸ List.mem_append_right _ hmem)
    have hbacktick : l ≠ .punctuation .backtick := by
      rintro rfl
      exact hcs (split ▸ List.mem_append_left _ (by decide))
    show .template ∈ Context.modesAfter ctx.modes l
    unfold Context.modesAfter
    split <;> simp_all

/-- A text without open comments, strings and templates falls into the same lexemes in front of the
end of a line. -/
theorem Lexes.joined {ctx last final : Context} {cs more : List Char} {ls ms : List Lexeme}
    (h : Lexes ctx cs ls last) (hclosed : ∀ l ∈ ls, l.isClosed = true)
    (hmodes : .template ∉ last.modes) (hmore : Lexeme.Halts Lexeme.lineEnds more)
    (hrest : Lexes last more ms final) : Lexes ctx (cs ++ more) (ls ++ ms) final := by
  induction h with
  | nil => exact hrest
  | @cons ctx last c cs rest l ls first split below ih =>
    have hsplit : c :: (cs ++ more) = l.text ++ (rest ++ more) := by
      rw [← List.append_assoc, ← split, List.cons_append]
    refine .cons ?_ hsplit (ih (fun l hl => hclosed l (List.mem_cons_of_mem _ hl)) hmodes hrest)
    by_cases hmode : ∃ modes, ctx.modes = .template :: modes
    · obtain ⟨modes, hmode⟩ := hmode
      have hfirst (cs : List Char) : Lexeme.first ctx c cs = Lexeme.ofTemplate c cs := by
        rw [Lexeme.first, hmode]
      rw [hfirst] at first ⊢
      subst first
      refine Lexeme.ofTemplate_joined split ?_ more
      refine or_iff_not_imp_left.mpr fun hbacktick => ?_
      by_contra hnone
      refine hmodes (below.template_mem ?_ hnone)
      show .template ∈ Context.modesAfter ctx.modes _
      rcases Lexeme.ofTemplate_cases c cs with hl | hl | ⟨_, _, hl⟩ | ⟨_, hl⟩ <;> rw [hl, hmode]
      · exact absurd hl hbacktick
      all_goals simp [Context.modesAfter]
    · have hcode : ∀ modes, ctx.modes ≠ .template :: modes := fun modes h => hmode ⟨modes, h⟩
      rw [Lexeme.first_code hcode] at first ⊢
      subst first
      exact Lexeme.ofCode_joined split (hclosed _ (List.mem_cons_self ..)) hmore

/-! ### What the lexer knows behind a text -/

theorem Lexeme.endsOperand?_eq (l : Lexeme) (start : Nat) :
    l.endsOperand? = (l.token? start).map (·.kind.endsOperand) := by
  cases l <;> rfl

/-- Whether an operand has ended shows in the last token. -/
theorem Lexes.operandEnd {ctx last : Context} {cs : List Char} {ls : List Lexeme}
    (h : Lexes ctx cs ls last) (start : Nat) : last.operandEnd =
      ((Nesting.tokensFrom start ls).getLast?.map (·.kind.endsOperand)).getD ctx.operandEnd := by
  induction h generalizing start with
  | nil => rfl
  | @cons ctx last c cs rest l ls first split below ih =>
    have hafter : (ctx.after l).operandEnd = l.endsOperand?.getD ctx.operandEnd := rfl
    rw [ih (start + l.size), hafter, l.endsOperand?_eq start, Nesting.tokensFrom_cons,
      List.getLast?_append]
    cases (Nesting.tokensFrom (start + l.size) ls).getLast? with
    | none => cases l.token? start <;> rfl
    | some t => rfl

theorem Lexes.closed {cs : List Char} {ls : List Lexeme} {last : Context} (h : Lexes {} cs ls last)
    (hproblems : (lexChars cs).problems = #[]) :
    (∀ l ∈ ls, l.isClosed = true) ∧ last.modes = [] := by
  have hnone : (placeFrom 0 ls).flatMap Placed.problems ++
      (if last.modes.contains .template then [⟨.unterminatedTemplate, .empty (byteLength cs)⟩] else []) =
        [] := by
    rw [← h.problems, hproblems]
  obtain ⟨hlexemes, htemplate⟩ := List.append_eq_nil_iff.mp hnone
  constructor
  · intro l hl
    obtain ⟨before, after, rfl⟩ := List.append_of_mem hl
    rw [placeFrom_append, placeFrom, List.flatMap_append, List.flatMap_cons, List.append_eq_nil_iff,
      List.append_eq_nil_iff] at hlexemes
    exact Lexeme.isClosed_of_problems hlexemes.2.1
  · have hgrounded : Nesting.Grounded last.modes :=
      @Nesting.Grounded.run [] _ _ (by simp [Nesting.Grounded]) (Nesting.run_lexes h 0)
    rw [hgrounded.contains] at htemplate
    cases hmodes : last.modes with
    | nil => rfl
    | cons mode modes => simp [hmodes] at htemplate

/-! ### Placing further on -/

/-- What lexemes are found to be elsewhere. -/
theorem placeFrom_elsewhere {place : Nat → Nat} {ls : List Lexeme} {start start' : Nat}
    (h : Respells ['\n'] place start start' (ls.flatMap Lexeme.text)) (hls : ∀ l ∈ ls, l.Regular) :
    (placeFrom start' ls).filterMap Placed.token? =
        ((placeFrom start ls).filterMap Placed.token?).map (Token.relocate place) ∧
      (placeFrom start' ls).filterMap Placed.comment? =
        ((placeFrom start ls).filterMap Placed.comment?).map (Comment.relocate place) ∧
      (placeFrom start' ls).flatMap Placed.problems =
        ((placeFrom start ls).flatMap Placed.problems).map (Problem.relocate place) := by
  induction ls generalizing start start' with
  | nil => exact ⟨rfl, rfl, rfl⟩
  | cons l ls ih =>
    obtain ⟨hregular, hls⟩ := List.forall_mem_cons.mp hls
    rw [List.flatMap_cons] at h
    obtain ⟨htoken, hcomment, hproblems⟩ := placed_elsewhere h.left hregular
    have hright := h.right
    rw [respell_self] at hright
    obtain ⟨htokens, hcomments, hrest⟩ := ih hright hls
    refine ⟨?_, ?_, ?_⟩
    · rw [placeFrom, placeFrom, List.filterMap_cons, List.filterMap_cons, Placed.token?, Placed.token?,
        htoken]
      cases l.token? start with
      | none => exact htokens
      | some t => exact congrArg (_ :: ·) htokens
    · rw [placeFrom, placeFrom, List.filterMap_cons, List.filterMap_cons, Placed.comment?,
        Placed.comment?, hcomment]
      cases l.comment? start with
      | none => exact hcomments
      | some c => exact congrArg (_ :: ·) hcomments
    · rw [placeFrom, placeFrom, List.flatMap_cons, List.flatMap_cons, Placed.problems,
        Placed.problems, hproblems, List.map_append]
      exact congrArg (_ ++ ·) hrest

/-! ### Sources -/

/-- Two sources with a line feed between them. -/
def joined (first second : String) : String := first ++ "\n" ++ second

/-- Where an offset of the second source is in the joined one. -/
def joinedOffset (first : String) (offset : Nat) : Nat := offset + (first.utf8ByteSize + 1)

theorem joinedOffset_strictMono (first : String) : StrictMono (joinedOffset first) :=
  fun _ _ h => Nat.add_lt_add_right h _

theorem utf8ByteSize_joined (first second : String) :
    (joined first second).utf8ByteSize = joinedOffset first second.utf8ByteSize := by
  rw [joined, String.utf8ByteSize_append, String.utf8ByteSize_append, joinedOffset,
    Nat.add_comm second.utf8ByteSize]
  rfl

theorem toList_joined (first second : String) :
    (joined first second).toList = first.toList ++ '\n' :: second.toList := by
  rw [joined, String.toList_append, String.toList_append, List.append_assoc]
  rfl

/-- **A source that is closed is lexed by itself**, if its last token does not end an operand: what
follows in the next line is lexed as if it stood alone. -/
theorem lex_joined {first : String} (hproblems : (lex first).problems = #[])
    (hlast : ∀ t ∈ (lex first).tokens.toList.dropLast.getLast?, t.kind.endsOperand = false)
    (second : String) :
    (lex (joined first second)).tokens.toList = (lex first).tokens.toList.dropLast ++
        (lex second).tokens.toList.map (Token.relocate (joinedOffset first)) ∧
      (lex (joined first second)).comments.toList = (lex first).comments.toList ++
        (lex second).comments.toList.map (Comment.relocate (joinedOffset first)) ∧
      (lex (joined first second)).problems.toList =
        (lex second).problems.toList.map (Problem.relocate (joinedOffset first)) := by
  obtain ⟨ls, last, h⟩ := Lexes.total {} first.toList
  obtain ⟨ms, final, h'⟩ := Lexes.total {} second.toList
  obtain ⟨hclosed, hmodes⟩ := h.closed hproblems
  have hfirst : (lex first).tokens.toList.dropLast = Nesting.tokensFrom 0 ls := by
    rw [lex, h.tokens, List.dropLast_concat]
    rfl
  have hoperand : last.operandEnd = false := by
    rw [h.operandEnd 0, ← hfirst]
    cases hget : (lex first).tokens.toList.dropLast.getLast? with
    | none => rfl
    | some t => exact hlast t hget
  have hfeed : Lexes last ('\n' :: second.toList) (.blank '\n' :: ms) final := by
    refine .cons (Lexeme.first_feed (by simp [hmodes]) _) rfl ?_
    have hstart : last.after (.blank '\n') = {} := by
      have hplain : ∀ mark, Lexeme.blank '\n' ≠ .punctuation mark := fun _ => by simp
      rw [Context.after_of_plain last hplain, hmodes]
      simp [Context.lineStartAfter, isLineTerminator, Lexeme.endsOperand?, Lexeme.tokenKind?, hoperand]
    rw [hstart]
    exact h'
  have hall : Lexes {} (joined first second).toList (ls ++ .blank '\n' :: ms) final := by
    rw [toList_joined]
    exact h.joined hclosed (by simp [hmodes]) (by simp [Lexeme.Halts, Lexeme.lineEnds]) hfeed
  -- What the lexemes of the second source are found to be behind the line feed.
  have hsize (s : String) : byteLength s.toList = s.utf8ByteSize := by
    rw [← utf8ByteSize_ofList, String.ofList_toList]
  have hplace : Respells ['\n'] (joinedOffset first) 0 (first.utf8ByteSize + 1)
      (ms.flatMap Lexeme.text) := by
    intro part _
    rw [respell_self, joinedOffset, Nat.zero_add, Nat.add_comm]
  obtain ⟨htokens, hcomments, hreports⟩ := placeFrom_elsewhere hplace h'.regular
  have hitems : placeFrom 0 (ls ++ .blank '\n' :: ms) =
      placeFrom 0 ls ++ ⟨first.utf8ByteSize, .blank '\n'⟩ :: placeFrom (first.utf8ByteSize + 1) ms := by
    rw [placeFrom_append, h.text, hsize, Nat.zero_add, placeFrom]
    rfl
  have hnone : (placeFrom 0 ls).flatMap Placed.problems = [] := by
    have hnone := h.problems
    rw [show (lexChars first.toList).problems = #[] from hproblems] at hnone
    exact (List.append_eq_nil_iff.mp hnone.symm).1
  refine ⟨?_, ?_, ?_⟩
  · rw [hfirst, lex, lex, hall.tokens, h'.tokens, hitems, hsize, hsize, utf8ByteSize_joined,
      List.filterMap_append, List.map_append, List.append_assoc]
    exact congrArg (_ ++ ·) (congrArg (· ++ _) htokens)
  · rw [lex, lex, lex, hall.comments, h'.comments, h.comments, hitems, List.filterMap_append]
    exact congrArg (_ ++ ·) hcomments
  · rw [lex, lex, hall.problems, h'.problems, hitems, hsize, hsize, utf8ByteSize_joined,
      List.flatMap_append, hnone, List.nil_append, List.map_append]
    refine congrArg₂ (· ++ ·) hreports ?_
    split <;> rfl

end ScriptTree
