import Mathlib
import ScriptTree.Proofs.Text.Bytes
import ScriptTree.Proofs.Token.Equality
import ScriptTree.Proofs.Token.Partition
import ScriptTree.Proofs.Token.Strings
import ScriptTree.Proofs.Token.Truncation

/-! Characters that start nothing.

Where the lexer meets a character that starts no token, it goes on behind it as behind a space. No scanner
reads on at either of them (`BlankedAhead`), so with spaces in the place of such characters a text falls into
the same lexemes (`Lexes.blanked`). Tokens, comments and all other reports stay, each in its place, and with
them the nodes of the tree (`parse_withBlanks`). -/
namespace ScriptTree

namespace Lexeme

/-! ### Characters without a meaning -/

/-- Whether a character stands in no word, no number and no symbol but behind a dollar sign. -/
structure Foreign (c : Char) : Prop where
  wordless : c.isAlphanum = false ∧ c ≠ '_'
  signless : c ∉ symbolHeads

theorem foreign_space : Foreign ' ' := by
  have hheads : symbolHeads.contains ' ' = false := by decide +kernel
  exact ⟨by decide, by simpa using hheads⟩

theorem mem_symbolHeads : ∀ entry ∈ symbolTable, ∀ c ∈ entry.1, c ∈ symbolHeads := by
  have hall : symbolTable.all (fun entry => entry.1.all symbolHeads.contains) = true := by
    decide +kernel
  simpa using hall

/-- Each first character of a symbol is a symbol on its own. -/
theorem ofSymbol?_head {c : Char} (hc : c ∈ symbolHeads) (cs : List Char) : ofSymbol? (c :: cs) ≠ none := by
  have hall : symbolHeads.all (fun c => symbolTable.any (·.1 == [c])) = true := by decide +kernel
  obtain ⟨entry, hentry, hsingle⟩ := List.any_eq_true.mp (List.all_eq_true.mp hall c hc)
  cases hopens : digitAhead (c :: cs) with
  | true => simp [ofSymbol?_question hopens]
  | false =>
    rw [ofSymbol?_eq_longest hopens, longestSymbol?, Ne, Option.map_eq_none_iff, List.find?_eq_none]
    intro hnone
    refine hnone entry hentry ?_
    rw [beq_iff_eq.mp hsingle]
    simp [List.isPrefixOf]

namespace Foreign
variable {c : Char} (h : Foreign c)
include h

theorem not_isDigit : c.isDigit = false := by
  have hnone := h.wordless.1
  rw [Char.isAlphanum, Bool.or_eq_false_iff] at hnone
  exact hnone.2

theorem endNumbers : EndNumbers [c] := by
  have hsigns : ∀ d ∈ ['.', '+', '-'], d ∈ symbolHeads := by
    have hall : ['.', '+', '-'].all symbolHeads.contains = true := by decide +kernel
    simpa using hall
  refine List.forall_mem_singleton.mpr ⟨h.wordless.1, fun hmem => ?_⟩
  rcases List.mem_cons.mp hmem with hbar | hsign
  · exact h.wordless.2 hbar
  · exact h.signless (hsigns c hsign)

theorem endSymbols : EndSymbols [c] := by
  refine ⟨fun entry hentry d hd hmem => ?_, List.forall_mem_singleton.mpr h.not_isDigit⟩
  obtain rfl := List.mem_singleton.mp hmem
  exact h.signless (mem_symbolHeads entry hentry d (List.mem_of_mem_tail hd))

end Foreign

theorem ofSymbol?_ne_unexpected (cs : List Char) (d : Char) : ofSymbol? cs ≠ some (.unexpected d) :=
  fun h => absurd (mem_symbols h) (by simp [symbols])

theorem ofSlash_ne_unexpected (operandEnd : Bool) (cs : List Char) (d : Char) :
    ofSlash operandEnd cs ≠ .unexpected d := by
  intro h
  rw [ofSlash_eq] at h
  split at h
  · cases h
  split at h
  · cases h
  split at h
  · cases hsymbol : ofSymbol? ('/' :: cs) with
    | none =>
      rw [hsymbol] at h
      cases h
    | some l =>
      rw [hsymbol] at h
      exact ofSymbol?_ne_unexpected _ d (hsymbol.trans (congrArg some h))
  · cases h

/-- A character is unexpected if it is not blank and starts nothing. -/
theorem foreign_of_unexpected {ctx : Context} {c d : Char} {cs : List Char}
    (h : ofCode ctx c cs = .unexpected d) : d = c ∧ isBlank c = false ∧ Foreign c := by
  rw [ofCode] at h
  split at h
  · cases h
  rename_i hblank
  split at h
  · exact absurd h (ofSlash_ne_unexpected _ _ d)
  split at h
  · cases h
  split at h
  · unfold ofNumber at h
    split at h
    · split at h <;> cases h
    · cases h
  rename_i hnumber
  split at h
  · rcases ofWord_cases (c :: cs) with ⟨_, _, hword⟩ | ⟨_, hword⟩ <;>
    · rw [hword] at h
      cases h
  rename_i hword
  split at h
  · cases h
  have hdigit : c.isDigit = false := by simp_all
  obtain ⟨halpha, hbar⟩ : c.isAlpha = false ∧ c ≠ '_' := by simpa [isIdentifierStart] using hword
  cases hsymbol : ofSymbol? (c :: cs) with
  | some l =>
    rw [hsymbol] at h
    exact absurd (hsymbol.trans (congrArg some h)) (ofSymbol?_ne_unexpected _ d)
  | none =>
    rw [hsymbol] at h
    obtain rfl : c = d := Lexeme.unexpected.inj h
    exact ⟨rfl, by simpa using hblank, ⟨by rw [Char.isAlphanum, halpha, hdigit]; rfl, hbar⟩,
      fun hc => ofSymbol?_head hc cs hsymbol⟩

end Lexeme

/-- Whether a text is another one, or is like it up to a space in the place of a character that starts
nothing. -/
def BlankedAhead (rest rest' : List Char) : Prop :=
  rest' = rest ∨ ∃ p c v v', isBlank c = false ∧ Lexeme.Foreign c ∧ rest = p ++ c :: v ∧
    rest' = p ++ ' ' :: v'

namespace BlankedAhead
variable {rest rest' : List Char}

theorem append (h : BlankedAhead rest rest') (front : List Char) :
    BlankedAhead (front ++ rest) (front ++ rest') := by
  rcases h with rfl | ⟨p, c, v, v', hsolid, hforeign, rfl, rfl⟩
  · exact .inl rfl
  · exact .inr ⟨front ++ p, c, v, v', hsolid, hforeign, by simp, by simp⟩

/-- The first character stays, or a space takes its place. -/
theorem head_cases (h : BlankedAhead rest rest') : rest'.head? = rest.head? ∨
    ∃ c, rest.head? = some c ∧ isBlank c = false ∧ Lexeme.Foreign c ∧ rest'.head? = some ' ' := by
  rcases h with rfl | ⟨p, c, v, v', hsolid, hforeign, rfl, rfl⟩
  · exact .inl rfl
  · cases p with
    | nil => exact .inr ⟨c, rfl, hsolid, hforeign, rfl⟩
    | cons d p => exact .inl rfl

/-- The first character stays if it is one that a symbol starts with. -/
theorem head_sign (h : BlankedAhead rest rest') {d : Char} (hd : d ∈ Lexeme.symbolHeads) :
    rest'.head? = some d ↔ rest.head? = some d := by
  rcases h.head_cases with hhead | ⟨c, hhead, _, hforeign, hspace⟩
  · rw [hhead]
  · rw [hhead, hspace]
    refine iff_of_false ?_ ?_
    · rintro ⟨⟩
      exact Lexeme.foreign_space.signless hd
    · rintro ⟨⟩
      exact hforeign.signless hd

end BlankedAhead

namespace Lexeme

/-- Where a regular expression is not closed, the line or the text is over. -/
theorem regexBody_open {inClass : Bool} {cs taken : List Char}
    (h : (regexBody inClass cs taken).2 = false) : ∃ front rest, cs = front ++ rest ∧
      (regexBody inClass cs taken).1 = taken.reverse ++ front ∧
      rest.head?.any (!isLineTerminator ·) = false := by
  fun_induction regexBody inClass cs taken with
  | case1 inClass taken => exact ⟨[], [], rfl, by simp, rfl⟩
  | case2 inClass d cs taken hline => exact ⟨['\\'], d :: cs, rfl, by simp, by simpa using hline⟩
  | case3 inClass d cs taken _ ih =>
    obtain ⟨front, rest, rfl, htaken, hrest⟩ := ih h
    exact ⟨'\\' :: d :: front, rest, rfl, by simp [htaken], hrest⟩
  | case4 inClass c cs taken _ hline => exact ⟨[], c :: cs, rfl, by simp, by simpa using hline⟩
  | case5 inClass c cs taken => cases h
  | case6 inClass c cs taken _ _ _ ih =>
    obtain ⟨front, rest, rfl, htaken, hrest⟩ := ih h
    exact ⟨c :: front, rest, rfl, by rw [htaken]; simp, hrest⟩

section Ahead
variable {front rest rest' : List Char} (h : BlankedAhead rest rest')
include h

/-- What is read up to a foreign character at most is read alike. -/
theorem eq_of_blankedAhead {α : Type} {f : List Char → α} (hne : front ≠ [])
    (hstop : ∀ {c}, Foreign c → ∀ {q v}, q ≠ [] → Halts [c] (c :: v) → f (q ++ c :: v) = f q) :
    f (front ++ rest') = f (front ++ rest) := by
  have hhalts (c : Char) (v : List Char) : Halts [c] (c :: v) := by simp [Halts]
  rcases h with rfl | ⟨p, c, v, v', _, hforeign, rfl, rfl⟩
  · rfl
  · have hnonempty : front ++ p ≠ [] := List.append_ne_nil_of_left_ne_nil hne p
    rw [← List.append_assoc, ← List.append_assoc, hstop hforeign hnonempty (hhalts c v),
      hstop foreign_space hnonempty (hhalts _ v')]

/-- Up to the end of a line, nothing is blanked. -/
theorem head_of_lineEnd (hline : rest.head?.any (!isLineTerminator ·) = false) :
    rest'.head? = rest.head? := by
  refine h.head_cases.resolve_right ?_
  rintro ⟨c, hhead, hsolid, _⟩
  have hend : isLineTerminator c = true := by simpa [hhead] using hline
  have hblank : isBlank c = true := by
    simp only [isLineTerminator, Bool.or_eq_true, beq_iff_eq, or_assoc] at hend
    rcases hend with rfl | rfl | rfl | rfl <;> decide
  rw [hsolid] at hblank
  cases hblank

/-- What does not go on with a space does not go on with another text either. -/
theorem head_any_blankedAhead {p : Char → Bool} (hspace : p ' ' = false)
    (hrest : rest.head?.any p = false) : rest'.head?.any p = false := by
  rcases h.head_cases with hhead | ⟨_, _, _, _, hhead⟩ <;> rw [hhead]
  · exact hrest
  · exact hspace

theorem takeWhile_blankedAhead {p : Char → Bool} (hspace : p ' ' = false)
    (hfront : (front ++ rest).takeWhile p = front) : (front ++ rest').takeWhile p = front :=
  takeWhile_of_front hfront (head_any_blankedAhead h hspace (head_any_of_takeWhile hfront))

/-! ### Comments and regular expressions -/

theorem ofLineComment_blankedAhead {kind : CommentKind}
    (htext : (ofLineComment kind (front ++ rest)).text = front) :
    ofLineComment kind (front ++ rest') = ofLineComment kind (front ++ rest) :=
  ofLineComment_of_front htext (head_of_lineEnd h (head_any_of_takeWhile htext))

theorem ofBlockComment_blankedAhead (htext : (ofBlockComment (front ++ rest)).text = '/' :: '*' :: front) :
    ofBlockComment (front ++ rest') = ofBlockComment (front ++ rest) := by
  refine ofBlockComment_of_front htext ?_
  cases hclosed : (blockBody (front ++ rest) []).2 with
  | true => exact .inr rfl
  | false =>
    have hall : front = front ++ rest := by
      have := blockBody_open hclosed
      rwa [show (blockBody (front ++ rest) []).1 = front by simpa [ofBlockComment, text] using htext] at this
    obtain rfl : rest = [] := List.append_right_eq_self.mp hall.symm
    exact .inl (head_of_lineEnd h rfl)

theorem ofRegex_blankedAhead (htext : (ofRegex (front ++ rest)).text = '/' :: front) :
    ofRegex (front ++ rest') = ofRegex (front ++ rest) := by
  refine ofRegex_of_front htext ?_
  cases hclosed : (regexBody false (front ++ rest) []).2 with
  | true =>
    rcases h.head_cases with hhead | ⟨_, _, _, _, hhead⟩
    · exact .inl hhead
    · exact .inr ⟨rfl, by rw [hhead]; decide⟩
  | false =>
    obtain ⟨front', rest'', hsplit, htaken, hline⟩ := regexBody_open hclosed
    have hfront : front' = front := by
      simpa [ofRegex, text, hclosed, htaken] using htext
    subst hfront
    obtain rfl := List.append_cancel_left hsplit
    exact .inl (head_of_lineEnd h hline)

theorem ofSlash_blankedAhead {operandEnd : Bool}
    (htext : (ofSlash operandEnd (front ++ rest)).text = '/' :: front) :
    ofSlash operandEnd (front ++ rest') = ofSlash operandEnd (front ++ rest) := by
  have hsymbol : ofSymbol? ('/' :: (front ++ rest')) = ofSymbol? ('/' :: (front ++ rest)) :=
    @eq_of_blankedAhead ('/' :: front) _ _ h _ ofSymbol? (List.cons_ne_nil _ _)
      fun hforeign _ _ hne hhalts => ofSymbol?_append hforeign.endSymbols hhalts hne
  have hsigns : '/' ∈ symbolHeads ∧ '*' ∈ symbolHeads := by
    have hall : ['/', '*'].all symbolHeads.contains = true := by decide +kernel
    simpa using hall
  have hline := (h.append front).head_sign hsigns.1
  have hblock := (h.append front).head_sign hsigns.2
  rw [ofSlash_eq] at htext
  simp only [ofSlash_eq, hline, hblock, hsymbol]
  split
  · rw [if_pos ‹_›] at htext
    exact @ofLineComment_blankedAhead ('/' :: front) _ _ h _ htext
  rw [if_neg ‹_›] at htext
  split
  · rename_i hstar
    rw [if_pos hstar] at htext
    cases front with
    | nil => exact absurd htext (by simp [ofBlockComment, text])
    | cons d front =>
      obtain rfl : d = '*' := by simpa using hstar
      exact ofBlockComment_blankedAhead h htext
  rw [if_neg ‹_›] at htext
  cases operandEnd with
  | true => rfl
  | false => exact ofRegex_blankedAhead h htext

/-! ### Whole lexemes -/

theorem ofString_blankedAhead {mark : Punctuation} {c : Char} (hquote : quote? c = some mark)
    (htext : (ofString mark c (front ++ rest)).text = c :: front) :
    ofString mark c (front ++ rest') = ofString mark c (front ++ rest) := by
  refine ofString_of_front hquote htext ?_
  cases hclosed : (pieces c (front ++ rest) []).2 with
  | true => exact .inr rfl
  | false =>
    have hbody := stringBody c (front ++ rest)
    rw [hclosed, ← List.append_nil (pieces c (front ++ rest) []).1] at hbody
    obtain ⟨back, hsplit, hback⟩ := hbody.split
    have hfront : (pieces c (front ++ rest) []).1.flatMap Piece.text = front := by
      simpa [ofString, text, hclosed, (quote_spelling hquote).1] using htext
    rw [hfront] at hsplit
    obtain rfl := List.append_cancel_left hsplit
    cases hback with
    | ended line =>
      refine .inl (head_of_lineEnd h ?_)
      cases rest with
      | nil => rfl
      | cons d rest => rcases line d rfl with rfl | rfl <;> rfl

theorem ofWord_blankedAhead (htext : (ofWord (front ++ rest)).text = front) :
    ofWord (front ++ rest') = ofWord (front ++ rest) := by
  rw [text_ofWord] at htext
  rw [ofWord, ofWord, htext, takeWhile_blankedAhead h (by decide) htext]

/-- A mark that is written with the characters of symbols stands at the head of both texts or of neither. -/
theorem isPrefixOf_blankedAhead {mark : List Char} (hmark : ∀ c ∈ mark, c ∈ symbolHeads) (hne : front ≠ []) :
    mark.isPrefixOf (front ++ rest') = mark.isPrefixOf (front ++ rest) := by
  refine @eq_of_blankedAhead _ _ _ h _ (mark.isPrefixOf ·) hne fun hforeign _ _ _ hhalts => ?_
  refine isPrefixOf_append_of_halts hhalts fun d hd hmem => hforeign.signless ?_
  exact List.mem_singleton.mp hmem ▸ hmark d hd

theorem ofCode_blankedAhead {ctx : Context} {c : Char}
    (htext : (ofCode ctx c (front ++ rest)).text = c :: front) :
    ofCode ctx c (front ++ rest') = ofCode ctx c (front ++ rest) := by
  have hne : c :: front ≠ [] := List.cons_ne_nil _ _
  have hmarks : (∀ c ∈ "<!--".toList, c ∈ symbolHeads) ∧ ∀ c ∈ "-->".toList, c ∈ symbolHeads := by
    have hall : "<!--".toList.all symbolHeads.contains && "-->".toList.all symbolHeads.contains = true := by
      decide +kernel
    simpa using hall
  have hopening : "<!--".toList.isPrefixOf (c :: (front ++ rest')) =
      "<!--".toList.isPrefixOf (c :: (front ++ rest)) := isPrefixOf_blankedAhead h hmarks.1 hne
  have hclosing : "-->".toList.isPrefixOf (c :: (front ++ rest')) =
      "-->".toList.isPrefixOf (c :: (front ++ rest)) := isPrefixOf_blankedAhead h hmarks.2 hne
  have hnumber : ofNumber (c :: (front ++ rest')) = ofNumber (c :: (front ++ rest)) :=
    @eq_of_blankedAhead (c :: front) _ _ h _ ofNumber hne
      fun hforeign _ _ hne hhalts => ofNumber_append hforeign.endNumbers hhalts hne
  have hsymbol : ofSymbol? (c :: (front ++ rest')) = ofSymbol? (c :: (front ++ rest)) :=
    @eq_of_blankedAhead (c :: front) _ _ h _ ofSymbol? hne
      fun hforeign _ _ hne hhalts => ofSymbol?_append hforeign.endSymbols hhalts hne
  have hdigit : (front ++ rest').head?.any Char.isDigit = (front ++ rest).head?.any Char.isDigit := by
    rcases (h.append front).head_cases with hhead | ⟨d, hhead, _, hforeign, hspace⟩
    · rw [hhead]
    · rw [hhead, hspace, Option.any_some, Option.any_some, hforeign.not_isDigit, foreign_space.not_isDigit]
  rw [ofCode] at htext
  rw [ofCode, ofCode, hopening, hclosing, hnumber, hsymbol, hdigit]
  by_cases hblank : isBlank c = true
  · rw [if_pos hblank, if_pos hblank]
  rw [if_neg hblank] at htext
  rw [if_neg hblank, if_neg hblank]
  by_cases hslash : c = '/'
  · rw [if_pos hslash] at htext
    rw [if_pos hslash, if_pos hslash]
    subst hslash
    exact ofSlash_blankedAhead h htext
  rw [if_neg hslash] at htext
  rw [if_neg hslash, if_neg hslash]
  split
  · rw [if_pos ‹_›] at htext
    exact @ofLineComment_blankedAhead (c :: front) _ _ h _ htext
  rw [if_neg ‹_›] at htext
  split
  · rfl
  rw [if_neg ‹_›] at htext
  split
  · rw [if_pos ‹_›] at htext
    exact @ofWord_blankedAhead (c :: front) _ _ h htext
  rw [if_neg ‹_›] at htext
  cases hquote : quote? c with
  | none => rfl
  | some mark =>
    rw [hquote] at htext
    exact ofString_blankedAhead h hquote htext

end Ahead

/-! ### Spaces in the place of unexpected characters -/

/-- The lexeme, or as many spaces as an unexpected character has bytes. -/
def blanked : Lexeme → List Lexeme
  | unexpected c => List.replicate c.utf8Size (.blank ' ')
  | l => [l]

theorem blanked_cases (l : Lexeme) : (∃ c, l = .unexpected c) ∨
    l.blanked = [l] ∧ ∀ start, (Placed.mk start l).stray? = none := by
  cases l with
  | unexpected c => exact .inl ⟨c, rfl⟩
  | blank | comment | keyword | identifier | number | operator | loose | punctuation | string | regex
  | templateChars | templateEscape => exact .inr ⟨rfl, fun _ => rfl⟩

theorem text_blanked_unexpected (c : Char) :
    (blanked (.unexpected c)).flatMap text = List.replicate c.utf8Size ' ' := by
  simp [blanked, text, List.flatMap_replicate]

end Lexeme

/-- Whether two texts begin alike for whatever is read in a context: up to a space in the place of an
unexpected character, and in template text with the same two characters. -/
structure BeginAlike (ctx : Context) (rest rest' : List Char) : Prop where
  ahead : BlankedAhead rest rest'
  template : Nesting.InTemplate ctx.modes →
    rest'.head? = rest.head? ∧ (rest.head? = some '$' → rest'[1]? = rest[1]?)

namespace Lexeme

theorem ofTemplate_beginAlike {ctx : Context} {c : Char} {front rest rest' : List Char} 
    (hmode : Nesting.InTemplate ctx.modes) (htext : (ofTemplate c (front ++ rest)).text = c :: front)
    (h : BeginAlike (ctx.after (ofTemplate c (front ++ rest))) rest rest') :
    ofTemplate c (front ++ rest') = ofTemplate c (front ++ rest) := by
  have hinside (hplain : ∀ mark, ofTemplate c (front ++ rest) ≠ .punctuation mark) :
      ofTemplate c (front ++ rest') = ofTemplate c (front ++ rest) := by
    obtain ⟨hhead, hsecond⟩ := h.template (by rwa [Context.after_of_plain ctx hplain])
    exact ofTemplate_of_front htext hhead hsecond
  rcases ofTemplate_cases c (front ++ rest) with h | h | ⟨_, _, h⟩ | ⟨_, h⟩
  · rw [h] at htext
    obtain ⟨rfl, rfl⟩ : '\x60' = c ∧ [] = front := List.cons.inj htext
    rfl
  · rw [h] at htext
    obtain ⟨rfl, rfl⟩ : '$' = c ∧ ['\x7b'] = front := List.cons.inj htext
    rfl
  · exact hinside (by simp [h])
  · exact hinside (by simp [h])

/-- A dollar sign on its own opens no substitution. -/
theorem plain_of_dollar {c : Char} {cs : List Char} {l : Lexeme} (h : ofTemplate c cs = l)
    (htext : l.text = ['$']) (mark : Punctuation) : l ≠ .punctuation mark := by
  rintro rfl
  have hmark : mark = .backtick ∨ mark = .dollarBrace := by simpa [h] using ofTemplate_cases c cs
  rcases hmark with rfl | rfl <;> exact absurd htext (by decide)

/-- A lexeme is read alike in front of texts that begin alike. -/
theorem first_beginAlike {ctx : Context} {c : Char} {front rest rest' : List Char} 
    (htext : (first ctx c (front ++ rest)).text = c :: front)
    (h : BeginAlike (ctx.after (first ctx c (front ++ rest))) rest rest') :
    first ctx c (front ++ rest') = first ctx c (front ++ rest) := by
  by_cases hmode : ∃ modes, ctx.modes = .template :: modes
  · obtain ⟨modes, hmode⟩ := hmode
    have hfirst (cs : List Char) : first ctx c cs = ofTemplate c cs := by rw [first, hmode]
    rw [hfirst] at htext h
    rw [hfirst, hfirst]
    exact ofTemplate_beginAlike (by rw [Nesting.InTemplate, hmode]; rfl) htext h
  · have hcode : ∀ modes, ctx.modes ≠ .template :: modes := fun modes h => hmode ⟨modes, h⟩
    rw [first_code hcode] at htext
    rw [first_code hcode, first_code hcode]
    exact ofCode_blankedAhead h.ahead htext

end Lexeme

/-- Unexpected characters and spaces leave a context as it is. -/
theorem Context.after_unexpected (ctx : Context) (c : Char) : ctx.after (.unexpected c) = ctx := by
  rw [after_of_plain ctx (by simp)]
  rfl

theorem Context.after_space (ctx : Context) : ctx.after (.blank ' ') = ctx := by
  rw [after_of_plain ctx (by simp)]
  simp [lineStartAfter, isLineTerminator, Lexeme.endsOperand?, Lexeme.tokenKind?]

theorem Lexes.spaces {ctx last : Context} {cs : List Char} {ls : List Lexeme} (h : Lexes ctx cs ls last)
    (hcode : ∀ modes, ctx.modes ≠ .template :: modes) (n : Nat) :
    Lexes ctx (List.replicate n ' ' ++ cs) (List.replicate n (.blank ' ') ++ ls) last := by
  induction n with
  | zero => exact h
  | succ n ih => exact .cons (Lexeme.first_code hcode ' ' _) rfl (by rwa [Context.after_space])

/-- With spaces in the place of unexpected characters, a text falls into the same lexemes but for these. -/
theorem Lexes.blanked {ctx last : Context} {cs : List Char} {ls : List Lexeme}
    (h : Lexes ctx cs ls last) :
    Lexes ctx ((ls.flatMap Lexeme.blanked).flatMap Lexeme.text) (ls.flatMap Lexeme.blanked) last ∧
      BeginAlike ctx cs ((ls.flatMap Lexeme.blanked).flatMap Lexeme.text) := by
  induction h with
  | nil => exact ⟨.nil, .inl rfl, fun _ => ⟨rfl, fun _ => rfl⟩⟩
  | @cons ctx last c cs rest l ls first split below ih =>
    obtain ⟨ih, halike⟩ := ih
    rw [List.flatMap_cons, List.flatMap_append]
    generalize (ls.flatMap Lexeme.blanked).flatMap Lexeme.text = rest' at ih halike ⊢
    obtain ⟨front, htext⟩ : ∃ front, l.text = c :: front :=
      first ▸ (Lexeme.first_heads ctx c cs).text_cons
    obtain rfl : cs = front ++ rest := by
      rw [htext] at split
      exact (List.cons.inj split).2
    rcases l.blanked_cases with ⟨d, rfl⟩ | ⟨hsame, _⟩
    · have hcode : ∀ modes, ctx.modes ≠ .template :: modes := by
        intro modes hmode
        rw [Lexeme.first, hmode] at first
        have hcases := Lexeme.ofTemplate_cases c (front ++ rest)
        simp only at first
        simp [first] at hcases
      rw [Lexeme.first_code hcode] at first
      obtain ⟨rfl, hsolid, hforeign⟩ := Lexeme.foreign_of_unexpected first
      rw [Context.after_unexpected] at ih
      rw [Lexeme.text_blanked_unexpected]
      refine ⟨ih.spaces hcode _, .inr ?_, fun hmode => ?_⟩
      · obtain ⟨n, hn⟩ := Nat.exists_eq_succ_of_ne_zero d.utf8Size_pos.ne'
        exact ⟨[], d, _, List.replicate n ' ' ++ rest', hsolid, hforeign, rfl, by rw [hn]; rfl⟩
      · obtain ⟨modes, hmodes⟩ := List.head?_eq_some_iff.mp hmode
        exact absurd hmodes (hcode modes)
    · have hsplit : [l].flatMap Lexeme.text ++ rest' = c :: (front ++ rest') := by
        rw [List.flatMap_singleton, htext]
        rfl
      have hlexed := Lexeme.first_beginAlike (first ▸ htext) (first ▸ halike)
      rw [hsame, hsplit]
      refine ⟨.cons (hlexed.trans first) (by rw [htext]; rfl) ih, halike.ahead.append (c :: front),
        fun hmode => ⟨rfl, ?_⟩⟩
      rintro hdollar
      obtain rfl : c = '$' := Option.some.inj hdollar
      cases front with
      | cons d front => rfl
      | nil =>
        obtain ⟨modes, hmodes⟩ := List.head?_eq_some_iff.mp hmode
        have hplain : ∀ mark, l ≠ .punctuation mark := by
          rw [Lexeme.first, hmodes] at first
          exact Lexeme.plain_of_dollar first htext
        obtain ⟨hhead, _⟩ := halike.template (by rwa [Context.after_of_plain ctx hplain])
        simpa [List.head?_eq_getElem?] using hhead

end ScriptTree
