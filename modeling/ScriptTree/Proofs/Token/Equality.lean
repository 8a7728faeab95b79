import Mathlib
import ScriptTree.Proofs.Token.Lexing
import ScriptTree.Proofs.Token.Locality

/-! Loose spellings replaced by strict ones.

A loose spelling is one equals sign short of the strict operator that it is read as. With the sign put
in, the text goes on as before up to an equals sign behind another character (`SameAhead`), and no
lexeme in front is read on that far: the text falls into the same lexemes, but for the operators
themselves (`Lexes.strict`). -/
namespace ScriptTree

/-- Whether a text is another one, or is like it up to an equals sign behind another character. -/
def SameAhead (rest rest' : List Char) : Prop :=
  rest' = rest ∨ ∃ p v v', p ≠ [] ∧ rest = p ++ '=' :: v ∧ rest' = p ++ '=' :: v'

namespace SameAhead
variable {front rest rest' : List Char}

theorem append (h : SameAhead rest rest') (front : List Char) :
    SameAhead (front ++ rest) (front ++ rest') := by
  rcases h with rfl | ⟨p, v, v', hp, rfl, rfl⟩
  · exact .inl rfl
  · exact .inr ⟨front ++ p, v, v', by simp [hp], by simp, by simp⟩

theorem head (h : SameAhead rest rest') : rest'.head? = rest.head? := by
  rcases h with rfl | ⟨p, v, v', hp, rfl, rfl⟩
  · rfl
  · obtain ⟨c, p, rfl⟩ := List.exists_cons_of_ne_nil hp
    rfl

theorem second (h : SameAhead rest rest') : rest'[1]? = rest[1]? := by
  rcases h with rfl | ⟨p, v, v', hp, rfl, rfl⟩
  · rfl
  · obtain ⟨c, p, rfl⟩ := List.exists_cons_of_ne_nil hp
    cases p <;> rfl

theorem head_append (h : SameAhead rest rest') (front : List Char) :
    (front ++ rest').head? = (front ++ rest).head? := (h.append front).head

end SameAhead

namespace Lexeme

/-! ### Symbols -/

/-- Behind an equals sign that is not among its first two characters, no symbol goes on. -/
theorem sign_of_mem_symbolTable : ∀ entry ∈ symbolTable, ∀ i < entry.1.length, 2 ≤ i →
    entry.1[i]? = some '=' → i + 1 = entry.1.length := by
  have hall : symbolTable.all (fun entry => (List.range entry.1.length).all fun i =>
      decide (2 ≤ i → entry.1[i]? = some '=' → i + 1 = entry.1.length)) = true := by
    decide +kernel
  intro entry hentry i hi
  exact of_decide_eq_true (List.all_eq_true.mp (List.all_eq_true.mp hall entry hentry) i
    (List.mem_range.mpr hi))

theorem isPrefixOf_sign {text q : List Char}
    (h : ∀ i < text.length, 2 ≤ i → text[i]? = some '=' → i + 1 = text.length) (hq : 2 ≤ q.length)
    (v : List Char) : text.isPrefixOf (q ++ '=' :: v) = text.isPrefixOf (q ++ ['=']) := by
  have hsplit : q ++ '=' :: v = (q ++ ['=']) ++ v := by simp
  rw [Bool.eq_iff_iff, List.isPrefixOf_iff_prefix, List.isPrefixOf_iff_prefix]
  constructor
  · intro hprefix
    by_cases hshort : text.length ≤ q.length + 1
    · rw [hsplit] at hprefix
      exact List.prefix_of_prefix_length_le hprefix (List.prefix_append _ _) (by simpa using hshort)
    · obtain ⟨more, hmore⟩ := hprefix
      have hsign : text[q.length]? = some '=' := by
        rw [← @List.getElem?_append_left _ text more _ (by omega), hmore,
          List.getElem?_append_right le_rfl, Nat.sub_self]
        rfl
      have := h q.length (by omega) hq hsign
      omega
  · intro hprefix
    rw [hsplit]
    exact hprefix.trans (List.prefix_append _ _)

theorem find?_symbolTable_sign {q : List Char} (hq : 2 ≤ q.length) (v : List Char) :
    symbolTable.find? (fun entry => entry.1.isPrefixOf (q ++ '=' :: v)) =
      symbolTable.find? fun entry => entry.1.isPrefixOf (q ++ ['=']) := by
  have htable := sign_of_mem_symbolTable
  generalize symbolTable = table at htable
  induction table with
  | nil => rfl
  | cons entry table ih =>
    rw [List.find?_cons, List.find?_cons,
      isPrefixOf_sign (htable entry (List.mem_cons_self ..)) hq,
      ih fun entry h => htable entry (List.mem_cons_of_mem _ h)]

/-- A symbol is not read on beyond an equals sign that two characters stand in front of. -/
theorem ofSymbol?_sign {q : List Char} (hq : 2 ≤ q.length) (v : List Char) :
    ofSymbol? (q ++ '=' :: v) = ofSymbol? (q ++ ['=']) := by
  have hsame : digitAhead (q ++ '=' :: v) = digitAhead (q ++ ['=']) := by
    obtain ⟨c, d, rest, rfl⟩ : ∃ c d rest, q = c :: d :: rest := by
      match q, hq with
      | c :: d :: rest, _ => exact ⟨c, d, rest, rfl⟩
    by_cases hpoint : c = '?' ∧ d = '.'
    · obtain ⟨rfl, rfl⟩ := hpoint
      cases rest <;> rfl
    · rw [digitAhead_eq_false, digitAhead_eq_false] <;>
        exact fun ⟨_, hcs⟩ => hpoint ⟨(List.cons.inj hcs).1, (List.cons.inj (List.cons.inj hcs).2).1⟩
  cases hopens : digitAhead (q ++ ['=']) with
  | true => rw [ofSymbol?_question hopens, ofSymbol?_question (hsame.trans hopens)]
  | false =>
    rw [ofSymbol?_eq_longest hopens, ofSymbol?_eq_longest (hsame.trans hopens)]
    exact congrArg (Option.map (·.2)) (find?_symbolTable_sign hq v)

theorem ofSymbol?_sameAhead {front rest rest' : List Char} (hne : front ≠ [])
    (h : SameAhead rest rest') : ofSymbol? (front ++ rest') = ofSymbol? (front ++ rest) := by
  rcases h with rfl | ⟨p, v, v', hp, rfl, rfl⟩
  · rfl
  · have hlength : 2 ≤ (front ++ p).length := by
      have := List.length_pos_of_ne_nil hne
      have := List.length_pos_of_ne_nil hp
      rw [List.length_append]
      omega
    rw [← List.append_assoc, ← List.append_assoc, ofSymbol?_sign hlength v,
      ofSymbol?_sign hlength v']

/-! ### Other lexemes -/

section Same
variable {front rest rest' : List Char} (h : SameAhead rest rest')
include h

/-- A mark without an equals sign stands at the head of both texts or of neither. -/
theorem isPrefixOf_sameAhead {text : List Char} (htext : '=' ∉ text) (front : List Char) :
    text.isPrefixOf (front ++ rest') = text.isPrefixOf (front ++ rest) := by
  have hstop (p v : List Char) : text.isPrefixOf (p ++ '=' :: v) = text.isPrefixOf p := by
    have hhalts : Halts ['='] ('=' :: v) := by simp [Halts]
    exact isPrefixOf_append_of_halts hhalts fun c hc hmem => htext (List.mem_singleton.mp hmem ▸ hc)
  rcases h with rfl | ⟨p, v, v', hp, rfl, rfl⟩
  · rfl
  · rw [← List.append_assoc, ← List.append_assoc, hstop, hstop]

theorem ofNumber_sameAhead (hne : front ≠ []) :
    ofNumber (front ++ rest') = ofNumber (front ++ rest) := by
  have hstop (v : List Char) : Halts wordStops ('=' :: v) := by simp [Halts, wordStops]
  rcases h with rfl | ⟨p, v, v', hp, rfl, rfl⟩
  · rfl
  · rw [← List.append_assoc, ← List.append_assoc,
      ofNumber_append endNumbers_wordStops (hstop v) (by simp [hne]),
      ofNumber_append endNumbers_wordStops (hstop v') (by simp [hne])]

theorem ofWord_sameAhead (front : List Char) : ofWord (front ++ rest') = ofWord (front ++ rest) := by
  have hstop (v : List Char) : Halts wordStops ('=' :: v) := by simp [Halts, wordStops]
  rcases h with rfl | ⟨p, v, v', hp, rfl, rfl⟩
  · rfl
  · rw [← List.append_assoc, ← List.append_assoc, ofWord_append (hstop v), ofWord_append (hstop v')]


/-! ### Whole lexemes -/

theorem ofSlash_sameAhead {operandEnd : Bool}
    (htext : (ofSlash operandEnd (front ++ rest)).text = '/' :: front) :
    ofSlash operandEnd (front ++ rest') = ofSlash operandEnd (front ++ rest) := by
  have hsymbol : ofSymbol? ('/' :: (front ++ rest')) = ofSymbol? ('/' :: (front ++ rest)) :=
    @ofSymbol?_sameAhead ('/' :: front) _ _ (List.cons_ne_nil _ _) h
  rw [ofSlash_eq] at htext
  rw [ofSlash_eq, ofSlash_eq, h.head_append, hsymbol]
  by_cases hline : (front ++ rest).head? = some '/'
  · rw [if_pos hline] at htext
    rw [if_pos hline, if_pos hline]
    exact @ofLineComment_of_front ('/' :: front) _ _ _ htext h.head
  rw [if_neg hline] at htext
  rw [if_neg hline, if_neg hline]
  by_cases hblock : (front ++ rest).head? = some '*'
  · rw [if_pos hblock] at htext
    rw [if_pos hblock, if_pos hblock]
    cases front with
    | nil => exact absurd htext (by simp [ofBlockComment, text])
    | cons d front =>
      obtain rfl : d = '*' := by simpa using hblock
      exact ofBlockComment_of_front htext (.inl h.head)
  rw [if_neg hblock] at htext
  rw [if_neg hblock, if_neg hblock]
  cases operandEnd with
  | true => rfl
  | false => exact ofRegex_of_front htext (.inl h.head)

theorem ofCode_sameAhead {ctx : Context} {c : Char}
    (htext : (ofCode ctx c (front ++ rest)).text = c :: front) :
    ofCode ctx c (front ++ rest') = ofCode ctx c (front ++ rest) := by
  have hne : c :: front ≠ [] := List.cons_ne_nil _ _
  have hopening : "<!--".toList.isPrefixOf (c :: (front ++ rest')) =
      "<!--".toList.isPrefixOf (c :: (front ++ rest)) :=
    isPrefixOf_sameAhead h (by decide) (c :: front)
  have hclosing : "-->".toList.isPrefixOf (c :: (front ++ rest')) =
      "-->".toList.isPrefixOf (c :: (front ++ rest)) :=
    isPrefixOf_sameAhead h (by decide) (c :: front)
  have hnumber : ofNumber (c :: (front ++ rest')) = ofNumber (c :: (front ++ rest)) :=
    ofNumber_sameAhead h hne
  have hword : ofWord (c :: (front ++ rest')) = ofWord (c :: (front ++ rest)) :=
    ofWord_sameAhead h (c :: front)
  have hsymbol : ofSymbol? (c :: (front ++ rest')) = ofSymbol? (c :: (front ++ rest)) :=
    ofSymbol?_sameAhead hne h
  rw [ofCode] at htext
  rw [ofCode, ofCode, hopening, hclosing, hnumber, hword, hsymbol, h.head_append]
  by_cases hblank : isBlank c = true
  · rw [if_pos hblank, if_pos hblank]
  rw [if_neg hblank] at htext
  rw [if_neg hblank, if_neg hblank]
  by_cases hslash : c = '/'
  · rw [if_pos hslash] at htext
    rw [if_pos hslash, if_pos hslash]
    subst hslash
    exact ofSlash_sameAhead h htext
  rw [if_neg hslash] at htext
  rw [if_neg hslash, if_neg hslash]
  split
  · rw [if_pos ‹_›] at htext
    exact @ofLineComment_of_front (c :: front) _ _ _ htext h.head
  rw [if_neg ‹_›] at htext
  split
  · rfl
  rw [if_neg ‹_›] at htext
  split
  · rfl
  rw [if_neg ‹_›] at htext
  cases hquote : quote? c with
  | none => rfl
  | some mark =>
    rw [hquote] at htext
    exact ofString_of_front hquote htext (.inl h.head)

/-- A lexeme is not read on beyond an equals sign behind another character. -/
theorem first_sameAhead {ctx : Context} {c : Char}
    (htext : (first ctx c (front ++ rest)).text = c :: front) :
    first ctx c (front ++ rest') = first ctx c (front ++ rest) := by
  by_cases hmode : ∃ modes, ctx.modes = .template :: modes
  · obtain ⟨modes, hmode⟩ := hmode
    have hfirst (cs : List Char) : first ctx c cs = ofTemplate c cs := by rw [first, hmode]
    rw [hfirst] at htext
    rw [hfirst, hfirst]
    exact ofTemplate_of_front htext h.head fun _ => h.second
  · have hcode : ∀ modes, ctx.modes ≠ .template :: modes := fun modes h => hmode ⟨modes, h⟩
    rw [first_code hcode] at htext
    rw [first_code hcode, first_code hcode]
    exact ofCode_sameAhead h htext

end Same

/-! ### Loose spellings -/

/-- The lexeme with the strict operator in the place of a loose spelling. -/
def strict : Lexeme → Lexeme
  | loose _ o => operator o
  | l => l

theorem ofSymbol?_of_ofCode {ctx : Context} {c : Char} {cs : List Char} {spelling : String}
    {o : Operator} (h : ofCode ctx c cs = .loose spelling o) :
    ofSymbol? (c :: cs) = some (.loose spelling o) := by
  have hword : Lexeme.loose spelling o ≠ ofWord (c :: cs) := by
    rcases ofWord_cases (c :: cs) with ⟨_, _, hword⟩ | ⟨_, hword⟩ <;>
    · rw [hword]
      simp
  have hcases := ofCode_cases ctx c cs
  rw [h] at hcases
  simpa [hword] using hcases

theorem mem_looseSpellings {cs : List Char} {spelling : String} {o : Operator}
    (h : ofSymbol? cs = some (.loose spelling o)) : (spelling, o) ∈ Operator.looseSpellings := by
  simpa [symbols] using mem_symbols h

theorem ofTemplate_ne_loose (c : Char) (cs : List Char) (spelling : String) (o : Operator) :
    ofTemplate c cs ≠ .loose spelling o := by
  intro h
  have hcases := ofTemplate_cases c cs
  rw [h] at hcases
  simp at hcases

/-- A loose spelling is read outside of templates, and an equals sign more makes it strict. -/
theorem first_loose {ctx : Context} {c : Char} {front rest : List Char} {spelling : String} {o : Operator}
    (h : first ctx c (front ++ rest) = .loose spelling o) (htext : c :: front = spelling.toList)
    (rest' : List Char) : front = ['='] ∧ o.spelling.toList = [c, '=', '='] ∧
      first ctx c ('=' :: '=' :: rest') = .operator o := by
  have hcode : ∀ modes, ctx.modes ≠ .template :: modes := by
    intro modes hmode
    rw [first, hmode] at h
    exact ofTemplate_ne_loose _ _ _ _ h
  rw [first_code hcode] at h
  rw [first_code hcode]
  have hmem := mem_looseSpellings (ofSymbol?_of_ofCode h)
  have hsign (c : Char) (hc : c = '=' ∨ c = '!') :
      ofCode ctx c ('=' :: '=' :: rest') = (ofSymbol? [c, '=', '=']).getD (.unexpected c) := by
    rw [show ofSymbol? [c, '=', '='] = ofSymbol? (c :: '=' :: '=' :: rest') from
      (ofSymbol?_sign (q := [c, '=']) le_rfl rest').symm]
    rcases hc with rfl | rfl <;>
      simp [ofCode, isBlank, isWhiteSpace, isIdentifierStart, quote?, Char.isDigit, Char.isAlpha,
        Char.isUpper, Char.isLower]
  have hcases : (spelling, o) = ("==", Operator.strictEqual) ∨
      (spelling, o) = ("!=", Operator.strictUnequal) := by
    simpa [Operator.looseSpellings] using hmem
  rcases hcases with hcases | hcases
  · cases hcases
    cases htext
    exact ⟨rfl, by decide, (hsign '=' (.inl rfl)).trans (by decide +kernel)⟩
  · cases hcases
    cases htext
    exact ⟨rfl, by decide, (hsign '!' (.inr rfl)).trans (by decide +kernel)⟩

end Lexeme

theorem Context.after_strict (ctx : Context) (l : Lexeme) : ctx.after l.strict = ctx.after l := by
  cases l with
  | loose =>
    rw [Lexeme.strict, after_of_plain ctx (by simp), after_of_plain ctx (by simp)]
    rfl
  | blank | unexpected | comment | keyword | identifier | number | operator | punctuation | string
  | regex | templateChars | templateEscape => rfl

/-- With strict operators in the place of loose spellings, a text falls into the same lexemes. -/
theorem Lexes.strict {ctx last : Context} {cs : List Char} {ls : List Lexeme}
    (h : Lexes ctx cs ls last) :
    Lexes ctx ((ls.map Lexeme.strict).flatMap Lexeme.text) (ls.map Lexeme.strict) last ∧
      SameAhead cs ((ls.map Lexeme.strict).flatMap Lexeme.text) := by
  induction h with
  | nil => exact ⟨.nil, .inl rfl⟩
  | @cons ctx last c cs rest l ls first split below ih =>
    obtain ⟨ih, hahead⟩ := ih
    obtain ⟨front, htext⟩ : ∃ front, l.text = c :: front :=
      first ▸ (Lexeme.first_heads ctx c cs).text_cons
    obtain rfl : cs = front ++ rest := by
      rw [htext] at split
      exact (List.cons.inj split).2
    rw [List.map_cons, List.flatMap_cons]
    generalize ((ls.map Lexeme.strict).flatMap Lexeme.text) = rest' at ih hahead ⊢
    rw [← Context.after_strict] at ih
    by_cases hloose : ∃ spelling o, l = .loose spelling o
    · obtain ⟨spelling, o, rfl⟩ := hloose
      obtain ⟨rfl, hspelling, hfirst⟩ := Lexeme.first_loose first htext.symm rest'
      have hstrict : (Lexeme.loose spelling o).strict.text ++ rest' = c :: '=' :: '=' :: rest' := by
        show o.spelling.toList ++ rest' = _
        rw [hspelling]
        rfl
      rw [hstrict]
      exact ⟨.cons hfirst hstrict.symm ih, .inr ⟨[c], rest, '=' :: rest', by simp, rfl, rfl⟩⟩
    · have hsame : l.strict = l := by
        cases l with
        | loose spelling o => exact absurd ⟨spelling, o, rfl⟩ hloose
        | blank | unexpected | comment | keyword | identifier | number | operator | punctuation
        | string | regex | templateChars | templateEscape => rfl
      rw [hsame] at ih ⊢
      have hfirst := Lexeme.first_sameAhead hahead (first ▸ htext)
      refine ⟨?_, split ▸ hahead.append l.text⟩
      rw [htext]
      exact .cons (hfirst.trans first) (congrArg (· ++ rest') htext.symm) ih

/-- What the lexer keeps to: only the two loose spellings are read as such. -/
structure Lexeme.Known (l : Lexeme) : Prop where
  nonempty : l.text ≠ []
  regular : l.Regular
  loose : ∀ spelling o, l = .loose spelling o → (spelling, o) ∈ Operator.looseSpellings

theorem Lexes.known {ctx last : Context} {cs : List Char} {ls : List Lexeme}
    (h : Lexes ctx cs ls last) : ∀ l ∈ ls, l.Known := by
  induction h with
  | nil => simp
  | @cons ctx last c cs rest l ls first split below ih =>
    have hheads := Lexeme.first_heads ctx c cs
    rw [first] at hheads
    refine List.forall_mem_cons.mpr ⟨⟨hheads.nonempty, hheads.regular, ?_⟩, ih⟩
    rintro spelling o rfl
    have hcode : Lexeme.ofCode ctx c cs = .loose spelling o := by
      rw [← first, Lexeme.first_code]
      intro modes hmode
      rw [Lexeme.first, hmode] at first
      exact Lexeme.ofTemplate_ne_loose c cs spelling o first
    exact Lexeme.mem_looseSpellings (Lexeme.ofSymbol?_of_ofCode hcode)

end ScriptTree
