import Mathlib
import ScriptTree.Proofs.Token.Covering

/-! Where scanners stop.

Neither a space nor the end of a line nor a mark that ends a statement goes on with a word, a number or
a symbol, so a scanner of these takes the same from a text whatever follows such a character
(`ofWord_append`, `ofNumber_append`, `ofSymbol?_append`, and `ofCode_stops` for all of them). Regular
expressions and line comments stop at the end of a line (`ofSlash_append`). -/
namespace ScriptTree.Lexeme

/-! ### Characters that end what is read -/

/-- A space, the ends of a line, and the marks that end statements and blocks. -/
def stops : List Char := [' ', '\n', '\r', ';', '\x7d']

/-- Whether a text is over or goes on with one of these characters. -/
def Halts (ends : List Char) (cs : List Char) : Prop := ∀ c ∈ cs.head?, c ∈ ends

def lineEnds : List Char := ['\n', '\r']

/-- Characters that end words and numbers: symbols may go on with an equals sign. -/
def wordStops : List Char := '=' :: stops

section Halting
variable {front back : List Char}

theorem Halts.mono {ends ends' : List Char} (h : Halts ends back) (hsub : ends ⊆ ends') :
    Halts ends' back := fun c hc => hsub (h c hc)

theorem Halts.of_lineEnds (h : Halts lineEnds back) : Halts stops back :=
  h.mono (by decide)

theorem Halts.of_stops (h : Halts stops back) : Halts wordStops back :=
  h.mono (List.subset_cons_self ..)

/-- The head of what follows has none of the properties that no such character has. -/
theorem Halts.head_any {ends : List Char} (h : Halts ends back) {p : Char → Bool}
    (hp : ∀ c ∈ ends, p c = false) : back.head?.any p = false := by
  cases back with
  | nil => rfl
  | cons c back => exact hp c (h c rfl)

theorem takeWhile_append_of_halts {ends : List Char} (h : Halts ends back) {p : Char → Bool}
    (hp : ∀ c ∈ ends, p c = false) : (front ++ back).takeWhile p = front.takeWhile p := by
  induction front with
  | nil =>
    cases back with
    | nil => rfl
    | cons c back => exact List.takeWhile_cons_of_neg (by simp [hp c (h c rfl)])
  | cons c front ih => rw [List.cons_append, List.takeWhile_cons, List.takeWhile_cons, ih]

theorem head?_any_append {ends : List Char} (h : Halts ends back) {p : Char → Bool}
    (hp : ∀ c ∈ ends, p c = false) : (front ++ back).head?.any p = front.head?.any p := by
  cases front with
  | nil => exact h.head_any hp
  | cons c front => rfl

/-- A beginning without such characters stands in what is in front of them. -/
theorem isPrefixOf_append_of_halts {ends : List Char} (h : Halts ends back) {text : List Char}
    (htext : ∀ c ∈ text, c ∉ ends) : text.isPrefixOf (front ++ back) = text.isPrefixOf front := by
  induction text generalizing front with
  | nil => rfl
  | cons c text ih =>
    cases front with
    | nil =>
      cases back with
      | nil => rfl
      | cons d back =>
        have hne : c ≠ d := by
          rintro rfl
          exact htext c (List.mem_cons_self ..) (h c rfl)
        simp [List.isPrefixOf, hne]
    | cons d front =>
      rw [List.cons_append, List.isPrefixOf, List.isPrefixOf,
        ih fun c hc => htext c (List.mem_cons_of_mem _ hc)]

end Halting

section Scanners
variable {front back : List Char}

/-- What is read of the front may be dropped in front of anything. -/
theorem drop_append_of_prefix {taken : List Char} (h : taken <+: front) (back : List Char) :
    (front ++ back).drop taken.length = front.drop taken.length ++ back :=
  List.drop_append_of_le_length h.length_le

/-! ### Numbers -/

/-- The bases of numbers. -/
def radices : List Nat := [2, 8, 10, 16]

theorem isAlphanum_of_isDigitOf : ∀ radix ∈ radices, ∀ c, isDigitOf radix c = true →
    c.isAlphanum = true := by
  intro radix hradix c h
  simp only [radices, List.mem_cons, List.not_mem_nil, or_false] at hradix
  rcases hradix with rfl | rfl | rfl | rfl <;>
  · simp [isDigitOf, Char.isDigit, Char.isAlphanum, Char.isAlpha, Char.isUpper, Char.isLower,
      Char.le_def, UInt32.le_iff_toNat_le] at h ⊢
    omega

/-- Characters that no number goes on with. -/
def EndNumbers (ends : List Char) : Prop := ∀ c ∈ ends, c.isAlphanum = false ∧ c ∉ ['_', '.', '+', '-']

theorem endNumbers_wordStops : EndNumbers wordStops := by
  simp [EndNumbers, wordStops, stops, Char.isAlphanum, Char.isAlpha, Char.isUpper, Char.isLower,
    Char.isDigit]

namespace EndNumbers
variable {ends : List Char} (h : EndNumbers ends)
include h

theorem not_isDigitOf {radix : Nat} (hradix : radix ∈ radices) : ∀ c ∈ ends, isDigitOf radix c = false := by
  intro c hc
  have hnone := (h c hc).1
  by_contra hdigit
  rw [isAlphanum_of_isDigitOf radix hradix c (Bool.eq_true_of_not_eq_false hdigit)] at hnone
  cases hnone

theorem not_mem {c : Char} (hc : c.isAlphanum = true ∨ c ∈ ['_', '.', '+', '-']) : c ∉ ends := by
  intro hmem
  obtain ⟨hplain, hmark⟩ := h c hmem
  rcases hc with hc | hc
  · rw [hc] at hplain
    cases hplain
  · exact hmark hc

end EndNumbers

theorem radixMark?_mem {mark : Char} {radix : Nat} (h : radixMark? mark = some radix) :
    radix ∈ radices := by
  unfold radixMark? at h
  split at h <;> cases h <;> decide

section Numbers
variable {ends : List Char} (hends : EndNumbers ends) (h : Halts ends back)
include hends h

theorem digitRun_append {radix : Nat} (hradix : radix ∈ radices) (started : Bool)
    (taken : List Char) :
    digitRun radix started (front ++ back) taken = digitRun radix started front taken := by
  induction front generalizing started taken with
  | nil =>
    cases back with
    | nil => rfl
    | cons c back =>
      have hdigit := hends.not_isDigitOf hradix c (h c rfl)
      have hbar : c ≠ '_' := by
        rintro rfl
        exact absurd (h '_' rfl) (hends.not_mem (.inr (by decide)))
      simp [digitRun, hdigit, hbar]
  | cons c front ih =>
    rw [List.cons_append, digitRun, digitRun, ih, ih,
      head?_any_append h (hends.not_isDigitOf hradix)]

theorem digits_append {radix : Nat} (hradix : radix ∈ radices) :
    digits radix (front ++ back) = digits radix front :=
  digitRun_append hends h hradix false []

theorem bigSuffix_append : bigSuffix (front ++ back) = bigSuffix front := by
  have hcons (c : Char) (cs : List Char) : bigSuffix (c :: cs) = if c = 'n' then ['n'] else [] := by
    by_cases hc : c = 'n'
    · rw [hc]
      rfl
    · simp [bigSuffix, hc]
  cases front with
  | nil =>
    cases back with
    | nil => rfl
    | cons c back =>
      have hsuffix : c ≠ 'n' := by
        rintro rfl
        exact absurd (h 'n' rfl) (hends.not_mem (.inl (by decide)))
      rw [List.nil_append, hcons, if_neg hsuffix]
      rfl
  | cons c front => rw [List.cons_append, hcons, hcons]

omit hends h in
theorem fraction_cons (c : Char) (cs : List Char) : fraction (c :: cs) =
    if c = '.' && !cs.head?.any (· = '.') then '.' :: digits 10 cs else [] := by
  by_cases hc : c = '.'
  · subst hc
    cases cs with
    | nil => rfl
    | cons d cs =>
      by_cases hd : d = '.'
      · subst hd
        rfl
      · simp [fraction, hd]
  · simp [fraction, hc]

theorem fraction_append : fraction (front ++ back) = fraction front := by
  have hpoint : ∀ c ∈ ends, decide (c = '.') = false := by
    intro c hc
    rw [decide_eq_false_iff_not]
    rintro rfl
    exact hends.not_mem (.inr (by decide)) hc
  cases front with
  | nil =>
    cases back with
    | nil => rfl
    | cons c back =>
      rw [List.nil_append, fraction_cons, hpoint c (h c rfl)]
      rfl
  | cons c front =>
    rw [List.cons_append, fraction_cons, fraction_cons, head?_any_append h hpoint,
      digits_append hends h (by decide)]

theorem exponent_append : exponent (front ++ back) = exponent front := by
  cases front with
  | nil =>
    cases back with
    | nil => rfl
    | cons c back =>
      have hmarks : c ≠ 'e' ∧ c ≠ 'E' := by
        constructor <;> rintro rfl <;> exact absurd (h _ rfl) (hends.not_mem (by decide))
      simp [exponent, hmarks]
  | cons c front =>
    -- A sign is looked for in the first character only.
    have hsign : ((front ++ back).take 1).filter (fun c => c = '+' || c = '-') =
        (front.take 1).filter fun c => c = '+' || c = '-' := by
      cases front with
      | nil =>
        cases back with
        | nil => rfl
        | cons d back =>
          have hsigns : d ≠ '+' ∧ d ≠ '-' := by
            constructor <;> rintro rfl <;> exact absurd (h _ rfl) (hends.not_mem (by decide))
          simp [hsigns]
      | cons d front => rfl
    have hdrop := drop_append_of_prefix (filter_take_one_isPrefix (fun c => c = '+' || c = '-') front)
      back
    simp only [List.cons_append, exponent, hsign, hdrop, digits_append hends h (by decide : 10 ∈ radices)]

theorem decimal_append : decimal (front ++ back) = decimal front := by
  have hwhole : digits 10 (front ++ back) = digits 10 front := digits_append hends h (by decide)
  have hpart := drop_append_of_prefix (digits_isPrefix 10 front) back
  have hpower := drop_append_of_prefix (fraction_isPrefix (front.drop (digits 10 front).length)) back
  simp only [decimal, hwhole, hpart, fraction_append hends h, hpower, exponent_append hends h,
    bigSuffix_append hends h]

omit hends h in
theorem ofNumber_cons (c mark : Char) (cs : List Char) : ofNumber (c :: mark :: cs) =
    match (if c = '0' then radixMark? mark else none) with
    | some radix =>
      let ds := digits radix cs
      let suffix := bigSuffix (cs.drop ds.length)
      .number ('0' :: mark :: ds ++ suffix) (if ds.isEmpty then some radix else none)
    | none => .number (decimal (c :: mark :: cs)) none := by
  by_cases hc : c = '0'
  · subst hc
    rfl
  · simp [ofNumber, hc]

theorem ofNumber_append (hne : front ≠ []) : ofNumber (front ++ back) = ofNumber front := by
  have hdecimal : decimal (front ++ back) = decimal front := decimal_append hends h
  obtain ⟨c, front, rfl⟩ := List.exists_cons_of_ne_nil hne
  cases front with
  | nil =>
    have hsingle : ofNumber [c] = .number (decimal [c]) none := by simp [ofNumber]
    cases back with
    | nil => rfl
    | cons mark back =>
      have hmark : radixMark? mark = none := by
        cases hradix : radixMark? mark with
        | none => rfl
        | some radix =>
          have hmark : mark.isAlphanum = true := by
            unfold radixMark? at hradix
            split at hradix <;> first | rfl | cases hradix
          exact absurd (h mark rfl) (hends.not_mem (.inl hmark))
      rw [hsingle, ← hdecimal, List.cons_append, List.nil_append, ofNumber_cons, hmark, ite_self]
  | cons mark front =>
    rw [List.cons_append, List.cons_append, ofNumber_cons, ofNumber_cons]
    by_cases hc : c = '0'
    · rw [if_pos hc]
      cases hradix : radixMark? mark with
      | none => exact congrArg (Lexeme.number · none) hdecimal
      | some radix =>
        have hdrop := drop_append_of_prefix (digits_isPrefix radix front) back
        simp only [digits_append hends h (radixMark?_mem hradix), hdrop, bigSuffix_append hends h]
    · rw [if_neg hc]
      exact congrArg (Lexeme.number · none) hdecimal

end Numbers

/-! ### Words and symbols -/

theorem ofWord_append (h : Halts wordStops back) : ofWord (front ++ back) = ofWord front := by
  have hpart : ∀ c ∈ wordStops, isIdentifierPart c = false := by
    simp [wordStops, stops, isIdentifierPart, Char.isAlphanum, Char.isAlpha, Char.isUpper, Char.isLower,
      Char.isDigit]
  simp only [ofWord, takeWhile_append_of_halts h hpart]

/-- Characters that no symbol goes on with. -/
structure EndSymbols (ends : List Char) : Prop where
  tail : ∀ entry ∈ symbolTable, ∀ c ∈ entry.1.tail, c ∉ ends
  digit : ∀ c ∈ ends, c.isDigit = false

theorem endSymbols_stops : EndSymbols stops := by
  have hall : symbolTable.all (fun entry => entry.1.tail.all (!stops.contains ·)) = true := by
    decide +kernel
  exact ⟨by simpa using hall, by simp [stops, Char.isDigit]⟩

section Symbols
variable {ends : List Char} (hends : EndSymbols ends) (h : Halts ends back)
include hends h

theorem find?_symbolTable_append (hne : front ≠ []) :
    symbolTable.find? (fun entry => entry.1.isPrefixOf (front ++ back)) =
      symbolTable.find? fun entry => entry.1.isPrefixOf front := by
  obtain ⟨c, front, rfl⟩ := List.exists_cons_of_ne_nil hne
  have htable := hends.tail
  generalize symbolTable = table at htable
  induction table with
  | nil => rfl
  | cons entry table ih =>
    have hentry : entry.1.isPrefixOf (c :: front ++ back) = entry.1.isPrefixOf (c :: front) := by
      have htail := htable entry (List.mem_cons_self ..)
      cases hspelling : entry.1 with
      | nil => rfl
      | cons d spelling =>
        rw [hspelling, List.tail_cons] at htail
        rw [List.cons_append, List.isPrefixOf, List.isPrefixOf, isPrefixOf_append_of_halts h htail]
    rw [List.find?_cons, List.find?_cons, hentry,
      ih fun entry h => htable entry (List.mem_cons_of_mem _ h)]

theorem digitAhead_append (hne : front ≠ []) :
    digitAhead (front ++ back) = digitAhead front := by
  by_cases hpoint : ∃ rest, front = '?' :: '.' :: rest
  · obtain ⟨rest, rfl⟩ := hpoint
    rw [List.cons_append, List.cons_append, digitAhead_point, digitAhead_point]
    exact head?_any_append h hends.digit
  · rw [digitAhead_eq_false hpoint, digitAhead_eq_false]
    rintro ⟨rest, hsplit⟩
    obtain ⟨c, front, rfl⟩ := List.exists_cons_of_ne_nil hne
    obtain ⟨rfl, hrest⟩ := List.cons.inj hsplit
    cases front with
    | nil =>
      have hpoint : (['.', '.'], Lexeme.punctuation .dotDot) ∈ symbolTable := by decide +kernel
      exact absurd (h '.' (by rw [show back = _ from hrest]; rfl)) (hends.tail _ hpoint '.' (by decide))
    | cons d front =>
      obtain ⟨rfl, _⟩ := List.cons.inj hrest
      exact hpoint ⟨front, rfl⟩

theorem ofSymbol?_append (hne : front ≠ []) : ofSymbol? (front ++ back) = ofSymbol? front := by
  have hsame := digitAhead_append hends h hne
  cases hopens : digitAhead front with
  | true => rw [ofSymbol?_question hopens, ofSymbol?_question (hsame.trans hopens)]
  | false =>
    rw [ofSymbol?_eq_longest hopens, ofSymbol?_eq_longest (hsame.trans hopens)]
    exact congrArg (Option.map (·.2)) (find?_symbolTable_append hends h hne)

end Symbols

/-! ### Up to the end of a line -/

section Lines
variable (h : Halts lineEnds back)
include h

theorem ofLineComment_append (kind : CommentKind) :
    ofLineComment kind (front ++ back) = ofLineComment kind front := by
  have hend : ∀ c ∈ lineEnds, (!isLineTerminator c) = false := by simp [lineEnds, isLineTerminator]
  rw [ofLineComment, ofLineComment, takeWhile_append_of_halts h hend]

omit h in
/-- One step in the body of a regular expression, but for escapes. -/
theorem regexBody_cons {c : Char} {cs : List Char} (hescape : c = '\\' → cs = []) (inClass : Bool)
    (taken : List Char) : regexBody inClass (c :: cs) taken =
      if isLineTerminator c then (taken.reverse, false)
      else if c = '/' && !inClass then (taken.reverse, true)
      else regexBody (if c = '[' then true else if c = ']' then false else inClass) cs
        (c :: taken) := by
  by_cases hc : c = '\\'
  · subst hc
    rw [hescape rfl]
    rfl
  · simp [regexBody, hc]

theorem regexBody_append (inClass : Bool) (taken : List Char) :
    regexBody inClass (front ++ back) taken = regexBody inClass front taken := by
  -- Where the front is over, so is the expression.
  have hover (inClass : Bool) (taken : List Char) : regexBody inClass back taken =
      (taken.reverse, false) := by
    cases back with
    | nil => rfl
    | cons c back =>
      have hends : ∀ c ∈ lineEnds, isLineTerminator c = true ∧ c ≠ '\\' := by
        simp [lineEnds, isLineTerminator]
      obtain ⟨hend, hplain⟩ := hends c (h c rfl)
      rw [regexBody_cons fun hc => absurd hc hplain, if_pos hend]
  fun_induction regexBody inClass front taken with
  | case1 inClass taken => exact hover inClass taken
  | case2 inClass d cs taken hd =>
    rw [List.cons_append, List.cons_append, regexBody, if_pos hd]
  | case3 inClass d cs taken hd ih =>
    rw [List.cons_append, List.cons_append, regexBody, if_neg hd, ih]
  | case4 inClass c cs taken hescape hc =>
    have hplain : c ≠ '\\' := by
      rintro rfl
      exact absurd hc (by decide)
    rw [List.cons_append, regexBody_cons fun hc => absurd hc hplain, if_pos hc]
  | case5 inClass c cs taken hescape hc hslash =>
    have hplain : c ≠ '\\' := by
      rintro rfl
      simp at hslash
    rw [List.cons_append, regexBody_cons fun hc => absurd hc hplain, if_neg hc, if_pos hslash]
  | case6 inClass c cs taken hescape hc hslash ih =>
    by_cases hplain : c = '\\'
    · -- A backslash at the end of the front escapes nothing, and the expression is over behind it.
      subst hplain
      have hnone : cs = [] := by
        cases cs with
        | nil => rfl
        | cons d cs => exact (hescape d cs rfl rfl).elim
      subst hnone
      cases back with
      | nil => rw [List.append_nil, regexBody_cons fun _ => rfl, if_neg hc, if_neg hslash]
      | cons e back =>
        have hends : ∀ c ∈ lineEnds, isLineTerminator c = true := by
          simp [lineEnds, isLineTerminator]
        show regexBody inClass ('\\' :: e :: back) taken = (('\\' :: taken).reverse, false)
        simp [regexBody, hends e (h e rfl)]
    · rw [List.cons_append, regexBody_cons fun hc => absurd hc hplain, if_neg hc, if_neg hslash, ih]

theorem ofRegex_append : ofRegex (front ++ back) = ofRegex front := by
  have hlower : ∀ c ∈ lineEnds, c.isLower = false := by simp [lineEnds, Char.isLower]
  obtain ⟨pattern, heq, hprefix⟩ := regexBody_eq false front []
  rw [List.reverse_nil, List.nil_append] at heq
  have hbody : regexBody false (front ++ back) [] = regexBody false front [] :=
    regexBody_append h false []
  unfold ofRegex
  rw [hbody]
  generalize regexBody false front [] = body at heq hprefix
  obtain ⟨pattern', closed⟩ := body
  cases heq
  cases closed with
  | false => rfl
  | true =>
    have hprefix : pattern' ++ ['/'] <+: front := hprefix
    have hdrop := drop_append_of_prefix hprefix back
    rw [List.length_append, List.length_singleton] at hdrop
    simp only [if_true, hdrop, takeWhile_append_of_halts h hlower]

omit h in
theorem ofSlash_eq (operandEnd : Bool) (cs : List Char) : ofSlash operandEnd cs =
    if cs.head? = some '/' then ofLineComment .line ('/' :: cs)
    else if cs.head? = some '*' then ofBlockComment cs.tail
    else if operandEnd then (ofSymbol? ('/' :: cs)).getD (.operator .divide) else ofRegex cs := by
  unfold ofSlash
  split
  · rfl
  · rfl
  · rename_i hline hblock
    have hline' : cs.head? ≠ some '/' := fun hhead =>
      (List.head?_eq_some_iff.mp hhead).elim fun rest hrest => hline rest hrest
    have hblock' : cs.head? ≠ some '*' := fun hhead =>
      (List.head?_eq_some_iff.mp hhead).elim fun rest hrest => hblock rest hrest
    rw [if_neg hline', if_neg hblock']

theorem ofSlash_append (operandEnd : Bool) (hblock : front.head? ≠ some '*') :
    ofSlash operandEnd (front ++ back) = ofSlash operandEnd front := by
  have hends : ∀ c ∈ lineEnds, c ≠ '/' ∧ c ≠ '*' := by simp [lineEnds]
  have hsymbol : ofSymbol? ('/' :: front ++ back) = ofSymbol? ('/' :: front) :=
    ofSymbol?_append endSymbols_stops h.of_lineEnds (List.cons_ne_nil _ _)
  have hother {cs : List Char} (hslash : cs.head? ≠ some '/') (hstar : cs.head? ≠ some '*') :
      ofSlash operandEnd cs =
        if operandEnd then (ofSymbol? ('/' :: cs)).getD (.operator .divide) else ofRegex cs := by
    rw [ofSlash_eq, if_neg hslash, if_neg hstar]
  cases front with
  | nil =>
    have hslash : back.head? ≠ some '/' := fun hc => (hends _ (h _ hc)).1 rfl
    have hstar : back.head? ≠ some '*' := fun hc => (hends _ (h _ hc)).2 rfl
    have hregex : ofRegex ([] ++ back) = ofRegex [] := ofRegex_append h
    rw [List.nil_append, hother hslash hstar, hother (by simp) (by simp)]
    rw [show ofSymbol? ('/' :: back) = ofSymbol? ['/'] from hsymbol,
      show ofRegex back = ofRegex [] from hregex]
  | cons c front =>
    by_cases hc : c = '/'
    · subst hc
      exact (ofLineComment_append h .line : ofLineComment .line ('/' :: '/' :: front ++ back) = _)
    · have hslash (cs : List Char) : (c :: cs).head? ≠ some '/' := by simpa using hc
      have hstar (cs : List Char) : (c :: cs).head? ≠ some '*' := hblock
      rw [hother (hslash _) (hstar _), List.cons_append, hother (hslash _) (hstar _),
        ← List.cons_append, ofRegex_append h]
      exact congrArg (fun l => if operandEnd then Option.getD l _ else _) hsymbol

/-- What starts neither a string nor a block comment is read up to the end of the line at most. -/
theorem ofCode_append (ctx : Context) {c : Char} (hquote : quote? c = none)
    (hblock : c = '/' → front.head? ≠ some '*') : ofCode ctx c (front ++ back) = ofCode ctx c front := by
  have hdigit : ∀ c ∈ lineEnds, c.isDigit = false := by simp [lineEnds, Char.isDigit]
  have hopening (text : List Char) (htext : ∀ c ∈ text, c ∉ lineEnds) :
      text.isPrefixOf (c :: (front ++ back)) = text.isPrefixOf (c :: front) := by
    rw [← List.cons_append, isPrefixOf_append_of_halts h htext]
  have hcomment : ofLineComment .html (c :: front ++ back) = _ := ofLineComment_append h .html
  have hnumber : ofNumber (c :: front ++ back) = _ :=
    ofNumber_append endNumbers_wordStops h.of_lineEnds.of_stops (List.cons_ne_nil _ _)
  have hword : ofWord (c :: front ++ back) = _ := ofWord_append h.of_lineEnds.of_stops
  have hsymbol : ofSymbol? (c :: front ++ back) = _ :=
    ofSymbol?_append endSymbols_stops h.of_lineEnds (List.cons_ne_nil _ _)
  simp only [List.cons_append] at hcomment hnumber hword hsymbol
  simp only [ofCode, hquote, hcomment, hnumber, hword, hsymbol, head?_any_append h hdigit,
    hopening "<!--".toList (by simp [lineEnds]), hopening "-->".toList (by simp [lineEnds])]
  by_cases hslash : c = '/'
  · simp only [hslash, if_true, ofSlash_append h ctx.operandEnd (hblock hslash)]
  · simp only [hslash, if_false]

end Lines

/-- Whether a lexeme is neither a comment nor a regular expression. -/
def isPlain : Lexeme → Bool
  | comment .. | regex .. => false
  | _ => true

/-- What is neither quoted nor a comment nor a regular expression is read up to where words and symbols
stop. -/
theorem ofCode_stops {ctx : Context} {c : Char} (h : Halts stops back) (hquote : quote? c = none)
    (hplain : (ofCode ctx c front).isPlain = true) :
    ofCode ctx c (front ++ back) = ofCode ctx c front := by
  have hdigit : ∀ c ∈ stops, c.isDigit = false := by simp [stops, Char.isDigit]
  have hopening (text : List Char) (htext : ∀ c ∈ text, c ∉ stops) :
      text.isPrefixOf (c :: (front ++ back)) = text.isPrefixOf (c :: front) := by
    rw [← List.cons_append, isPrefixOf_append_of_halts h htext]
  have hnumber : ofNumber (c :: front ++ back) = _ :=
    ofNumber_append endNumbers_wordStops h.of_stops (List.cons_ne_nil _ _)
  have hword : ofWord (c :: front ++ back) = _ := ofWord_append h.of_stops
  have hsymbol : ofSymbol? (c :: front ++ back) = _ :=
    ofSymbol?_append endSymbols_stops h (List.cons_ne_nil _ _)
  simp only [List.cons_append] at hnumber hword hsymbol
  simp only [ofCode, hquote, hnumber, hword, hsymbol, head?_any_append h hdigit,
    hopening "<!--".toList (by simp [stops]), hopening "-->".toList (by simp [stops])] at hplain ⊢
  by_cases hblank : isBlank c = true
  · simp only [hblank, if_true]
  rw [Bool.not_eq_true] at hblank
  simp only [hblank, Bool.false_eq_true, if_false] at hplain ⊢
  by_cases hslash : c = '/'
  · -- Two slashes, or a slash and a star, would open a comment.
    subst hslash
    simp only [if_true, ofSlash_eq] at hplain ⊢
    have hhead {d : Char} (hd : d ∉ stops) (hfront : front.head? ≠ some d) :
        (front ++ back).head? ≠ some d := by
      cases front with
      | nil => exact fun hback => hd (h d hback)
      | cons e front => exact hfront
    by_cases hline : front.head? = some '/'
    · simp [hline, ofLineComment, isPlain] at hplain
    by_cases hblock : front.head? = some '*'
    · simp [hblock, ofBlockComment, isPlain] at hplain
    cases hoperand : ctx.operandEnd with
    | false => simp [hline, hblock, hoperand, ofRegex, isPlain] at hplain
    | true =>
      rw [if_neg hline, if_neg hblock, if_neg (hhead (by simp [stops]) hline),
        if_neg (hhead (by simp [stops]) hblock), hsymbol]
      rfl
  · simp only [hslash, if_false] at hplain ⊢
    split
    · rename_i hhtml
      rw [if_pos hhtml] at hplain
      cases hplain
    · rfl

end Scanners

end ScriptTree.Lexeme
