import Mathlib
import ScriptTree.Proofs.Token.Joining

/-! Texts cut off behind a lexeme.

What is read at the head of a text is read as well if the text is cut off behind it, unless just a point
is left there: a point may join a number or a question mark in front of it, once nothing follows. A
scanner is cut off at `front` if what it reads in `front ++ back` fits in `front`. -/
namespace ScriptTree.Lexeme

section Cut
variable {front back : List Char}

theorem takeWhile_cut {p : Char → Bool}
    (h : ((front ++ back).takeWhile p).length ≤ front.length) :
    front.takeWhile p = (front ++ back).takeWhile p := by
  rw [List.takeWhile_append] at h ⊢
  split at h
  · rename_i hall
    rw [List.length_append] at h
    have hnone : back.takeWhile p = [] := List.length_eq_zero_iff.mp (by omega)
    rw [if_pos hall, hnone, List.append_nil]
    exact (List.takeWhile_prefix p).eq_of_length hall
  · rw [if_neg ‹_›]

/-! ### Numbers -/

theorem le_length_digitRun (radix : Nat) (started : Bool) (cs taken : List Char) :
    taken.length ≤ (digitRun radix started cs taken).length := by
  obtain ⟨more, _, heq⟩ := digitRun_eq radix started cs taken
  rw [heq, List.length_append, List.length_reverse]
  exact Nat.le_add_right _ _

theorem digitRun_cut {radix : Nat} {started : Bool} {taken : List Char}
    (h : (digitRun radix started (front ++ back) taken).length ≤ taken.length + front.length) :
    digitRun radix started front taken = digitRun radix started (front ++ back) taken := by
  induction front generalizing started taken with
  | nil =>
    obtain ⟨more, _, heq⟩ := digitRun_eq radix started back taken
    rw [List.nil_append, heq, List.length_append, List.length_reverse, List.length_nil] at h
    obtain rfl : more = [] := List.length_eq_zero_iff.mp (by omega)
    rw [List.nil_append, heq, List.append_nil]
    rfl
  | cons c front ih =>
    rw [List.cons_append, digitRun] at h
    rw [List.cons_append, digitRun, digitRun]
    by_cases hdigit : isDigitOf radix c = true
    · rw [if_pos hdigit] at h
      rw [if_pos hdigit, if_pos hdigit]
      exact ih (by rw [List.length_cons] at h ⊢; omega)
    rw [if_neg hdigit] at h
    rw [if_neg hdigit, if_neg hdigit]
    cases front with
    | nil =>
      -- A separator is read only with the digit behind it, which would not fit.
      rw [List.nil_append] at h ⊢
      rw [if_neg (by simp)]
      split at h
      · rename_i hseparator
        simp only [Bool.and_eq_true] at hseparator
        cases back with
        | nil => simp at hseparator
        | cons d back =>
          rw [digitRun, if_pos (by simpa using hseparator.2)] at h
          have := le_length_digitRun radix true back (d :: c :: taken)
          simp only [List.length_cons, List.length_nil] at this h
          omega
      · rw [if_neg ‹_›]
    | cons d front =>
      rw [List.cons_append, List.head?_cons] at h ⊢
      rw [List.head?_cons]
      split at h
      · rw [if_pos ‹_›, if_pos ‹_›]
        exact ih (by simp only [List.length_cons, List.cons_append] at h ⊢; omega)
      · rw [if_neg ‹_›, if_neg ‹_›]

theorem digits_cut {radix : Nat} (h : (digits radix (front ++ back)).length ≤ front.length) :
    digits radix front = digits radix (front ++ back) :=
  digitRun_cut (by simpa [digits] using h)

theorem bigSuffix_cut (h : (bigSuffix (front ++ back)).length ≤ front.length) :
    bigSuffix front = bigSuffix (front ++ back) := by
  cases front with
  | nil => exact (List.length_eq_zero_iff.mp (by simpa using h)).symm
  | cons c front =>
    by_cases hc : c = 'n'
    · rw [hc]
      rfl
    · simp [bigSuffix, hc]

theorem fraction_cut (h : (fraction (front ++ back)).length ≤ front.length)
    (hpoint : front = ['.'] → fraction (front ++ back) ≠ []) :
    fraction front = fraction (front ++ back) := by
  cases front with
  | nil => exact (List.length_eq_zero_iff.mp (by simpa using h)).symm
  | cons c front =>
    rw [List.cons_append, fraction_cons] at h hpoint
    rw [List.cons_append, fraction_cons, fraction_cons]
    by_cases hc : c = '.'
    · subst hc
      cases front with
      | nil =>
        rw [List.nil_append] at h hpoint ⊢
        split at h
        · rename_i hahead
          have hnone : digits 10 back = [] := List.length_eq_zero_iff.mp (by simpa using h)
          rw [if_pos hahead, hnone]
          rfl
        · exact absurd (if_neg ‹_›) (hpoint rfl)
      | cons d front =>
        rw [List.cons_append, List.head?_cons] at h ⊢
        rw [List.head?_cons]
        split at h
        · rw [if_pos ‹_›, if_pos ‹_›]
          exact congrArg ('.' :: ·) (digits_cut (by simpa using h))
        · rw [if_neg ‹_›, if_neg ‹_›]
    · simp [hc]

theorem exponent_cut (h : (exponent (front ++ back)).length ≤ front.length) :
    exponent front = exponent (front ++ back) := by
  cases front with
  | nil => exact (List.length_eq_zero_iff.mp (by simpa using h)).symm
  | cons e front =>
    rw [List.cons_append, exponent] at h
    rw [List.cons_append, exponent, exponent]
    by_cases he : (decide (e = 'e') || decide (e = 'E')) = true
    · rw [if_pos he] at h
      rw [if_pos he, if_pos he]
      cases front with
      | nil =>
        rw [List.nil_append] at h ⊢
        dsimp only at h ⊢
        split at h
        · rename_i hdigits
          rw [if_pos hdigits]
          rfl
        · rename_i hdigits
          simp only [List.length_cons, List.length_append, List.length_nil] at h
          rw [List.isEmpty_iff_length_eq_zero] at hdigits
          omega
      | cons s front =>
        have hsign : (s :: front ++ back).take 1 = (s :: front).take 1 := rfl
        have hdrop := drop_append_of_prefix
          (filter_take_one_isPrefix (fun c => c = '+' || c = '-') (s :: front)) back
        rw [hsign] at h ⊢
        dsimp only at h ⊢
        rw [hdrop] at h ⊢
        have hfits := (filter_take_one_isPrefix (fun c => c = '+' || c = '-') (s :: front)).length_le
        rw [digits_cut]
        split at h
        · rename_i hdigits
          rw [List.isEmpty_iff.mp hdigits]
          exact Nat.zero_le _
        · simp only [List.length_cons, List.length_append, List.length_drop] at h hfits ⊢
          omega
    · rw [if_neg he, if_neg he]

theorem decimal_cut (h : (decimal (front ++ back)).length ≤ front.length)
    (hpoint : front ≠ decimal (front ++ back) ++ ['.']) : decimal front = decimal (front ++ back) := by
  simp only [decimal, List.length_append] at h
  have hwhole := digits_cut (show (digits 10 (front ++ back)).length ≤ front.length by omega)
  have hrest := List.prefix_iff_eq_append.mp (digits_isPrefix 10 front)
  generalize hdrop : front.drop (digits 10 front).length = rest at hrest
  have hdrop' := drop_append_of_prefix (digits_isPrefix 10 front) back
  have hlength : front.length = (digits 10 front).length + rest.length := by
    rw [← hrest, List.length_append, hrest]
  rw [hdrop] at hdrop'
  rw [← hwhole, hdrop'] at h
  have hpart := fraction_cut (show (fraction (rest ++ back)).length ≤ rest.length by omega) (by
    rintro rfl hnone
    refine hpoint ?_
    simp only [decimal, ← hwhole, hdrop', hnone]
    simpa [exponent, bigSuffix] using hrest.symm)
  have hpower := drop_append_of_prefix (fraction_isPrefix rest) back
  rw [← hpart, hpower] at h
  have hfits := (fraction_isPrefix rest).length_le
  have hexponent := exponent_cut (show (exponent (rest.drop (fraction rest).length ++ back)).length ≤
    (rest.drop (fraction rest).length).length by rw [List.length_drop]; omega)
  have hsuffix (hempty : ((fraction rest).isEmpty &&
      (exponent (rest.drop (fraction rest).length)).isEmpty) = true) :
      bigSuffix (rest.drop (fraction rest).length) =
        bigSuffix (rest.drop (fraction rest).length ++ back) := by
    refine bigSuffix_cut ?_
    rw [← hexponent, if_pos hempty] at h
    rw [List.length_drop]
    omega
  simp only [decimal, ← hwhole, hdrop, hdrop', ← hpart, hpower, ← hexponent]
  split
  · rw [hsuffix ‹_›]
  · rfl

theorem ofNumber_cut (hne : front ≠ []) (h : (ofNumber (front ++ back)).text.length ≤ front.length)
    (hpoint : front ≠ (ofNumber (front ++ back)).text ++ ['.']) :
    ofNumber front = ofNumber (front ++ back) := by
  have hdecimal {missing : Option Nat}
      (heq : ofNumber (front ++ back) = .number (decimal (front ++ back)) missing) :
      decimal front = decimal (front ++ back) := by
    rw [heq] at h hpoint
    exact decimal_cut h hpoint
  obtain ⟨c, front, rfl⟩ := List.exists_cons_of_ne_nil hne
  cases front with
  | nil =>
    have hsingle : ofNumber [c] = .number (decimal [c]) none := by simp [ofNumber]
    cases back with
    | nil => rfl
    | cons mark back =>
      rw [List.cons_append, List.nil_append, ofNumber_cons] at h hdecimal ⊢
      rw [hsingle]
      split at h
      · simp [text] at h
      · rename_i hradix
        exact congrArg (Lexeme.number · none) (hdecimal (by rw [hradix]))
  | cons mark front =>
    rw [List.cons_append, List.cons_append, ofNumber_cons] at h hdecimal ⊢
    rw [ofNumber_cons]
    split at h
    · rename_i radix hradix
      have hds := digits_cut (show (digits radix (front ++ back)).length ≤ front.length by
        simp only [text, List.length_cons, List.length_append] at h
        omega)
      have hdrop := drop_append_of_prefix (digits_isPrefix radix front) back
      dsimp only at h
      rw [← hds, hdrop] at h
      have hsuffix := bigSuffix_cut (show (bigSuffix (front.drop (digits radix front).length ++ back)).length ≤
        (front.drop (digits radix front).length).length by
          have := (digits_isPrefix radix front).length_le
          simp only [text, List.length_cons, List.length_append] at h
          rw [List.length_drop]
          omega)
      simp only [← hds, hdrop, hsuffix]
    · rename_i hradix
      exact congrArg (Lexeme.number · none) (hdecimal (by rw [hradix]))

/-- A number that begins with a point has a digit behind it. -/
theorem two_le_ofNumber {d : Char} {cs : List Char} (h : d.isDigit = true) :
    2 ≤ (ofNumber ('.' :: d :: cs)).text.length := by
  have hpoint : d ≠ '.' := by
    rintro rfl
    cases h
  have hdigits : digits 10 (d :: cs) ≠ [] := digits_ne_nil (isDigitOf_ten h)
  have hnumber : ofNumber ('.' :: d :: cs) = .number (decimal ('.' :: d :: cs)) none := rfl
  have hwhole : digits 10 ('.' :: d :: cs) = [] := rfl
  have hfraction : fraction ('.' :: d :: cs) = '.' :: digits 10 (d :: cs) := by
    simp [fraction_cons, hpoint]
  have hpos := List.length_pos_iff.mpr hdigits
  rw [hnumber, text]
  simp only [decimal, hwhole, List.length_nil, List.drop_zero, hfraction, List.length_append,
    List.length_cons]
  omega

/-! ### Words and symbols -/

theorem text_ofWord (cs : List Char) : (ofWord cs).text = cs.takeWhile isIdentifierPart := by
  unfold ofWord
  dsimp only
  split
  · rename_i word hfound
    have hspelling := List.find?_some hfound
    rw [Bool.and_eq_true, beq_iff_eq] at hspelling
    rw [text, hspelling.2, String.toList_ofList]
  · rfl

theorem ofWord_cut (h : (ofWord (front ++ back)).text.length ≤ front.length) :
    ofWord front = ofWord (front ++ back) := by
  rw [text_ofWord] at h
  rw [ofWord, ofWord, takeWhile_cut h]

/-- What stands at the head of a text that is cut off stands at the head of the whole. -/
theorem isPrefixOf_of_cut {spelling : List Char} (h : spelling.isPrefixOf front = true) :
    spelling.isPrefixOf (front ++ back) = true := by
  rw [List.isPrefixOf_iff_prefix] at h ⊢
  exact h.trans (List.prefix_append _ _)

theorem isPrefixOf_cut {spelling : List Char} (h : spelling.length ≤ front.length) :
    spelling.isPrefixOf front = spelling.isPrefixOf (front ++ back) := by
  rw [Bool.eq_iff_iff]
  refine ⟨isPrefixOf_of_cut, fun hprefix => ?_⟩
  rw [List.isPrefixOf_iff_prefix] at hprefix ⊢
  exact List.prefix_of_prefix_length_le hprefix (List.prefix_append _ _) h

theorem find?_cut {table : List (List Char × Lexeme)}
    (h : ∀ entry, table.find? (fun entry => entry.1.isPrefixOf (front ++ back)) = some entry →
      entry.1.length ≤ front.length) :
    table.find? (fun entry => entry.1.isPrefixOf front) =
      table.find? fun entry => entry.1.isPrefixOf (front ++ back) := by
  induction table with
  | nil => rfl
  | cons entry table ih =>
    rw [List.find?_cons] at h
    rw [List.find?_cons, List.find?_cons]
    cases hwhole : entry.1.isPrefixOf (front ++ back) with
    | true =>
      rw [hwhole] at h
      rw [isPrefixOf_cut (h entry rfl), hwhole]
    | false =>
      rw [hwhole] at h
      have hcut : entry.1.isPrefixOf front = false := by
        by_contra hcut
        rw [isPrefixOf_of_cut (Bool.eq_true_of_not_eq_false hcut)] at hwhole
        cases hwhole
      rw [hcut]
      exact ih h

theorem digitAhead_of_cut (h : digitAhead front = true) : digitAhead (front ++ back) = true := by
  obtain ⟨rest, rfl⟩ := exists_of_digitAhead h
  rw [digitAhead_point] at h
  rw [List.cons_append, List.cons_append, digitAhead_point]
  cases rest with
  | nil => cases h
  | cons d rest => exact h

theorem ofSymbol?_cut (hne : front ≠ []) (h : ∀ l, ofSymbol? (front ++ back) = some l →
    l.text.length ≤ front.length ∧ front ≠ l.text ++ ['.']) :
    ofSymbol? front = ofSymbol? (front ++ back) := by
  cases hopens : digitAhead (front ++ back) with
  | true =>
    rw [ofSymbol?_question hopens] at h ⊢
    obtain ⟨rest, hsplit⟩ := exists_of_digitAhead hopens
    obtain ⟨c, front, rfl⟩ := List.exists_cons_of_ne_nil hne
    obtain ⟨rfl, hrest⟩ := List.cons.inj hsplit
    cases front with
    | nil => rfl
    | cons d front =>
      obtain ⟨rfl, rfl⟩ := List.cons.inj hrest
      cases front with
      | nil => exact absurd rfl (h _ rfl).2
      | cons d front => exact ofSymbol?_question hopens
  | false =>
    have hcut : digitAhead front = false := by
      refine Bool.eq_false_of_not_eq_true fun hcut => ?_
      rw [digitAhead_of_cut hcut] at hopens
      cases hopens
    rw [ofSymbol?_eq_longest hopens] at h ⊢
    rw [ofSymbol?_eq_longest hcut]
    refine congrArg (Option.map (·.2)) (find?_cut fun entry hentry => ?_)
    rw [(mem_symbolTable (List.mem_of_find?_eq_some hentry)).1]
    exact (h entry.2 (by rw [longestSymbol?, hentry]; rfl)).1

/-! ### Code -/

/-- What is neither quoted nor a comment nor a regular expression is read as well if the text is cut
off behind it. -/
theorem ofCode_cut {ctx : Context} {c : Char} (hquote : quote? c = none)
    (hplain : (ofCode ctx c (front ++ back)).isPlain = true)
    (h : (ofCode ctx c (front ++ back)).text.length ≤ (c :: front).length)
    (hpoint : c :: front ≠ (ofCode ctx c (front ++ back)).text ++ ['.']) :
    ofCode ctx c front = ofCode ctx c (front ++ back) := by
  have hhead {d : Char} (hne : (front ++ back).head? ≠ some d) : front.head? ≠ some d := by
    cases front with
    | nil => simp
    | cons e front => exact hne
  simp only [ofCode, hquote] at hplain h hpoint ⊢
  by_cases hblank : isBlank c = true
  · rw [if_pos hblank, if_pos hblank]
  rw [if_neg hblank] at hplain h hpoint
  rw [if_neg hblank, if_neg hblank]
  by_cases hslash : c = '/'
  · subst hslash
    rw [if_pos rfl, ofSlash_eq] at hplain h hpoint
    rw [if_pos rfl, if_pos rfl, ofSlash_eq, ofSlash_eq]
    by_cases hline : (front ++ back).head? = some '/'
    · rw [if_pos hline] at hplain
      cases hplain
    rw [if_neg hline] at hplain h hpoint
    by_cases hblock : (front ++ back).head? = some '*'
    · rw [if_pos hblock] at hplain
      cases hplain
    rw [if_neg hblock] at hplain h hpoint
    rw [if_neg hline, if_neg hblock, if_neg (hhead hline), if_neg (hhead hblock)]
    cases hoperand : ctx.operandEnd with
    | false =>
      rw [hoperand, if_neg Bool.false_ne_true, ofRegex] at hplain
      cases hplain
    | true =>
      rw [hoperand, if_pos rfl] at h hpoint
      rw [if_pos rfl, if_pos rfl]
      refine congrArg (Option.getD · _) (ofSymbol?_cut (List.cons_ne_nil _ _) fun l hl => ?_)
      rw [← List.cons_append] at h hpoint
      rw [hl] at h hpoint
      exact ⟨h, hpoint⟩
  rw [if_neg hslash] at hplain h hpoint
  rw [if_neg hslash, if_neg hslash]
  have hhtml : ¬("<!--".toList.isPrefixOf (c :: (front ++ back)) ||
      (ctx.lineStart && "-->".toList.isPrefixOf (c :: (front ++ back)))) = true := by
    intro hhtml
    rw [if_pos hhtml] at hplain
    cases hplain
  have hhtml' : ¬("<!--".toList.isPrefixOf (c :: front) ||
      (ctx.lineStart && "-->".toList.isPrefixOf (c :: front))) = true := by
    refine fun hcut => hhtml ?_
    simp only [Bool.or_eq_true, Bool.and_eq_true] at hcut ⊢
    exact hcut.imp isPrefixOf_of_cut (And.imp_right isPrefixOf_of_cut)
  rw [if_neg hhtml] at hplain h hpoint
  rw [if_neg hhtml, if_neg hhtml']
  by_cases hnumber : (c.isDigit || (decide (c = '.') && (front ++ back).head?.any Char.isDigit)) = true
  · rw [if_pos hnumber, ← List.cons_append] at h hpoint
    have hnumber' : (c.isDigit || (decide (c = '.') && front.head?.any Char.isDigit)) = true := by
      cases front with
      | cons d front => exact hnumber
      | nil =>
        simp only [List.nil_append, Bool.or_eq_true, Bool.and_eq_true, decide_eq_true_eq] at hnumber ⊢
        rcases hnumber with hdigit | ⟨rfl, hdigit⟩
        · exact .inl hdigit
        · cases back with
          | nil => cases hdigit
          | cons d back => exact absurd (two_le_ofNumber hdigit) (by simpa using h)
    rw [if_pos hnumber, if_pos hnumber', ← List.cons_append]
    exact ofNumber_cut (List.cons_ne_nil _ _) h hpoint
  have hnumber' : ¬(c.isDigit || (decide (c = '.') && front.head?.any Char.isDigit)) = true := by
    cases front with
    | cons d front => exact hnumber
    | nil =>
      refine fun hdigit => hnumber ?_
      simpa using .inl (by simpa using hdigit)
  rw [if_neg hnumber, ← List.cons_append] at h hpoint
  rw [if_neg hnumber, if_neg hnumber', ← List.cons_append]
  by_cases hword : isIdentifierStart c = true
  · rw [if_pos hword] at h
    rw [if_pos hword, if_pos hword]
    exact ofWord_cut h
  rw [if_neg hword] at h hpoint
  rw [if_neg hword, if_neg hword]
  refine congrArg (Option.getD · _) (ofSymbol?_cut (List.cons_ne_nil _ _) fun l hl => ?_)
  rw [hl] at h hpoint
  exact ⟨h, hpoint⟩

end Cut

/-! ### Other texts behind a lexeme -/

section Exchange
variable {front rest rest' : List Char} {ctx : Context} {c : Char} {start : Nat}

theorem isPlain_getD_symbol {cs : List Char} {other : Lexeme} (hother : other.isPlain = true) :
    ((ofSymbol? cs).getD other).isPlain = true := by
  have hall : ∀ l ∈ symbols, l.isPlain = true := by decide
  cases h : ofSymbol? cs with
  | none => exact hother
  | some l => exact hall l (mem_symbols h)

theorem isPlain_ofNumber (cs : List Char) : (ofNumber cs).isPlain = true := by
  unfold ofNumber
  split
  · split <;> rfl
  · rfl

theorem isPlain_ofWord (cs : List Char) : (ofWord cs).isPlain = true := by
  unfold ofWord
  dsimp only
  split <;> rfl

theorem ofRegex_closed (h : (ofRegex front).problems start = []) :
    (regexBody false front []).2 = true := by
  rw [ofRegex] at h
  cases hclosed : (regexBody false front []).2 with
  | true => rfl
  | false =>
    dsimp only at h
    rw [hclosed] at h
    cases h

/-- A comment or a regular expression in which nothing is amiss is read alike in front of texts that
begin alike, and a regular expression in front of any text that adds no flag. -/
theorem ofSlash_unplain {operandEnd : Bool}
    (hplain : (ofSlash operandEnd (front ++ rest)).isPlain = false)
    (htext : (ofSlash operandEnd (front ++ rest)).text = '/' :: front)
    (hclean : (ofSlash operandEnd (front ++ rest)).problems start = [])
    (hhead : rest'.head? = rest.head? ∨
      (∀ kind body closed, ofSlash operandEnd (front ++ rest) ≠ .comment kind body closed) ∧
        rest'.head?.any Char.isLower = false) :
    ofSlash operandEnd (front ++ rest') = ofSlash operandEnd (front ++ rest) := by
  have hsame {kind : CommentKind} {body : List Char} {closed : Bool}
      (hcomment : ofSlash operandEnd (front ++ rest) = .comment kind body closed) :
      rest'.head? = rest.head? := hhead.resolve_right fun h => h.1 _ _ _ hcomment
  have hnonempty : front ≠ [] := by
    -- The text would be a slash and nothing else.
    rintro rfl
    rw [List.nil_append, ofSlash_eq] at hplain htext hclean
    split at htext
    · obtain ⟨cs, rfl⟩ := List.head?_eq_some_iff.mp ‹_›
      simp [ofLineComment, text, isLineTerminator] at htext
    rw [if_neg ‹_›] at hplain hclean
    split at htext
    · simp [ofBlockComment, text] at htext
    rw [if_neg ‹_›] at hplain hclean
    split at htext
    · rw [if_pos ‹_›, isPlain_getD_symbol rfl] at hplain
      cases hplain
    · rw [if_neg ‹_›] at hclean
      have hclosed := ofRegex_closed hclean
      simp [ofRegex, text, hclosed] at htext
  obtain ⟨d, front, rfl⟩ := List.exists_cons_of_ne_nil hnonempty
  have hahead (cs : List Char) : (d :: front ++ cs).head? = some d := rfl
  rw [ofSlash_eq, hahead] at hplain htext hclean hsame hhead
  rw [ofSlash_eq, ofSlash_eq, hahead, hahead]
  by_cases hline : some d = some '/'
  · rw [if_pos hline] at htext hsame
    rw [if_pos hline, if_pos hline]
    exact @ofLineComment_of_front ('/' :: d :: front) _ _ _ htext (hsame rfl)
  rw [if_neg hline] at hplain htext hclean hsame hhead
  rw [if_neg hline, if_neg hline]
  by_cases hblock : some d = some '*'
  · rw [if_pos hblock] at htext hsame
    rw [if_pos hblock, if_pos hblock]
    cases hblock
    exact ofBlockComment_of_front htext (.inl (hsame rfl))
  rw [if_neg hblock] at hplain htext hclean hhead
  rw [if_neg hblock, if_neg hblock]
  cases operandEnd with
  | true =>
    rw [if_pos rfl, isPlain_getD_symbol rfl] at hplain
    cases hplain
  | false => exact ofRegex_of_front htext (hhead.imp_right fun h => ⟨ofRegex_closed hclean, h.2⟩)

theorem ofCode_unplain (hquote : quote? c = none)
    (hplain : (ofCode ctx c (front ++ rest)).isPlain = false)
    (htext : (ofCode ctx c (front ++ rest)).text = c :: front)
    (hclean : (ofCode ctx c (front ++ rest)).problems start = [])
    (hhead : rest'.head? = rest.head? ∨
      (∀ kind body closed, ofCode ctx c (front ++ rest) ≠ .comment kind body closed) ∧
        rest'.head?.any Char.isLower = false) :
    ofCode ctx c (front ++ rest') = ofCode ctx c (front ++ rest) := by
  simp only [ofCode, hquote] at hplain htext hclean hhead ⊢
  by_cases hblank : isBlank c = true
  · rw [if_pos hblank] at hplain
    cases hplain
  rw [if_neg hblank] at hplain htext hclean hhead
  rw [if_neg hblank, if_neg hblank]
  by_cases hslash : c = '/'
  · subst hslash
    rw [if_pos rfl] at hplain htext hclean hhead
    rw [if_pos rfl, if_pos rfl]
    exact ofSlash_unplain hplain htext hclean hhead
  rw [if_neg hslash] at hplain htext hclean hhead
  rw [if_neg hslash, if_neg hslash]
  by_cases hhtml : ("<!--".toList.isPrefixOf (c :: (front ++ rest)) ||
      (ctx.lineStart && "-->".toList.isPrefixOf (c :: (front ++ rest)))) = true
  · rw [if_pos hhtml] at htext hhead
    rw [if_pos hhtml]
    have hmark {mark : List Char} (hmark : mark.isPrefixOf (c :: (front ++ rest)) = true)
        (hline : ∀ d ∈ mark, isLineTerminator d = false) :
        mark.isPrefixOf (c :: (front ++ rest')) = true := by
      rw [List.isPrefixOf_iff_prefix] at hmark ⊢
      obtain ⟨more, hmore⟩ := hmark
      have hfront : (c :: (front ++ rest)).takeWhile (!isLineTerminator ·) = c :: front := htext
      rw [← hmore, List.takeWhile_append_of_pos (by simpa using hline)] at hfront
      rw [← List.cons_append, ← hfront, List.append_assoc]
      exact List.prefix_append _ _
    rw [if_pos]
    · exact @ofLineComment_of_front (c :: front) _ _ _ htext
        (hhead.resolve_right fun h => h.1 _ _ _ rfl)
    · simp only [Bool.or_eq_true, Bool.and_eq_true] at hhtml ⊢
      exact hhtml.imp (hmark · (by simp [isLineTerminator]))
        (And.imp_right (hmark · (by simp [isLineTerminator])))
  rw [if_neg hhtml] at hplain
  split at hplain
  · rw [isPlain_ofNumber] at hplain
    cases hplain
  split at hplain
  · rw [isPlain_ofWord] at hplain
    cases hplain
  · rw [isPlain_getD_symbol rfl] at hplain
    cases hplain

/-- What is read as code is read alike if the text changes behind a lexeme further on, or behind the
lexeme itself if that is a token. Just a point that is left may not join it. -/
theorem ofCode_exchange (behind : List Char) {back more : List Char}
    (htext : (ofCode ctx c (front ++ (behind ++ back))).text = c :: front)
    (hclean : (ofCode ctx c (front ++ (behind ++ back))).problems start = [])
    (hmore : Halts stops more) (hpoint : behind ≠ ['.'])
    (hlast : behind = [] → ∀ kind body closed,
      ofCode ctx c (front ++ (behind ++ back)) ≠ .comment kind body closed) :
    ofCode ctx c (front ++ (behind ++ more)) = ofCode ctx c (front ++ (behind ++ back)) := by
  cases hquote : quote? c with
  | some mark =>
    have hclosed := isClosed_of_problems hclean
    rw [ofCode_quote hquote] at htext hclosed
    rw [ofCode_quote hquote, ofCode_quote hquote]
    exact ofString_of_front hquote htext (.inr hclosed)
  | none =>
    cases hplain : (ofCode ctx c (front ++ (behind ++ back))).isPlain with
    | true =>
      rw [← List.append_assoc] at hplain htext ⊢
      have hcut := ofCode_cut hquote hplain (by
        rw [htext]
        simp) (by
        rw [htext, ← List.cons_append]
        exact fun h => hpoint (List.append_cancel_left h))
      rw [← List.append_assoc, ← hcut]
      exact ofCode_stops hmore hquote (hcut ▸ hplain)
    | false =>
      refine ofCode_unplain hquote hplain htext hclean ?_
      cases behind with
      | cons d behind => exact .inl rfl
      | nil =>
        exact .inr ⟨hlast rfl, hmore.head_any (by simp [stops, Char.isLower])⟩

/-- What is read at the head of a text is read alike if the text changes behind a lexeme further on, or
behind the lexeme itself if that is a token that does not lead into template text. -/
theorem first_exchange {behind back more : List Char}
    (htext : (first ctx c (front ++ (behind ++ back))).text = c :: front)
    (hclean : (first ctx c (front ++ (behind ++ back))).problems start = [])
    (hmore : Halts stops more) (hpoint : behind ≠ ['.']) (hdollar : behind ≠ ['$'])
    (hlast : behind = [] →
      (first ctx c (front ++ (behind ++ back))).tokenKind? start ≠ none ∧
        ¬Nesting.InTemplate (ctx.after (first ctx c (front ++ (behind ++ back)))).modes) :
    first ctx c (front ++ (behind ++ more)) = first ctx c (front ++ (behind ++ back)) := by
  by_cases hmode : ∃ modes, ctx.modes = .template :: modes
  · obtain ⟨modes, hmode⟩ := hmode
    have hfirst (cs : List Char) : first ctx c cs = ofTemplate c cs := by rw [first, hmode]
    simp only [hfirst] at htext hlast ⊢
    cases behind with
    | cons d behind =>
      refine ofTemplate_of_front htext rfl fun hhead => ?_
      obtain rfl : d = '$' := by simpa using hhead
      cases behind with
      | nil => exact absurd rfl hdollar
      | cons e behind => rfl
    | nil =>
      -- Only a mark leads out of template text.
      obtain ⟨_, hout⟩ := hlast rfl
      have hinside {l : Lexeme} (h : ofTemplate c (front ++ ([] ++ back)) = l)
          (hmark : ∀ mark, l ≠ .punctuation mark) : False := by
        rw [h] at hout
        refine hout ?_
        show (Context.modesAfter ctx.modes l).head? = _
        rw [Context.modesAfter_of_plain hmark, hmode]
        rfl
      rcases ofTemplate_cases c (front ++ ([] ++ back)) with h | h | ⟨_, _, h⟩ | ⟨_, h⟩
      · rw [h] at htext
        obtain ⟨rfl, rfl⟩ : '\x60' = c ∧ [] = front := List.cons.inj htext
        rfl
      · rw [h] at htext
        obtain ⟨rfl, rfl⟩ : '$' = c ∧ ['\x7b'] = front := List.cons.inj htext
        rfl
      · exact (hinside h (by simp)).elim
      · exact (hinside h (by simp)).elim
  · have hcode : ∀ modes, ctx.modes ≠ .template :: modes := fun modes h => hmode ⟨modes, h⟩
    simp only [first_code hcode] at htext hclean hlast ⊢
    refine ofCode_exchange _ htext hclean hmore hpoint fun hbehind kind body closed hcomment => ?_
    rw [hcomment] at hlast
    exact (hlast hbehind).1 rfl

end Exchange

end ScriptTree.Lexeme
