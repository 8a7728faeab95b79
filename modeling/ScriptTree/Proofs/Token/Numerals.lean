import Mathlib
import ScriptTree.Proofs.Token.Origins

/-! Numbers are read as long as they go.

`IsNumber` is the grammar of numbers, written down without the scanner: digits with single low lines
between them, a fraction, an exponent, an integer in another base. At a number of a source stands the
longest text of this grammar, but for a point that belongs to a range; and only a mark of a base without
digits is reported, alone and once (`lex_numbers`). -/
namespace ScriptTree

/-! ### The grammar of numbers -/

/-- The digits of a base up to sixteen. -/
def digitsOf (radix : Nat) : List Char :=
  ['0', '1', '2', '3', '4', '5', '6', '7', '8', '9', 'a', 'b', 'c', 'd', 'e', 'f'].take radix ++
    ['0', '1', '2', '3', '4', '5', '6', '7', '8', '9', 'A', 'B', 'C', 'D', 'E', 'F'].take radix

/-- What stands behind a zero to give a base. -/
def radixMarks : List (Char × Nat) :=
  [('x', 16), ('X', 16), ('o', 8), ('O', 8), ('b', 2), ('B', 2)]

/-- Digits, two of which may have a low line between them. -/
inductive IsDigits (radix : Nat) : List Char → Prop
  | one {d} (digit : d ∈ digitsOf radix) : IsDigits radix [d]
  | more {d ds} (digit : d ∈ digitsOf radix) (rest : IsDigits radix ds) : IsDigits radix (d :: ds)
  | separated {d ds} (digit : d ∈ digitsOf radix) (rest : IsDigits radix ds) :
      IsDigits radix (d :: '_' :: ds)

inductive IsExponent : List Char → Prop
  | plain {mark ds} (mark_mem : mark ∈ ['e', 'E']) (digits : IsDigits 10 ds) : IsExponent (mark :: ds)
  | signed {mark sign ds} (mark_mem : mark ∈ ['e', 'E']) (sign_mem : sign ∈ ['+', '-'])
      (digits : IsDigits 10 ds) : IsExponent (mark :: sign :: ds)

inductive IsNumber : List Char → Prop
  | based {mark radix ds suffix} (mark_mem : (mark, radix) ∈ radixMarks) (digits : IsDigits radix ds)
      (suffix_mem : suffix ∈ [[], ['n']]) : IsNumber ('0' :: mark :: (ds ++ suffix))
  | integer {ds suffix} (digits : IsDigits 10 ds) (suffix_mem : suffix ∈ [[], ['n']]) :
      IsNumber (ds ++ suffix)
  | scaled {ds power} (digits : IsDigits 10 ds) (exponent : IsExponent power) : IsNumber (ds ++ power)
  | pointed {ds part power} (digits : IsDigits 10 ds) (fraction : part = [] ∨ IsDigits 10 part)
      (exponent : power = [] ∨ IsExponent power) : IsNumber (ds ++ '.' :: (part ++ power))
  | fraction {part power} (digits : IsDigits 10 part) (exponent : power = [] ∨ IsExponent power) :
      IsNumber ('.' :: (part ++ power))

/-- Whether a number at the head of a text is digits and the first point of a range. -/
def OpensRange (number cs : List Char) : Prop :=
  ∃ ds rest, IsDigits 10 ds ∧ number = ds ++ ['.'] ∧ cs = number ++ '.' :: rest

/-- Whether a text opens with the mark of a base that no digit of the base follows. -/
structure LacksDigits (mark : Char) (radix : Nat) (behind cs : List Char) : Prop where
  known : (mark, radix) ∈ radixMarks
  ahead : cs = '0' :: mark :: behind
  lacks : ∀ d ∈ behind.head?, d ∉ digitsOf radix

namespace Lexeme

/-! ### Digits -/

theorem radix_mem {mark : Char} {radix : Nat} (h : (mark, radix) ∈ radixMarks) : radix ∈ radices := by
  have hall : ∀ entry ∈ radixMarks, entry.2 ∈ radices := by decide
  exact hall _ h

theorem mem_digitsOf_of_code : ∀ radix ∈ radices, ∀ n ∈ List.range 103,
    isDigitOf radix (Char.ofNat n) = true → Char.ofNat n ∈ digitsOf radix := by
  decide +kernel

theorem all_isDigitOf : ∀ radix ∈ radices, (digitsOf radix).all (isDigitOf radix) = true := by
  decide +kernel

theorem isDigitOf_iff {radix : Nat} (hradix : radix ∈ radices) {c : Char} :
    isDigitOf radix c = true ↔ c ∈ digitsOf radix := by
  refine ⟨fun h => ?_, List.all_eq_true.mp (all_isDigitOf radix hradix) c⟩
  have hbound : c.toNat < 103 := by
    simp only [radices, List.mem_cons, List.not_mem_nil, or_false] at hradix
    rcases hradix with rfl | rfl | rfl | rfl <;>
    · simp only [isDigitOf, Char.isDigit, Char.le_def, UInt32.le_iff_toNat_le] at h
      simp at h
      omega
  rw [← Char.ofNat_toNat c] at h ⊢
  exact mem_digitsOf_of_code radix hradix _ (List.mem_range.mpr hbound) h

theorem digitRun_taken (radix : Nat) (started : Bool) (cs taken : List Char) :
    digitRun radix started cs taken = taken.reverse ++ digitRun radix started cs [] := by
  induction cs generalizing started taken with
  | nil => simp [digitRun]
  | cons c cs ih =>
    rw [digitRun, digitRun]
    split
    · rw [ih true (c :: taken), ih true [c]]
      simp
    · split
      · rw [ih started (c :: taken), ih started [c]]
        simp
      · simp

/-- What goes on with a number behind one of its digits. -/
def moreDigits (radix : Nat) (cs : List Char) : List Char := digitRun radix true cs []

section Digits
variable {radix : Nat} (hradix : radix ∈ radices)
include hradix

theorem moreDigits_digit {d : Char} (hd : d ∈ digitsOf radix) (cs : List Char) :
    moreDigits radix (d :: cs) = d :: moreDigits radix cs := by
  rw [moreDigits, digitRun, if_pos ((isDigitOf_iff hradix).mpr hd), digitRun_taken]
  rfl

theorem not_mem_digitsOf_bar : '_' ∉ digitsOf radix := by
  have hall : ∀ radix ∈ radices, '_' ∉ digitsOf radix := by decide +kernel
  exact hall radix hradix

theorem moreDigits_bar {d : Char} (hd : d ∈ digitsOf radix) (cs : List Char) :
    moreDigits radix ('_' :: d :: cs) = '_' :: d :: moreDigits radix cs := by
  have hbar : isDigitOf radix '_' ≠ true :=
    mt (isDigitOf_iff hradix).mp (not_mem_digitsOf_bar hradix)
  have hnext := (isDigitOf_iff hradix).mpr hd
  rw [moreDigits, digitRun, if_neg hbar, if_pos (by simp [hnext]), digitRun_taken]
  exact congrArg ('_' :: ·) (moreDigits_digit hradix hd cs)

theorem moreDigits_stop {cs : List Char} (h : ∀ c ∈ cs.head?, c ∉ digitsOf radix ∧ c ≠ '_') :
    moreDigits radix cs = [] := by
  cases cs with
  | nil => rfl
  | cons c cs =>
    obtain ⟨hdigit, hbar⟩ := h c rfl
    rw [moreDigits, digitRun, if_neg (mt (isDigitOf_iff hradix).mp hdigit), if_neg (by simp [hbar])]
    rfl

theorem digits_digit {d : Char} (hd : d ∈ digitsOf radix) (cs : List Char) :
    digits radix (d :: cs) = d :: moreDigits radix cs := by
  rw [digits, digitRun, if_pos ((isDigitOf_iff hradix).mpr hd), digitRun_taken]
  rfl

theorem digits_stop {cs : List Char} (h : ∀ c ∈ cs.head?, c ∉ digitsOf radix) : digits radix cs = [] := by
  cases cs with
  | nil => rfl
  | cons c cs =>
    rw [digits, digitRun, if_neg (mt (isDigitOf_iff hradix).mp (h c rfl)), if_neg (by simp)]
    rfl

/-- Digits are read to their end, and whatever goes on with them. -/
theorem digits_append_of_isDigits {ds : List Char} (h : IsDigits radix ds) (rest : List Char) :
    digits radix (ds ++ rest) = ds ++ moreDigits radix rest := by
  have hmore : ∀ ds, IsDigits radix ds →
      moreDigits radix (ds ++ rest) = ds ++ moreDigits radix rest := by
    intro ds h
    induction h with
    | one digit => exact moreDigits_digit hradix digit rest
    | more digit _ ih => rw [List.cons_append, moreDigits_digit hradix digit, ih, List.cons_append]
    | separated digit hds ih =>
      rw [List.cons_append, List.cons_append, moreDigits_digit hradix digit, List.cons_append,
        List.cons_append, ← ih]
      cases hds with
      | one digit | more digit | separated digit => 
        simp only [List.cons_append, List.nil_append, moreDigits_bar hradix digit,
          moreDigits_digit hradix digit]
  cases h with
  | one digit => exact digits_digit hradix digit rest
  | more digit hds => rw [List.cons_append, digits_digit hradix digit, hmore _ hds, List.cons_append]
  | separated digit hds =>
    rw [← hmore _ (.separated digit hds), List.cons_append, digits_digit hradix digit,
      moreDigits_digit hradix digit]

theorem isDigits_moreDigits {d : Char} (hd : d ∈ digitsOf radix) (cs : List Char) :
    IsDigits radix (d :: moreDigits radix cs) := by
  induction cs generalizing d with
  | nil => exact .one hd
  | cons c cs ih =>
    by_cases hdigit : c ∈ digitsOf radix
    · rw [moreDigits_digit hradix hdigit]
      exact .more hd (ih hdigit)
    by_cases hbar : c = '_' ∧ ∃ e rest, cs = e :: rest ∧ e ∈ digitsOf radix
    · obtain ⟨rfl, e, rest, rfl, he⟩ := hbar
      -- What stands behind the low line was read behind the digit as well.
      have hboth := ih hd
      rw [moreDigits_digit hradix he] at hboth
      rw [moreDigits_bar hradix he]
      cases hboth with
      | more _ hrest => exact .separated hd hrest
      | separated => exact absurd he (not_mem_digitsOf_bar hradix)
    · have hnone : moreDigits radix (c :: cs) = [] := by
        rw [moreDigits, digitRun, if_neg (mt (isDigitOf_iff hradix).mp hdigit), if_neg ?_]
        · rfl
        · cases cs with
          | nil => simp
          | cons e rest =>
            simp only [Bool.and_true, List.head?_cons, Option.any_some, Bool.and_eq_true,
              decide_eq_true_eq, isDigitOf_iff hradix]
            exact fun h => hbar ⟨h.1, e, rest, rfl, h.2⟩
      rw [hnone]
      exact .one hd

/-- What is read as digits is digits. -/
theorem isDigits_digits {cs : List Char} (h : digits radix cs ≠ []) : IsDigits radix (digits radix cs) := by
  cases cs with
  | nil => exact absurd rfl h
  | cons c cs =>
    by_cases hdigit : c ∈ digitsOf radix
    · rw [digits_digit hradix hdigit]
      exact isDigits_moreDigits hradix hdigit cs
    · exact absurd (digits_stop hradix (by simpa using hdigit)) h

end Digits

/-- Neither an exponent nor the suffix of an integer goes on with digits. -/
theorem exponentMark_stops : ∀ mark ∈ ['e', 'E'], mark ∉ digitsOf 10 ∧ mark ≠ '_' ∧ mark ≠ '.' := by
  simp [digitsOf]

/-! ### Exponents and fractions -/

theorem isExponent_head {power : List Char} (h : IsExponent power) (rest : List Char) :
    ∃ mark ∈ ['e', 'E'], ∃ more, power ++ rest = mark :: more := by
  cases h with
  | plain mark_mem _ => exact ⟨_, mark_mem, _, rfl⟩
  | signed mark_mem _ _ => exact ⟨_, mark_mem, _, rfl⟩

theorem isDigits_head {radix : Nat} {ds : List Char} (h : IsDigits radix ds) :
    ∃ d ∈ digitsOf radix, ∃ more, ds = d :: more := by
  cases h with
  | one digit | more digit | separated digit => exact ⟨_, digit, _, rfl⟩

theorem exponent_mark {mark : Char} (h : mark ∈ ['e', 'E']) (cs : List Char) : exponent (mark :: cs) =
    let sign := (cs.take 1).filter fun c => c = '+' || c = '-'
    let ds := digits 10 (cs.drop sign.length)
    if ds.isEmpty then [] else mark :: sign ++ ds := by
  have hmark : (mark = 'e' || mark = 'E') = true := by simpa using h
  rw [exponent, if_pos hmark]

theorem exponent_other {cs : List Char} (h : ∀ c ∈ cs.head?, c ∉ ['e', 'E']) : exponent cs = [] := by
  cases cs with
  | nil => rfl
  | cons c cs =>
    have hmark : ¬(c = 'e' || c = 'E') = true := by simpa using h c rfl
    rw [exponent, if_neg hmark]

/-- An exponent is read to its end, and whatever goes on with its digits. -/
theorem exponent_append_of_isExponent {power : List Char} (h : IsExponent power) (rest : List Char) :
    exponent (power ++ rest) = power ++ moreDigits 10 rest := by
  have hsigns : ∀ d ∈ digitsOf 10, ¬(d = '+' || d = '-') = true := by simp [digitsOf]
  have hten : 10 ∈ radices := by decide
  have hsome {ds : List Char} (hds : IsDigits 10 ds) :
      (ds ++ moreDigits 10 rest).isEmpty = false := by
    obtain ⟨d, _, more, rfl⟩ := isDigits_head hds
    rfl
  cases h with
  | plain mark_mem hds =>
    rename_i mark ds
    have hsign : ((ds ++ rest).take 1).filter (fun c => c = '+' || c = '-') = [] := by
      obtain ⟨d, hd, more, rfl⟩ := isDigits_head hds
      exact List.filter_cons_of_neg (hsigns d hd)
    rw [List.cons_append, exponent_mark mark_mem, hsign]
    dsimp only
    rw [List.length_nil, List.drop_zero, digits_append_of_isDigits hten hds, hsome hds]
    rfl
  | signed mark_mem sign_mem hds =>
    rename_i mark sign ds
    have hsign : ((sign :: (ds ++ rest)).take 1).filter (fun c => c = '+' || c = '-') = [sign] :=
      List.filter_cons_of_pos (by simpa using sign_mem)
    rw [List.cons_append, List.cons_append, exponent_mark mark_mem, hsign]
    dsimp only
    rw [List.length_singleton, List.drop_one, List.tail_cons, digits_append_of_isDigits hten hds, hsome hds]
    rfl

/-- What is read as an exponent is one. -/
theorem isExponent_exponent {cs : List Char} (h : exponent cs ≠ []) : IsExponent (exponent cs) := by
  cases cs with
  | nil => exact absurd rfl h
  | cons mark cs =>
    by_cases hmark : mark ∈ ['e', 'E']
    swap
    · exact absurd (exponent_other (by simpa using hmark)) h
    rw [exponent_mark hmark] at h ⊢
    dsimp only at h ⊢
    split at h
    · exact absurd rfl h
    rename_i hsome
    rw [if_neg hsome]
    have hdigits := isDigits_digits (by decide) (mt List.isEmpty_iff.mpr hsome)
    cases cs with
    | nil => exact absurd rfl hsome
    | cons sign cs =>
      rw [List.take_succ_cons, List.take_zero] at hdigits ⊢
      by_cases hsign : (sign = '+' || sign = '-') = true
      · rw [List.filter_cons_of_pos (by exact hsign)] at hdigits ⊢
        exact .signed hmark (by simpa using hsign) hdigits
      · rw [List.filter_cons_of_neg (by exact hsign)] at hdigits ⊢
        exact .plain hmark hdigits

theorem fraction_point {cs : List Char} (h : cs.head? ≠ some '.') :
    fraction ('.' :: cs) = '.' :: digits 10 cs := by
  rw [fraction_cons]
  cases cs with
  | nil => rfl
  | cons c cs =>
    have hc : c ≠ '.' := fun hc => h (congrArg some hc)
    simp [hc]

theorem fraction_other {cs : List Char} (h : cs.head? ≠ some '.') : fraction cs = [] := by
  cases cs with
  | nil => rfl
  | cons c cs =>
    have hc : c ≠ '.' := fun hc => h (congrArg some hc)
    simp [fraction_cons, hc]

/-- A fraction is read where a point stands that opens no range. -/
theorem fraction_cases (cs : List Char) : fraction cs = [] ∨
    ∃ behind, cs = '.' :: behind ∧ behind.head? ≠ some '.' := by
  cases cs with
  | nil => exact .inl rfl
  | cons c cs =>
    by_cases h : c = '.' ∧ cs.head? ≠ some '.'
    · exact .inr ⟨cs, by rw [h.1], h.2⟩
    · refine .inl ?_
      rw [fraction_cons, if_neg]
      cases cs with
      | nil => simpa using h
      | cons d cs => simpa using h

/-! ### Decimal numbers -/

section Decimal
variable {whole part more rest : List Char}

/-- A number without a fraction. -/
theorem decimal_plain (hwhole : digits 10 (whole ++ more) = whole) (hpart : fraction more = []) :
    decimal (whole ++ more) =
      whole ++ (exponent more ++ if (exponent more).isEmpty then bigSuffix more else []) := by
  simp [decimal, hwhole, hpart]

/-- A number with a fraction. -/
theorem decimal_pointed (hwhole : digits 10 (whole ++ '.' :: (part ++ rest)) = whole)
    (hpoint : (part ++ rest).head? ≠ some '.') (hpart : digits 10 (part ++ rest) = part) :
    decimal (whole ++ '.' :: (part ++ rest)) = whole ++ '.' :: (part ++ exponent rest) := by
  simp [decimal, hwhole, fraction_point hpoint, hpart]

theorem fraction_isPrefix_decimal (hwhole : digits 10 (whole ++ more) = whole) :
    whole ++ fraction more <+: decimal (whole ++ more) := by
  simp only [decimal, hwhole, List.drop_left, List.append_assoc]
  exact (List.prefix_append_right_inj whole).mpr (List.prefix_append _ _)

theorem digits_stop_point (cs : List Char) : digits 10 ('.' :: cs) = [] := by
  refine digits_stop (by decide) ?_
  simp [digitsOf]

theorem digits_append_of_stops {ds : List Char} (h : IsDigits 10 ds)
    (hrest : ∀ c ∈ rest.head?, c ∉ digitsOf 10 ∧ c ≠ '_') : digits 10 (ds ++ rest) = ds := by
  rw [digits_append_of_isDigits (by decide) h, moreDigits_stop (by decide) hrest, List.append_nil]

/-- A number with a point is read to its end. -/
theorem pointed_isPrefix_decimal {power : List Char}
    (hwhole : digits 10 (whole ++ '.' :: (part ++ (power ++ rest))) = whole)
    (hpart : part = [] ∨ IsDigits 10 part) (hpower : power = [] ∨ IsExponent power)
    (hpoint : (part ++ (power ++ rest)).head? ≠ some '.') :
    whole ++ '.' :: (part ++ power) <+: decimal (whole ++ '.' :: (part ++ (power ++ rest))) := by
  rcases hpower with rfl | hpower
  · have hfraction := fraction_isPrefix_decimal hwhole
    rw [fraction_point hpoint] at hfraction
    refine List.IsPrefix.trans ?_ hfraction
    refine (List.prefix_append_right_inj whole).mpr ((List.prefix_cons_inj '.').mpr ?_)
    rw [List.append_nil, List.nil_append]
    rcases hpart with rfl | hpart
    · exact List.nil_prefix
    · rw [digits_append_of_isDigits (by decide) hpart]
      exact List.prefix_append _ _
  · obtain ⟨mark, hmark, more, hhead⟩ := isExponent_head hpower rest
    have hstops := exponentMark_stops mark hmark
    have hdigits : digits 10 (part ++ (power ++ rest)) = part := by
      rcases hpart with rfl | hpart
      · exact digits_stop (by decide) (by simpa [hhead] using hstops.1)
      · exact digits_append_of_stops hpart (by simpa [hhead] using ⟨hstops.1, hstops.2.1⟩)
    rw [decimal_pointed hwhole hpoint hdigits, exponent_append_of_isExponent hpower]
    refine (List.prefix_append_right_inj whole).mpr ((List.prefix_cons_inj '.').mpr ?_)
    exact (List.prefix_append_right_inj part).mpr (List.prefix_append _ _)

/-- Any number without the mark of a base is read to its end, if no range starts in it. -/
theorem isPrefix_decimal {number : List Char} (h : IsNumber number)
    (hbase : ∀ mark radix behind, (mark, radix) ∈ radixMarks → number ≠ '0' :: mark :: behind)
    (hrange : ¬OpensRange number (number ++ rest)) : number <+: decimal (number ++ rest) := by
  cases h with
  | based mark_mem _ _ => exact absurd rfl (hbase _ _ _ mark_mem)
  | @integer ds suffix hds suffix_mem =>
    simp only [List.mem_cons, List.not_mem_nil, or_false] at suffix_mem
    rcases suffix_mem with rfl | rfl
    · have hdigits := digits_append_of_isDigits (by decide) hds rest
      have hwhole : digits 10 (ds ++ rest) <+: decimal (ds ++ rest) := by
        simp only [decimal, List.append_assoc]
        exact List.prefix_append _ _
      rw [List.append_nil]
      exact (hdigits ▸ List.prefix_append _ _ :).trans hwhole
    · have hwhole : digits 10 (ds ++ 'n' :: rest) = ds :=
        digits_append_of_stops hds (by simp [digitsOf])
      have hpower : exponent ('n' :: rest) = [] := exponent_other (by simp)
      rw [List.append_assoc, List.singleton_append,
        decimal_plain hwhole (fraction_other (by simp)), hpower]
      exact List.prefix_rfl
  | @scaled ds power hds hpower =>
    obtain ⟨mark, hmark, more, hhead⟩ := isExponent_head hpower rest
    have hstops := exponentMark_stops mark hmark
    have hwhole : digits 10 (ds ++ (power ++ rest)) = ds :=
      digits_append_of_stops hds (by simpa [hhead] using ⟨hstops.1, hstops.2.1⟩)
    have hpart : fraction (power ++ rest) = [] := fraction_other (by simpa [hhead] using hstops.2.2)
    rw [List.append_assoc, decimal_plain hwhole hpart, exponent_append_of_isExponent hpower,
      List.append_assoc]
    exact (List.prefix_append_right_inj ds).mpr (List.prefix_append _ _)
  | @pointed ds part power hds hpart hpower =>
    have hwhole : digits 10 (ds ++ '.' :: (part ++ (power ++ rest))) = ds :=
      digits_append_of_stops hds (by simp [digitsOf])
    have hpoint : (part ++ (power ++ rest)).head? ≠ some '.' := by
      rcases hpart with rfl | hpart
      · rcases hpower with rfl | hpower
        · intro hhead
          obtain ⟨behind, rfl⟩ := List.head?_eq_some_iff.mp hhead
          exact hrange ⟨ds, behind, hds, rfl, by simp⟩
        · obtain ⟨mark, hmark, more, hhead⟩ := isExponent_head hpower rest
          simpa [hhead] using (exponentMark_stops mark hmark).2.2
      · obtain ⟨d, hd, more, rfl⟩ := isDigits_head hpart
        rintro ⟨⟩
        simp [digitsOf] at hd
    have := pointed_isPrefix_decimal hwhole hpart hpower hpoint
    simpa using this
  | @fraction part power hpart hpower =>
    have hpoint : (part ++ (power ++ rest)).head? ≠ some '.' := by
      obtain ⟨d, hd, more, rfl⟩ := isDigits_head hpart
      rintro ⟨⟩
      simp [digitsOf] at hd
    have := @pointed_isPrefix_decimal [] part rest power (digits_stop_point _) (.inr hpart) hpower hpoint
    simpa using this

theorem bigSuffix_mem (cs : List Char) : bigSuffix cs ∈ [[], ['n']] := by
  unfold bigSuffix
  split <;> simp

/-- What is read as a decimal number is one. -/
theorem isNumber_decimal {c : Char} {cs : List Char} (h : opensNumber c cs = true) :
    IsNumber (decimal (c :: cs)) := by
  obtain ⟨more, hsplit⟩ := digits_isPrefix 10 (c :: cs)
  -- A text that opens with no digit opens with a point and a digit.
  have hpoint (hnone : digits 10 (c :: cs) = []) :
      c = '.' ∧ ∃ d ∈ digitsOf 10, ∃ behind, cs = d :: behind := by
    rw [opensNumber, Bool.or_eq_true] at h
    rcases h with h | h
    · exact absurd hnone (digits_ne_nil (isDigitOf_ten h))
    · rw [Bool.and_eq_true, decide_eq_true_eq] at h
      obtain ⟨rfl, hhead⟩ := h
      cases cs with
      | nil => cases hhead
      | cons d cs => exact ⟨rfl, d, (isDigitOf_iff (by decide)).mp (isDigitOf_ten hhead), cs, rfl⟩
  have hexponent (cs : List Char) : exponent cs = [] ∨ IsExponent (exponent cs) := by
    by_cases hnone : exponent cs = []
    · exact .inl hnone
    · exact .inr (isExponent_exponent hnone)
  generalize hwhole : digits 10 (c :: cs) = whole at hsplit hpoint
  have hdigits : whole ≠ [] → IsDigits 10 whole := by
    subst hwhole
    exact isDigits_digits (by decide)
  rw [← hsplit] at hwhole ⊢
  rcases fraction_cases more with hpart | ⟨behind, rfl, hbehind⟩
  · have hsome : whole ≠ [] := by
      intro hnone
      obtain ⟨rfl, d, hd, behind, rfl⟩ := hpoint hnone
      rw [hnone, List.nil_append] at hsplit
      rw [hsplit, fraction_point] at hpart
      · cases hpart
      · rintro ⟨⟩
        simp [digitsOf] at hd
    rw [decimal_plain hwhole hpart]
    rcases hexponent more with hnone | hpower
    · rw [hnone]
      exact .integer (hdigits hsome) (bigSuffix_mem more)
    · rw [if_neg (by obtain ⟨_, _, _, hhead⟩ := isExponent_head hpower []; simp_all), List.append_nil]
      exact .scaled (hdigits hsome) hpower
  · obtain ⟨rest, hrest⟩ := digits_isPrefix 10 behind
    generalize hpart : digits 10 behind = part at hrest
    subst hrest
    rw [decimal_pointed hwhole hbehind hpart]
    by_cases hsome : whole = []
    · obtain ⟨rfl, d, hd, behind, rfl⟩ := hpoint hsome
      rw [hsome, List.nil_append] at hsplit ⊢
      rw [(List.cons.inj hsplit).2, digits_digit (by decide) hd] at hpart
      refine .fraction ?_ (hexponent rest)
      rw [← hpart]
      exact isDigits_moreDigits (by decide) hd behind
    · refine .pointed (hdigits hsome) ?_ (hexponent rest)
      by_cases hnone : part = []
      · exact .inl hnone
      · rw [← hpart] at hnone ⊢
        exact .inr (isDigits_digits (by decide) hnone)

/-- The point of a range is not read with a number. -/
theorem not_opensRange_decimal (cs : List Char) : ¬OpensRange (decimal cs) cs := by
  rintro ⟨ds, rest, hds, htext, hcs⟩
  rw [htext, List.append_assoc, List.singleton_append] at hcs
  have hwhole : digits 10 (ds ++ '.' :: '.' :: rest) = ds :=
    digits_append_of_stops hds (by simp [digitsOf])
  have hpower : exponent ('.' :: '.' :: rest) = [] := exponent_other (by simp)
  rw [hcs, decimal_plain hwhole rfl, hpower] at htext
  simp [bigSuffix] at htext

end Decimal

/-! ### Numbers in other bases -/

theorem radixMark?_iff {mark : Char} {radix : Nat} :
    radixMark? mark = some radix ↔ (mark, radix) ∈ radixMarks := by
  constructor
  · intro h
    unfold radixMark? at h
    split at h <;> cases h <;> decide
  · simp only [radixMarks, List.mem_cons, Prod.mk.injEq, List.not_mem_nil, or_false]
    rintro (⟨rfl, rfl⟩ | ⟨rfl, rfl⟩ | ⟨rfl, rfl⟩ | ⟨rfl, rfl⟩ | ⟨rfl, rfl⟩ | ⟨rfl, rfl⟩) <;> rfl

theorem ofNumber_based {mark : Char} {radix : Nat} (h : (mark, radix) ∈ radixMarks) (cs : List Char) :
    ofNumber ('0' :: mark :: cs) =
      .number ('0' :: mark :: digits radix cs ++ bigSuffix (cs.drop (digits radix cs).length))
        (if (digits radix cs).isEmpty then some radix else none) := by
  rw [ofNumber_cons, if_pos rfl, radixMark?_iff.mpr h]

theorem ofNumber_decimal {c : Char} {cs : List Char}
    (h : ∀ mark radix behind, (mark, radix) ∈ radixMarks → c :: cs ≠ '0' :: mark :: behind) :
    ofNumber (c :: cs) = .number (decimal (c :: cs)) none := by
  cases cs with
  | nil => simp [ofNumber]
  | cons mark cs =>
    rw [ofNumber_cons]
    split
    · rename_i radix hradix
      split at hradix
      · rename_i hzero
        subst hzero
        exact absurd rfl (h mark radix cs (radixMark?_iff.mp hradix))
      · cases hradix
    · rfl

/-- The characters of numbers that are written without the mark of a base. -/
def decimalChars : List Char := digitsOf 10 ++ ['_', '.', 'e', 'E', '+', '-', 'n']

theorem not_mem_decimalChars {mark : Char} {radix : Nat} (h : (mark, radix) ∈ radixMarks) :
    mark ∉ decimalChars := by
  have hall : radixMarks.all (fun entry => !decimalChars.contains entry.1) = true := by decide +kernel
  simpa using List.all_eq_true.mp hall _ h

theorem isDigits_subset {ds : List Char} (h : IsDigits 10 ds) : ds ⊆ decimalChars := by
  induction h with
  | one digit => exact List.cons_subset.mpr ⟨List.mem_append_left _ digit, List.nil_subset _⟩
  | more digit _ ih => exact List.cons_subset.mpr ⟨List.mem_append_left _ digit, ih⟩
  | separated digit _ ih =>
    exact List.cons_subset.mpr ⟨List.mem_append_left _ digit,
      List.cons_subset.mpr ⟨by simp [decimalChars], ih⟩⟩

theorem isExponent_subset {power : List Char} (h : power = [] ∨ IsExponent power) :
    power ⊆ decimalChars := by
  have hmarks : ['e', 'E', '+', '-'] ⊆ decimalChars := by simp [decimalChars]
  rcases h with rfl | ⟨mark_mem, digits⟩ | ⟨mark_mem, sign_mem, digits⟩
  · exact List.nil_subset _
  · exact List.cons_subset.mpr ⟨hmarks (List.mem_append_left ['+', '-'] mark_mem),
      isDigits_subset digits⟩
  · exact List.cons_subset.mpr ⟨hmarks (List.mem_append_left ['+', '-'] mark_mem),
      List.cons_subset.mpr ⟨hmarks (List.mem_append_right ['e', 'E'] sign_mem),
        isDigits_subset digits⟩⟩

/-- A number has the mark of a base behind its zero, or no such mark anywhere. -/
theorem isNumber_cases {number : List Char} (h : IsNumber number) :
    (∃ mark radix ds suffix, (mark, radix) ∈ radixMarks ∧ IsDigits radix ds ∧ suffix ∈ [[], ['n']] ∧
      number = '0' :: mark :: (ds ++ suffix)) ∨ number ⊆ decimalChars := by
  have hpoint : '.' ∈ decimalChars := by simp [decimalChars]
  have hdigits {ds : List Char} (h : ds = [] ∨ IsDigits 10 ds) : ds ⊆ decimalChars := by
    rcases h with rfl | h
    · exact List.nil_subset _
    · exact isDigits_subset h
  cases h with
  | based mark_mem digits suffix_mem => exact .inl ⟨_, _, _, _, mark_mem, digits, suffix_mem, rfl⟩
  | integer digits suffix_mem =>
    refine .inr (List.append_subset.mpr ⟨isDigits_subset digits, ?_⟩)
    simp only [List.mem_cons, List.not_mem_nil, or_false] at suffix_mem
    rcases suffix_mem with rfl | rfl <;> simp [decimalChars]
  | scaled digits exponent =>
    exact .inr (List.append_subset.mpr ⟨isDigits_subset digits, isExponent_subset (.inr exponent)⟩)
  | pointed digits fraction exponent =>
    exact .inr (List.append_subset.mpr ⟨isDigits_subset digits, List.cons_subset.mpr ⟨hpoint,
      List.append_subset.mpr ⟨hdigits fraction, isExponent_subset exponent⟩⟩⟩)
  | fraction digits exponent =>
    exact .inr (List.cons_subset.mpr ⟨hpoint,
      List.append_subset.mpr ⟨isDigits_subset digits, isExponent_subset exponent⟩⟩)

section Based
variable {mark : Char} {radix : Nat} {cs : List Char}

theorem digits_append_suffix {ds suffix rest : List Char} (h : (mark, radix) ∈ radixMarks)
    (hds : IsDigits radix ds) (hsuffix : suffix ∈ [[], ['n']]) :
    ds ++ suffix <+: digits radix (ds ++ (suffix ++ rest)) ++
      bigSuffix ((ds ++ (suffix ++ rest)).drop (digits radix (ds ++ (suffix ++ rest))).length) := by
  simp only [List.mem_cons, List.not_mem_nil, or_false] at hsuffix
  rw [digits_append_of_isDigits (radix_mem h) hds]
  rcases hsuffix with rfl | rfl
  · rw [List.append_nil, List.append_assoc]
    exact List.prefix_append _ _
  · have hstops : ∀ radix ∈ radices, 'n' ∉ digitsOf radix := by decide +kernel
    rw [moreDigits_stop (radix_mem h) (by simpa using hstops radix (radix_mem h)), List.append_nil,
      List.drop_left]
    exact List.prefix_rfl

/-- Behind the mark of a base with a digit, the number is read to its end. -/
theorem longest_based (h : (mark, radix) ∈ radixMarks) (hsome : digits radix cs ≠ []) :
    IsLongestFront (fun text => IsNumber text ∧ ¬OpensRange text ('0' :: mark :: cs))
      ('0' :: mark :: (digits radix cs ++ bigSuffix (cs.drop (digits radix cs).length)))
      ('0' :: mark :: cs) := by
  refine ⟨⟨.based h (isDigits_digits (radix_mem h) hsome) (bigSuffix_mem _), ?_⟩, ?_, ?_⟩
  · rintro ⟨ds, rest, hds, htext, -⟩
    -- The mark would have to be one of the decimal digits in front of the point.
    have hmem : mark ∈ ds ++ ['.'] := htext ▸ List.mem_cons_of_mem _ List.mem_cons_self
    have hpoint : '.' ∈ decimalChars := by simp [decimalChars]
    rcases List.mem_append.mp hmem with hmem | hmem
    · exact not_mem_decimalChars h (isDigits_subset hds hmem)
    · exact not_mem_decimalChars h (List.mem_singleton.mp hmem ▸ hpoint)
  · exact (List.prefix_append_right_inj ['0', mark]).mpr
      (append_isPrefix (digits_isPrefix radix cs) (bigSuffix_isPrefix _))
  · rintro other ⟨hother, -⟩ ⟨rest, hrest⟩
    rcases isNumber_cases hother with ⟨mark', radix', ds, suffix, h', hds, hsuffix, rfl⟩ | hsubset
    · simp only [List.cons_append, List.cons.injEq, true_and] at hrest
      obtain ⟨rfl, hcs⟩ := hrest
      obtain rfl : radix' = radix :=
        Option.some.inj ((radixMark?_iff.mpr h').symm.trans (radixMark?_iff.mpr h))
      rw [List.append_assoc] at hcs
      have := (hcs ▸ digits_append_suffix h hds hsuffix :).length_le
      simpa using this
    · cases other with
      | nil => exact Nat.zero_le _
      | cons c other =>
        cases other with
        | nil => simp
        | cons d other =>
          obtain rfl : d = mark := (List.cons.inj (List.cons.inj hrest).2).1
          exact absurd (hsubset (by simp)) (not_mem_decimalChars h)

/-- A mark of a base without a digit is read alone, with the suffix of an integer. -/
theorem ofNumber_bare {behind : List Char} (h : LacksDigits mark radix behind cs) :
    ofNumber cs =
      .number ('0' :: mark :: if behind.head? = some 'n' then ['n'] else []) (some radix) := by
  obtain ⟨hmark, rfl, hlacks⟩ := h
  rw [ofNumber_based hmark, digits_stop (radix_mem hmark) hlacks]
  simp only [List.length_nil, List.drop_zero, List.isEmpty_nil, if_pos, List.cons_append,
    List.nil_append, Lexeme.number.injEq, List.cons.injEq, true_and, and_true]
  unfold bigSuffix
  split
  · rfl
  · rename_i hnone
    rw [if_neg]
    intro hhead
    obtain ⟨rest, rfl⟩ := List.head?_eq_some_iff.mp hhead
    exact hnone rest rfl

end Based

/-! ### All numbers -/

/-- A number is read to its end, unless a mark of a base lacks its digits. -/
theorem ofNumber_longest {c : Char} {cs : List Char} (hopens : opensNumber c cs = true)
    (hnone : ∀ mark radix behind, ¬LacksDigits mark radix behind (c :: cs)) : ∃ text,
      ofNumber (c :: cs) = .number text none ∧
        IsLongestFront (fun text => IsNumber text ∧ ¬OpensRange text (c :: cs)) text (c :: cs) := by
  by_cases hbase : ∃ mark radix behind, (mark, radix) ∈ radixMarks ∧ c :: cs = '0' :: mark :: behind
  · obtain ⟨mark, radix, behind, hmark, hcs⟩ := hbase
    have hsome : digits radix behind ≠ [] := by
      intro hempty
      refine hnone mark radix behind ⟨hmark, hcs, fun d hd hdigit => ?_⟩
      obtain ⟨more, rfl⟩ := List.head?_eq_some_iff.mp hd
      rw [digits_digit (radix_mem hmark) hdigit] at hempty
      cases hempty
    rw [hcs]
    refine ⟨_, ?_, longest_based hmark hsome⟩
    rw [ofNumber_based hmark, if_neg (by simpa using hsome)]
    rfl
  · have hbase : ∀ mark radix behind, (mark, radix) ∈ radixMarks → c :: cs ≠ '0' :: mark :: behind :=
      fun mark radix behind hmark hcs => hbase ⟨mark, radix, behind, hmark, hcs⟩
    refine ⟨_, ofNumber_decimal hbase, ⟨isNumber_decimal hopens, not_opensRange_decimal _⟩,
      decimal_isPrefix _, ?_⟩
    rintro other ⟨hother, hrange⟩ ⟨rest, hrest⟩
    rw [← hrest] at hbase hrange ⊢
    refine (isPrefix_decimal hother (fun mark radix behind hmark heq => ?_) hrange).length_le
    exact hbase mark radix (behind ++ rest) hmark (by rw [heq]; rfl)

end Lexeme

/-- Whether a source has a number where a token stands, as long as it goes, and reports nothing about it
but that a mark of a base lacks its digits. -/
structure ReadsNumber (source : String) (t : Token) (text : String) : Prop where
  slice : t.span.slice source = text
  longest : (∀ mark radix behind, ¬LacksDigits mark radix behind (textFrom source t.span.start)) →
    IsLongestFront (fun text => IsNumber text ∧ ¬OpensRange text (textFrom source t.span.start))
        text.toList (textFrom source t.span.start) ∧
      (lex source).problemsIn t.span = []
  bare : ∀ mark radix behind, LacksDigits mark radix behind (textFrom source t.span.start) →
    text.toList = '0' :: mark :: (if behind.head? = some 'n' then ['n'] else []) ∧
      (lex source).problemsIn t.span =
        [⟨.missingDigits radix, ⟨t.span.start, t.span.start + 2⟩⟩]

/-- **Numbers are read as long as they go**, and only a mark of a base without digits is reported. -/
theorem lex_numbers (source : String) {t : Token} (ht : t ∈ (lex source).tokens.toList) {text : String}
    (hkind : t.kind = .number text) : ReadsNumber source t text := by
  obtain ⟨l, h⟩ := exists_readFrom ht (by rw [hkind]; exact nofun)
  obtain ⟨kind, htoken, heq⟩ := Option.map_eq_some_iff.mp h.token
  have hkind' : l.tokenKind? t.span.start = some (.number text) := by
    rw [htoken, ← hkind, ← heq]
  obtain ⟨c, behind, hahead, hscanned⟩ := h.scanned
  have hslice := h.slice
  have hproblems := h.problems
  cases l <;> cases hkind'
  rename_i text missing
  obtain ⟨hopens, hnumber⟩ := hscanned
  rw [Lexeme.text] at hslice
  refine ⟨hslice, fun hnone => ?_, fun mark radix rest hlacks => ?_⟩
  · rw [hahead] at hnone ⊢
    obtain ⟨number, hread, hlongest⟩ := Lexeme.ofNumber_longest hopens hnone
    obtain ⟨rfl, rfl⟩ := Lexeme.number.inj (hnumber.symm.trans hread)
    rw [String.toList_ofList]
    exact ⟨hlongest, hproblems⟩
  · rw [hahead] at hlacks
    obtain ⟨rfl, rfl⟩ := Lexeme.number.inj (hnumber.symm.trans (Lexeme.ofNumber_bare hlacks))
    rw [String.toList_ofList]
    exact ⟨rfl, hproblems⟩

/-- A number with all its parts in front of a second point. -/
theorem lex_numbers_whole :
    (⟨.number "1_0.5e-3", ⟨0, 8⟩⟩ : Token) ∈ (lex "1_0.5e-3..0x").tokens.toList ∧
      ReadsNumber "1_0.5e-3..0x" ⟨.number "1_0.5e-3", ⟨0, 8⟩⟩ "1_0.5e-3" := by
  have ht : (⟨.number "1_0.5e-3", ⟨0, 8⟩⟩ : Token) ∈ (lex "1_0.5e-3..0x").tokens.toList := by
    decide +kernel
  exact ⟨ht, lex_numbers _ ht rfl⟩

end ScriptTree
