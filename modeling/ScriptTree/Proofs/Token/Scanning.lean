import Mathlib
import ScriptTree.Token.Lexer

/-! Scanners take the beginning of a text.

What a scanner returns stands at the head of the text it was given, character by character. So each
lexeme covers the head of its text (`first_heads`), and at least one character of it. -/
namespace ScriptTree.Lexeme

/-- What the lexer keeps to whichever lexeme it makes. -/
def Regular : Lexeme → Prop
  | blank c => isBlank c = true
  | unexpected c => isBlank c = false
  | operator o => o.isWord = false
  | loose _ strict => strict.isWord = false
  | string quote pieces _ =>
    (quote = .doubleQuote ∨ quote = .singleQuote) ∧ ∀ piece ∈ pieces, piece.text ≠ []
  | regex _ flags closed => closed = false → flags = []
  | number text (some radix) => ∃ mark rest, text = '0' :: mark :: rest ∧ radixMark? mark = some radix
  | _ => True

/-- Whether a lexeme is the head of a text. -/
structure Heads (l : Lexeme) (cs : List Char) : Prop where
  nonempty : l.text ≠ []
  front : l.text <+: cs
  regular : l.Regular

theorem Heads.text_cons {l : Lexeme} {c : Char} {cs : List Char} (h : Heads l (c :: cs)) :
    ∃ front, l.text = c :: front := by
  obtain ⟨d, front, htext⟩ := List.exists_cons_of_ne_nil h.nonempty
  obtain ⟨rest, hrest⟩ := h.front
  rw [htext, List.cons_append] at hrest
  exact ⟨front, by rw [htext, (List.cons.inj hrest).1]⟩

/-- Two stretches, the second of which was read behind the first. -/
theorem append_isPrefix {a b cs : List Char} (ha : a <+: cs) (hb : b <+: cs.drop a.length) :
    a ++ b <+: cs := by
  obtain ⟨rest, rfl⟩ := ha
  rw [List.drop_left] at hb
  exact (List.prefix_append_right_inj a).mpr hb

theorem takeUpTo_isPrefix (n : Nat) (p : Char → Bool) (cs : List Char) : takeUpTo n p cs <+: cs :=
  (List.takeWhile_prefix p).trans (List.take_prefix n cs)

/-! ### Numbers -/

theorem digitRun_eq (radix : Nat) (started : Bool) (cs taken : List Char) :
    ∃ front, front <+: cs ∧ digitRun radix started cs taken = taken.reverse ++ front := by
  induction cs generalizing started taken with
  | nil => exact ⟨[], List.nil_prefix, by simp [digitRun]⟩
  | cons c cs ih =>
    rw [digitRun]
    split
    · obtain ⟨front, hfront, heq⟩ := ih true (c :: taken)
      exact ⟨c :: front, (List.prefix_cons_inj c).mpr hfront, by simp [heq]⟩
    · split
      · obtain ⟨front, hfront, heq⟩ := ih started (c :: taken)
        exact ⟨c :: front, (List.prefix_cons_inj c).mpr hfront, by simp [heq]⟩
      · exact ⟨[], List.nil_prefix, by simp⟩

theorem digits_isPrefix (radix : Nat) (cs : List Char) : digits radix cs <+: cs := by
  obtain ⟨front, hfront, heq⟩ := digitRun_eq radix false cs []
  rw [digits, heq]
  exact hfront

theorem digits_ne_nil {radix : Nat} {c : Char} {cs : List Char} (h : isDigitOf radix c = true) :
    digits radix (c :: cs) ≠ [] := by
  obtain ⟨front, _, heq⟩ := digitRun_eq radix true cs [c]
  rw [digits, digitRun, if_pos h, heq]
  simp

theorem bigSuffix_isPrefix (cs : List Char) : bigSuffix cs <+: cs := by
  unfold bigSuffix
  split
  · exact (List.prefix_cons_inj _).mpr List.nil_prefix
  · exact List.nil_prefix

theorem fraction_isPrefix (cs : List Char) : fraction cs <+: cs := by
  unfold fraction
  split
  · exact List.nil_prefix
  · exact (List.prefix_cons_inj _).mpr (digits_isPrefix _ _)
  · exact List.nil_prefix

/-- The first character, if it has a property. -/
theorem filter_take_one_isPrefix (p : Char → Bool) (cs : List Char) :
    (cs.take 1).filter p <+: cs := by
  cases cs with
  | nil => exact List.nil_prefix
  | cons c cs =>
    rw [List.take_succ_cons, List.take_zero]
    cases h : p c with
    | true =>
      rw [List.filter_cons_of_pos h]
      exact (List.prefix_cons_inj c).mpr List.nil_prefix
    | false =>
      rw [List.filter_cons_of_neg (by simp [h])]
      exact List.nil_prefix

theorem exponent_isPrefix (cs : List Char) : exponent cs <+: cs := by
  cases cs with
  | nil => exact List.nil_prefix
  | cons e cs =>
    simp only [exponent]
    split
    · split
      · exact List.nil_prefix
      · exact (List.prefix_cons_inj e).mpr
          (append_isPrefix (filter_take_one_isPrefix _ cs) (digits_isPrefix _ _))
    · exact List.nil_prefix

theorem decimal_isPrefix (cs : List Char) : decimal cs <+: cs := by
  have hwhole := digits_isPrefix 10 cs
  have hpart := fraction_isPrefix (cs.drop (digits 10 cs).length)
  generalize hw : digits 10 cs = whole at *
  generalize hp : fraction (cs.drop whole.length) = part at *
  have hboth : whole ++ part <+: cs := append_isPrefix hwhole hpart
  have hdrop : (cs.drop whole.length).drop part.length = cs.drop (whole ++ part).length := by
    rw [List.drop_drop, List.length_append]
  simp only [decimal, hw, hp, hdrop]
  have hpower := exponent_isPrefix (cs.drop (whole ++ part).length)
  split
  · rename_i hempty
    have hnone := List.isEmpty_iff.mp (Bool.and_eq_true_iff.mp hempty).2
    rw [hnone, List.append_nil]
    exact append_isPrefix hboth (bigSuffix_isPrefix _)
  · rw [List.append_nil]
    exact append_isPrefix hboth hpower

/-- Whether a number starts at the head of a text. -/
def opensNumber (c : Char) (cs : List Char) : Bool :=
  c.isDigit || (c = '.' && cs.head?.any Char.isDigit)

theorem isDigitOf_ten {c : Char} (h : c.isDigit = true) : isDigitOf 10 c = true := by
  simp only [Char.isDigit, Bool.and_eq_true, decide_eq_true_eq] at h
  obtain ⟨hlow, hhigh⟩ := h
  have hfirst : '0' ≤ c := hlow
  have hlast : c.toNat < 58 := Nat.lt_succ_of_le hhigh
  simp [isDigitOf, hfirst, hlast]

theorem decimal_ne_nil {c : Char} {cs : List Char} (h : opensNumber c cs = true) :
    decimal (c :: cs) ≠ [] := by
  rw [opensNumber, Bool.or_eq_true] at h
  rcases h with h | h
  · have : digits 10 (c :: cs) ≠ [] := digits_ne_nil (isDigitOf_ten h)
    simp [decimal, this]
  · rw [Bool.and_eq_true, decide_eq_true_eq] at h
    obtain ⟨rfl, h⟩ := h
    cases cs with
    | nil => cases h
    | cons d cs =>
      have hd : d.isDigit = true := by simpa using h
      have hpoint : digits 10 ('.' :: d :: cs) = [] := by simp [digits, digitRun, isDigitOf]
      have hne : d ≠ '.' := by
        rintro rfl
        exact absurd hd (by decide)
      have hpart : fraction ('.' :: d :: cs) = '.' :: digits 10 (d :: cs) := by
        rw [fraction]
        rintro _ ⟨⟩
        exact hne rfl
      simp [decimal, hpoint, hpart]

theorem ofNumber_heads {c : Char} {cs : List Char} (h : opensNumber c cs = true) :
    Heads (ofNumber (c :: cs)) (c :: cs) := by
  have hdecimal : Heads (.number (decimal (c :: cs)) none) (c :: cs) :=
    ⟨decimal_ne_nil h, decimal_isPrefix _, trivial⟩
  unfold ofNumber
  split
  · rename_i mark rest hcs
    split
    · rename_i radix hradix
      refine ⟨List.cons_ne_nil _ _, ?_, ?_⟩
      · rw [hcs]
        exact (List.prefix_append_right_inj ['0', mark]).mpr
          (append_isPrefix (digits_isPrefix radix rest) (bigSuffix_isPrefix _))
      · dsimp only
        split
        · exact ⟨mark, _, rfl, hradix⟩
        · trivial
    · exact hdecimal
  · exact hdecimal

/-! ### Escape sequences -/

theorem escapeBody_isPrefix (cs : List Char) : (escapeBody cs).1 <+: cs := by
  unfold escapeBody
  split
  · exact List.nil_prefix
  · exact (List.prefix_cons_inj 'x').mpr (takeUpTo_isPrefix ..)
  · rename_i cs
    have hdigits := List.takeWhile_prefix (l := cs) isHex
    dsimp only
    split
    · rename_i rest hclosed
      refine (List.prefix_append_right_inj ['u', '\x7b']).mpr (append_isPrefix hdigits ?_)
      rw [hclosed]
      exact (List.prefix_cons_inj _).mpr List.nil_prefix
    · exact (List.prefix_append_right_inj ['u', '\x7b']).mpr hdigits
  · exact (List.prefix_cons_inj 'u').mpr (takeUpTo_isPrefix ..)
  · exact List.prefix_append ['\r', '\n'] _
  · rename_i c cs _ _ _ _
    split
    · exact takeUpTo_isPrefix ..
    · exact (List.prefix_cons_inj c).mpr List.nil_prefix

/-! ### Strings -/

theorem piece_text (quote c : Char) (cs : List Char) :
    ∃ front, front <+: cs ∧ (piece quote c cs).text = c :: front := by
  unfold piece
  split
  · exact ⟨(escapeBody cs).1, escapeBody_isPrefix cs, rfl⟩
  · exact ⟨_, List.takeWhile_prefix _, rfl⟩

/-- The pieces of a string, and its closing quote if there is one. -/
theorem pieces_eq (quote : Char) (cs : List Char) (taken : List Piece) :
    ∃ ps, (pieces quote cs taken).1 = taken.reverse ++ ps ∧ (∀ p ∈ ps, p.text ≠ []) ∧
      (ps.flatMap Piece.text ++ if (pieces quote cs taken).2 then [quote] else []) <+: cs := by
  fun_induction pieces quote cs taken with
  | case1 taken => exact ⟨[], by simp, nofun, List.nil_prefix⟩
  | case2 taken rest => exact ⟨[], by simp, nofun, by simp⟩
  | case3 taken c rest => exact ⟨[], by simp, nofun, List.nil_prefix⟩
  | case4 taken c rest _ _ p ih =>
    obtain ⟨ps, hps, hnonempty, hprefix⟩ := ih
    obtain ⟨front, hfront, htext⟩ := piece_text quote c rest
    have hp : p.text ≠ [] := htext ▸ List.cons_ne_nil _ _
    refine ⟨p :: ps, by simp [hps], List.forall_mem_cons.mpr ⟨hp, hnonempty⟩, ?_⟩
    rw [htext, List.length_cons, Nat.add_sub_cancel] at hprefix
    rw [List.flatMap_cons, htext, List.append_assoc, List.cons_append]
    exact (List.prefix_cons_inj c).mpr (append_isPrefix hfront hprefix)

theorem quote_spelling {c : Char} {mark : Punctuation} (h : quote? c = some mark) :
    mark.spelling.toList = [c] ∧ (mark = .doubleQuote ∨ mark = .singleQuote) := by
  unfold quote? at h
  split at h <;> cases h
  · exact ⟨by decide, .inl rfl⟩
  · exact ⟨by decide, .inr rfl⟩

theorem ofString_heads {c : Char} {cs : List Char} {mark : Punctuation}
    (h : quote? c = some mark) : Heads (ofString mark c cs) (c :: cs) := by
  obtain ⟨hspelling, hmark⟩ := quote_spelling h
  obtain ⟨ps, hps, hnonempty, hprefix⟩ := pieces_eq c cs []
  have htext : (ofString mark c cs).text =
      c :: (ps.flatMap Piece.text ++ if (pieces c cs []).2 then [c] else []) := by
    simp [ofString, text, hspelling, hps]
  refine ⟨?_, ?_, hmark, ?_⟩
  · rw [htext]
    exact List.cons_ne_nil _ _
  · rw [htext]
    exact (List.prefix_cons_inj c).mpr hprefix
  · rw [hps]
    exact hnonempty

/-! ### Templates -/

theorem templateRun_eq (cs taken : List Char) :
    ∃ front, front <+: cs ∧ templateRun cs taken = taken.reverse ++ front := by
  induction cs generalizing taken with
  | nil => exact ⟨[], List.nil_prefix, by simp [templateRun]⟩
  | cons c cs ih =>
    rw [templateRun]
    split
    · exact ⟨[], List.nil_prefix, by simp⟩
    · obtain ⟨front, hfront, heq⟩ := ih (c :: taken)
      exact ⟨c :: front, (List.prefix_cons_inj c).mpr hfront, by simp [heq]⟩

theorem ofTemplate_heads (c : Char) (cs : List Char) : Heads (ofTemplate c cs) (c :: cs) := by
  unfold ofTemplate
  split
  · rename_i hc
    rw [hc]
    exact ⟨by decide, List.prefix_append ['\x60'] _, trivial⟩
  rename_i hbacktick
  split
  · rename_i hdollar
    rw [Bool.and_eq_true, decide_eq_true_eq, decide_eq_true_eq] at hdollar
    obtain ⟨rfl, hhead⟩ := hdollar
    obtain ⟨rest, rfl⟩ := List.head?_eq_some_iff.mp hhead
    exact ⟨by decide, List.prefix_append ['$', '\x7b'] _, trivial⟩
  rename_i hdollar
  split
  · exact ⟨List.cons_ne_nil _ _, (List.prefix_cons_inj c).mpr (escapeBody_isPrefix cs), trivial⟩
  · rename_i hbackslash
    obtain ⟨front, hfront, heq⟩ := templateRun_eq cs [c]
    have htext : templateRun (c :: cs) [] = c :: front := by
      rw [templateRun, if_neg (by simp_all), heq]
      rfl
    rw [htext]
    exact ⟨List.cons_ne_nil _ _, (List.prefix_cons_inj c).mpr hfront, trivial⟩

/-! ### Regular expressions -/

/-- The pattern of a regular expression, and its closing slash if there is one. -/
theorem regexBody_eq (inClass : Bool) (cs taken : List Char) :
    ∃ front, (regexBody inClass cs taken).1 = taken.reverse ++ front ∧
      (front ++ if (regexBody inClass cs taken).2 then ['/'] else []) <+: cs := by
  fun_induction regexBody inClass cs taken with
  | case1 inClass taken => exact ⟨[], by simp, List.nil_prefix⟩
  | case2 inClass d cs taken => exact ⟨['\\'], by simp, List.prefix_append ['\\'] _⟩
  | case3 inClass d cs taken _ ih =>
    obtain ⟨front, heq, hprefix⟩ := ih
    exact ⟨'\\' :: d :: front, by simp [heq], (List.prefix_append_right_inj ['\\', d]).mpr hprefix⟩
  | case4 inClass c cs taken => exact ⟨[], by simp, List.nil_prefix⟩
  | case5 inClass c cs taken _ _ hslash =>
    rw [Bool.and_eq_true, decide_eq_true_eq] at hslash
    obtain ⟨rfl, _⟩ := hslash
    exact ⟨[], by simp, List.prefix_append ['/'] _⟩
  | case6 inClass c cs taken _ _ _ ih =>
    obtain ⟨front, heq, hprefix⟩ := ih
    refine ⟨c :: front, ?_, (List.prefix_cons_inj c).mpr hprefix⟩
    rw [heq, List.reverse_cons, List.append_assoc, List.singleton_append]

theorem ofRegex_heads (cs : List Char) : Heads (ofRegex cs) ('/' :: cs) := by
  obtain ⟨front, heq, hprefix⟩ := regexBody_eq false cs []
  rw [List.reverse_nil, List.nil_append] at heq
  unfold ofRegex
  generalize regexBody false cs [] = body at heq hprefix
  obtain ⟨pattern, closed⟩ := body
  cases heq
  refine ⟨List.cons_ne_nil _ _, (List.prefix_cons_inj '/').mpr ?_, fun hopen => ?_⟩
  · cases closed with
    | false => exact hprefix
    | true =>
      have := append_isPrefix hprefix (List.takeWhile_prefix Char.isLower)
      simpa using this
  · cases hopen
    rfl

end ScriptTree.Lexeme
