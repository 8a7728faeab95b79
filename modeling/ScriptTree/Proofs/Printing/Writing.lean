import Mathlib
import ScriptTree.Proofs.Printing.Climbing
import ScriptTree.Proofs.Token.Spacing

/-! Terms as source text.

With a space between its tokens a term falls into these tokens again (`lexes_spaced`): each of them is
read the same way wherever it stands (`Writable`), but for the slash that divides, and that one stands
behind an operand (`DividesBehind`). The source falls into these lexemes, and each token has the text that
its kind says (`WrittenIn`). -/
namespace ScriptTree

open Parsing

namespace Lexeme

/-! ### Lexemes on their own -/

/-- Whether the lexeme is a token without parts, with nothing wrong in it. -/
def isSimple : Lexeme → Bool
  | keyword _ | identifier _ | number _ none | operator _ | punctuation _ => true
  | _ => false

section Simple
variable {l : Lexeme} (h : l.isSimple = true) (start : Nat)
include h

theorem isPlain_of_isSimple : l.isPlain = true := by
  cases l <;> first | rfl | cases h

theorem problems_of_isSimple : l.problems start = [] := by
  unfold isSimple at h
  split at h <;> first | rfl | cases h

theorem comment?_of_isSimple : l.comment? start = none := by
  cases l <;> first | rfl | cases h

theorem tokenKind?_of_isSimple : l.tokenKind? start = l.tokenKind? 0 := by
  cases l <;> first | rfl | cases h

end Simple

section Kinds
variable (start : Nat)

@[simp] theorem tokenKind?_keyword (word : Keyword) :
    (keyword word).tokenKind? start = some (.keyword word) := rfl

@[simp] theorem tokenKind?_identifier (name : String) :
    (identifier name.toList).tokenKind? start = some (.identifier name) := by
  rw [tokenKind?, String.ofList_toList]

@[simp] theorem tokenKind?_number (digits : String) :
    (number digits.toList none).tokenKind? start = some (.number digits) := by
  rw [tokenKind?, String.ofList_toList]

@[simp] theorem tokenKind?_operator (o : Operator) :
    (operator o).tokenKind? start = some (.operator o) := rfl

@[simp] theorem tokenKind?_punctuation (mark : Punctuation) :
    (punctuation mark).tokenKind? start = some (.punctuation mark) := rfl

end Kinds

/-- Whether a lexeme that stands alone is read as itself, and as such wherever a slash behind it would
divide if it is one. -/
def isAlone (l : Lexeme) (ctx : Context) : Bool :=
  match l.text with
  | [] => false
  | c :: cs => quote? c = none && ofCode ctx c cs = l

/-- Whether a lexeme can be written next to a space and is read again. -/
structure Writable (l : Lexeme) : Prop where
  simple : l.isSimple = true
  alone : ∀ ctx, (l = .operator .divide → ctx.operandEnd = true) → l.isAlone ctx = true
  /-- No template is opened. -/
  level : Context.modesAfter [] l = []

theorem Writable.firm {l : Lexeme} (h : l.Writable) {operandEnd : Bool}
    (hdivide : l = .operator .divide → operandEnd = true) : l.Firm operandEnd := by
  refine ⟨fun lineStart back hback => ?_, h.level⟩
  have halone := h.alone ⟨[], lineStart, operandEnd⟩ hdivide
  rw [isAlone] at halone
  cases htext : l.text with
  | nil =>
    rw [htext] at halone
    cases halone
  | cons c cs =>
    rw [htext] at halone
    obtain ⟨hquote, hcode⟩ : quote? c = none ∧ ofCode _ c cs = l := by simpa using halone
    refine ⟨c, cs, rfl, ?_⟩
    rw [ofCode_stops hback hquote (hcode ▸ isPlain_of_isSimple h.simple), hcode]

/-- What code is read as depends on two facts about what stands in front of it. -/
theorem isAlone_congr {l : Lexeme} {ctx : Context} {lineStart operandEnd : Bool}
    (hline : ctx.lineStart = lineStart) (hoperand : ctx.operandEnd = operandEnd) :
    l.isAlone ctx = l.isAlone ⟨[], lineStart, operandEnd⟩ := by
  obtain ⟨modes, lineStart', operandEnd'⟩ := ctx
  cases hline
  cases hoperand
  rfl

/-- A lexeme with few ways to stand is looked at in all of them. -/
theorem Writable.of_alone {l : Lexeme} (simple : l.isSimple = true)
    (alone : ∀ lineStart operandEnd, (l = .operator .divide → operandEnd = true) →
      l.isAlone ⟨[], lineStart, operandEnd⟩ = true)
    (level : Context.modesAfter [] l = []) : Writable l := by
  refine ⟨simple, fun ctx hdivide => ?_, level⟩
  rw [isAlone_congr rfl rfl]
  exact alone _ _ hdivide

/-! ### Names, integers, operators and marks -/

/-- Neither a blank nor a mark has a place among the letters and digits. -/
theorem plain_of_range {c : Char}
    (h : 48 ≤ c.toNat ∧ c.toNat ≤ 57 ∨ 65 ≤ c.toNat ∧ c.toNat ≤ 122) :
    isBlank c = false ∧ c ∉ ['/', '<', '-', '\x22', '\x27'] := by
  have hother {d : Char} (hd : d.toNat < 48 ∨ 57 < d.toNat ∧ d.toNat < 65 ∨ 122 < d.toNat) :
      c ≠ d := by
    rintro rfl
    omega
  constructor
  · have hspace : isWhiteSpace c = false := by
      simp only [isWhiteSpace, Bool.or_eq_false_iff, Bool.and_eq_false_iff, decide_eq_false_iff_not,
        beq_eq_false_iff_ne]
      omega
    simp [isBlank, hspace, hother (d := '\uFEFF') (by decide), hother (d := '\u2060') (by decide),
      hother (d := '\u200B') (by decide)]
  · simp [hother (d := '/') (by decide), hother (d := '<') (by decide),
      hother (d := '-') (by decide), hother (d := '\x22') (by decide),
      hother (d := '\x27') (by decide)]

theorem isIdentifierStart_range {c : Char} (h : isIdentifierStart c = true) :
    65 ≤ c.toNat ∧ c.toNat ≤ 122 := by
  simp only [isIdentifierStart, Char.isAlpha, Char.isUpper, Char.isLower, Bool.or_eq_true,
    Bool.and_eq_true, decide_eq_true_eq, beq_iff_eq, UInt32.le_iff_toNat_le, ge_iff_le] at h
  change ((65 ≤ c.toNat ∧ c.toNat ≤ 90) ∨ (97 ≤ c.toNat ∧ c.toNat ≤ 122)) ∨ c = '_' at h
  rcases h with (h | h) | rfl
  · omega
  · omega
  · decide

theorem isDigit_range {c : Char} (h : c.isDigit = true) : 48 ≤ c.toNat ∧ c.toNat ≤ 57 := by
  simp only [Char.isDigit, Bool.and_eq_true, decide_eq_true_eq, UInt32.le_iff_toNat_le,
    ge_iff_le] at h
  exact h

/-- What starts with a letter or a digit is a word or a number. -/
theorem ofCode_of_range (ctx : Context) {c : Char} (cs : List Char)
    (h : 48 ≤ c.toNat ∧ c.toNat ≤ 57 ∨ 65 ≤ c.toNat ∧ c.toNat ≤ 122) :
    quote? c = none ∧ ofCode ctx c cs =
      if c.isDigit || (c = '.' && cs.head?.any Char.isDigit) then ofNumber (c :: cs)
      else if isIdentifierStart c then ofWord (c :: cs)
      else (ofSymbol? (c :: cs)).getD (.unexpected c) := by
  obtain ⟨hblank, hmarks⟩ := plain_of_range h
  simp only [List.mem_cons, List.not_mem_nil, or_false, not_or] at hmarks
  have hquote : quote? c = none := by
    unfold quote?
    split
    · exact absurd rfl hmarks.2.2.2.1
    · exact absurd rfl hmarks.2.2.2.2
    · rfl
  have hopen : "<!--".toList.isPrefixOf (c :: cs) = false := by
    simp [List.isPrefixOf, Ne.symm hmarks.2.1]
  have hclose : "-->".toList.isPrefixOf (c :: cs) = false := by
    simp [List.isPrefixOf, Ne.symm hmarks.2.2.1]
  refine ⟨hquote, ?_⟩
  simp only [ofCode, hblank, hmarks.1, hopen, hclose, hquote]
  simp

theorem writable_identifier {name : String} (h : isName name = true) :
    Writable (.identifier name.toList) := by
  rw [isName, Bool.and_eq_true, Bool.and_eq_true] at h
  obtain ⟨⟨hstart, hparts⟩, hreserved⟩ := h
  refine ⟨rfl, fun ctx _ => ?_, rfl⟩
  cases hname : name.toList with
  | nil => simp [hname] at hstart
  | cons c cs =>
    rw [hname] at hstart hparts
    have hstart : isIdentifierStart c = true := hstart
    have hrange := isIdentifierStart_range hstart
    obtain ⟨hquote, hcode⟩ := ofCode_of_range ctx cs (.inr hrange)
    have hdigit : c.isDigit = false := by
      rw [← Bool.not_eq_true]
      intro hdigit
      have := isDigit_range hdigit
      omega
    have hpoint : c ≠ '.' := by
      rintro rfl
      exact absurd hrange (by decide)
    have hword : ofWord (c :: cs) = .identifier (c :: cs) := by
      have htake : (c :: cs).takeWhile isIdentifierPart = c :: cs := by
        rw [List.takeWhile_eq_self_iff]
        exact List.all_eq_true.mp hparts
      rw [Option.isNone_iff_eq_none] at hreserved
      rw [ofWord, htake, ← hname, String.ofList_toList, hreserved]
    rw [isAlone]
    simp [text, hquote, hcode, hdigit, hpoint, hstart, hword]

section Numbers
variable {cs : List Char} (h : cs.all Char.isDigit = true)
include h

theorem digitRun_of_digits (started : Bool) (taken : List Char) :
    digitRun 10 started cs taken = taken.reverse ++ cs := by
  induction cs generalizing started taken with
  | nil => rw [digitRun, List.append_nil]
  | cons c cs ih =>
    rw [List.all_cons, Bool.and_eq_true] at h
    rw [digitRun, if_pos (isDigitOf_ten h.1), ih h.2, List.reverse_cons, List.append_assoc]
    rfl

theorem decimal_of_digits : decimal cs = cs := by
  have hdigits : digits 10 cs = cs := digitRun_of_digits h false []
  simp [decimal, hdigits, fraction, exponent, bigSuffix]

theorem ofNumber_of_digits : ofNumber cs = .number cs none := by
  have hdecimal := decimal_of_digits h
  unfold ofNumber
  split
  · rename_i mark rest
    have hmark : mark.isDigit = true := (List.all_eq_true.mp h) mark (by simp)
    have hradix : radixMark? mark = none := by
      unfold radixMark?
      split
      all_goals first | rfl | exact absurd hmark (by decide)
    rw [hradix, hdecimal]
  · rw [hdecimal]

end Numbers

theorem writable_number {digits : String} (h : isInteger digits = true) :
    Writable (.number digits.toList none) := by
  rw [isInteger, Bool.and_eq_true] at h
  obtain ⟨hnonempty, hdigits⟩ := h
  refine ⟨rfl, fun ctx _ => ?_, rfl⟩
  have hnumber := ofNumber_of_digits hdigits
  cases hdigitList : digits.toList with
  | nil => simp [hdigitList] at hnonempty
  | cons c cs =>
    rw [hdigitList] at hdigits hnumber
    have hdigit : c.isDigit = true := List.all_eq_true.mp hdigits c (by simp)
    obtain ⟨hquote, hcode⟩ := ofCode_of_range ctx cs (.inl (isDigit_range hdigit))
    rw [isAlone]
    simp [text, hquote, hcode, hdigit, hnumber]

theorem writable_operator {o : Operator} (h : o.isUnary || o.isBinary || o == .assign) :
    Writable o.lexeme := by
  have hall : ∀ o ∈ Operator.all, (o.isUnary || o.isBinary || o == .assign) = true →
      o.lexeme.isSimple = true ∧ ∀ lineStart operandEnd,
        (o.lexeme = .operator .divide → operandEnd = true) →
          o.lexeme.isAlone ⟨[], lineStart, operandEnd⟩ = true := by
    decide +kernel
  have hmem : o ∈ Operator.all := by cases o <;> decide
  obtain ⟨hsimple, halone⟩ := hall o hmem h
  exact .of_alone hsimple halone (by cases o <;> rfl)

/-- The marks that are written outside of templates and strings. -/
theorem writable_punctuation {mark : Punctuation}
    (h : mark ∉ [.backtick, .dollarBrace, .doubleQuote, .singleQuote]) :
    Writable (.punctuation mark) := by
  have hall : ∀ mark ∈ Punctuation.all, mark ∉ [.backtick, .dollarBrace, .doubleQuote, .singleQuote] →
      Context.modesAfter [] (.punctuation mark) = [] ∧
        ∀ lineStart operandEnd, (punctuation mark).isAlone ⟨[], lineStart, operandEnd⟩ = true := by
    decide +kernel
  have hmem : mark ∈ Punctuation.all := by cases mark <;> decide
  obtain ⟨hlevel, halone⟩ := hall mark hmem h
  exact .of_alone rfl (fun lineStart operandEnd _ => halone lineStart operandEnd) hlevel

theorem writable_keyword {word : Keyword} (h : word.isReserved = true) : Writable (.keyword word) := by
  have hall : ∀ word ∈ Keyword.all, word.isReserved = true →
      ∀ lineStart operandEnd, (keyword word).isAlone ⟨[], lineStart, operandEnd⟩ = true := by
    decide +kernel
  exact .of_alone rfl (fun lineStart operandEnd _ => hall word word.mem_all h lineStart operandEnd) rfl

/-! ### Lexemes with spaces between them -/

/-- Whether every slash among the lexemes stands behind an operand. -/
def DividesBehind (operandEnd : Bool) : List Lexeme → Prop
  | [] => True
  | l :: ls => (l = .operator .divide → operandEnd = true) ∧
    DividesBehind (l.endsOperand?.getD operandEnd) ls

theorem dividesBehind_of_ne {ls : List Lexeme} (h : ∀ l ∈ ls, l ≠ .operator .divide) (operandEnd : Bool) :
    DividesBehind operandEnd ls := by
  induction ls generalizing operandEnd with
  | nil => trivial
  | cons l ls ih =>
    obtain ⟨hl, hls⟩ := List.forall_mem_cons.mp h
    exact ⟨fun hdivide => absurd hdivide hl, ih hls _⟩

theorem allFirm_of_writable {ls : List Lexeme} (h : ∀ l ∈ ls, l.Writable) {operandEnd : Bool}
    (hdivides : DividesBehind operandEnd ls) : AllFirm operandEnd ls := by
  induction ls generalizing operandEnd with
  | nil => trivial
  | cons l ls ih =>
    obtain ⟨hl, hls⟩ := List.forall_mem_cons.mp h
    exact ⟨hl.firm hdivides.1, ih hls hdivides.2⟩

section Spaced
variable {ls : List Lexeme} (h : ∀ l ∈ ls, l.Writable)
include h

theorem filterMap_spaced (start : Nat) :
    (placeFrom start (ls.intersperse (.blank ' '))).filterMap
      (fun p => p.token?.map Token.kind) = ls.filterMap (·.tokenKind? 0) := by
  induction ls generalizing start with
  | nil => rfl
  | cons l ls ih =>
    obtain ⟨hl, hls⟩ := List.forall_mem_cons.mp h
    have hkind : (⟨start, l⟩ : Placed).token?.map Token.kind = l.tokenKind? 0 := by
      rw [Placed.token?, token?, Option.map_map, tokenKind?_of_isSimple hl.simple]
      cases l.tokenKind? 0 <;> rfl
    have hblank (start : Nat) : (⟨start, .blank ' '⟩ : Placed).token?.map Token.kind = none := rfl
    cases ls with
    | nil =>
      rw [List.intersperse_singleton, placeFrom, placeFrom]
      simp only [List.filterMap_cons, hkind, List.filterMap_nil]
    | cons m ls =>
      have ih := ih hls (start + l.size + (blank ' ').size)
      simp only [List.intersperse_cons_cons, placeFrom, List.filterMap_cons, hkind, hblank] at ih ⊢
      rw [ih]

omit h in
theorem mem_of_mem_intersperse {l m : Lexeme} (hl : l ∈ ls.intersperse m) : l = m ∨ l ∈ ls := by
  induction ls with
  | nil => cases hl
  | cons m' ls ih =>
    cases ls with
    | nil => exact .inr hl
    | cons m'' ls =>
      rw [List.intersperse_cons_cons, List.mem_cons, List.mem_cons] at hl
      rcases hl with rfl | rfl | hl
      · exact .inr (List.mem_cons_self ..)
      · exact .inl rfl
      · exact (ih hl).imp_right (List.mem_cons_of_mem _)

theorem quiet_of_mem_spaced {l : Lexeme} (hl : l ∈ ls.intersperse (.blank ' ')) (start : Nat) :
    l.problems start = [] ∧ l.comment? start = none := by
  rcases mem_of_mem_intersperse hl with rfl | hl
  · exact ⟨rfl, rfl⟩
  · exact ⟨problems_of_isSimple (h l hl).simple start, comment?_of_isSimple (h l hl).simple start⟩

omit h in
/-- A token without parts has the text that its kind says. -/
theorem spells_of_isSimple {source : String} {p : Placed} (hp : p.StandsIn source)
    (hsimple : p.lexeme.isSimple = true) {t : Token} (htoken : p.token? = some t) :
    Spells source t.span t.kind := by
  have hslice := hp.slice_eq
  rw [← Placed.token?_span htoken] at hslice
  obtain ⟨kind, hkind, rfl⟩ := Option.map_eq_some_iff.mp htoken
  intro _
  cases hl : p.lexeme <;> rw [hl] at hkind hslice hsimple <;> cases hkind
  case keyword | operator | punctuation => exact hslice.trans String.ofList_toList
  case identifier | number => exact hslice
  all_goals cases hsimple

end Spaced

/-- Whether a source falls into these lexemes and blanks, with nothing wrong in it. -/
structure WrittenIn (source : String) (ls : List Lexeme) : Prop where
  problems : (lex source).problems = #[]
  comments : (lex source).comments = #[]
  kinds : (lex source).tokens.toList.map Token.kind = ls.filterMap (·.tokenKind? 0) ++ [.endOfFile]
  spells : AllSpelled source (lex source).tokens

/-- Lexemes are written with spaces between them. -/
theorem writtenIn_spaced {ls : List Lexeme} (h : ∀ l ∈ ls, l.Writable)
    (hdivides : DividesBehind false ls) : WrittenIn (String.ofList (spaced ls)) ls := by
  obtain ⟨last, hmodes, hlexes⟩ := lexes_spaced (allFirm_of_writable h hdivides) {} rfl rfl
  have hmem {p : Placed} (hp : p ∈ placeFrom 0 (ls.intersperse (.blank ' '))) :
      p.lexeme ∈ ls.intersperse (.blank ' ') := by
    obtain ⟨before, after, hsplit, _⟩ := mem_placeFrom hp
    rw [hsplit]
    simp
  rw [← String.toList_ofList (l := spaced ls)] at hlexes
  have hproblems : (placeFrom 0 (ls.intersperse (.blank ' '))).flatMap Placed.problems = [] :=
    List.flatMap_eq_nil_iff.mpr fun p hp => (quiet_of_mem_spaced h (hmem hp) p.start).1
  have htokens : (lex (.ofList (spaced ls))).tokens.toList = _ := hlexes.tokens
  refine ⟨?_, ?_, ?_, fun i => ?_⟩
  · rw [← Array.toList_inj, lex, hlexes.problems, hmodes, hproblems]
    rfl
  · rw [← Array.toList_inj, lex, hlexes.comments]
    exact List.filterMap_eq_nil_iff.mpr fun p hp => (quiet_of_mem_spaced h (hmem hp) p.start).2
  · rw [htokens, List.map_append, List.map_filterMap, filterMap_spaced h]
    rfl
  · rcases Nat.lt_or_ge i (lex (String.ofList (spaced ls))).tokens.size with hi | hi
    · have htoken := Array.getElem_mem_toList hi
      rw [htokens] at htoken
      have hget : tokenAt (lex (.ofList (spaced ls))).tokens i = (lex (.ofList (spaced ls))).tokens[i] := by
        simp [tokenAt, Array.getD, hi]
      rw [spanAt, kindAt, hget]
      rcases List.mem_append.mp htoken with htoken | htoken
      · obtain ⟨p, hp, htoken⟩ := List.mem_filterMap.mp htoken
        rcases mem_of_mem_intersperse (hmem hp) with hblank | hl
        · rw [Placed.token?, hblank] at htoken
          cases htoken
        · exact spells_of_isSimple (hlexes.standsIn p hp) (h _ hl).simple htoken
      · rw [List.mem_singleton.mp htoken]
        intro hspelled
        cases hspelled
    · rw [kindAt, tokenAt, Array.getD_eq_getD_getElem?, Array.getElem?_eq_none hi]
      intro hspelled
      cases hspelled

end Lexeme

/-! ### Lexemes of terms -/

namespace Term

theorem forall_mem_argumentLexemes {p : Lexeme → Prop} (hcomma : p (.punctuation .comma))
    {arguments : List Term} (h : ∀ a ∈ arguments, ∀ l ∈ a.lexemes, p l) :
    ∀ l ∈ argumentLexemes arguments, p l := by
  induction arguments with
  | nil => simp [argumentLexemes]
  | cons a arguments ih =>
    obtain ⟨ha, harguments⟩ := List.forall_mem_cons.mp h
    cases arguments with
    | nil => simpa [argumentLexemes] using ha
    | cons b arguments =>
      rw [argumentLexemes]
      exact List.forall_mem_append.mpr ⟨ha, List.forall_mem_cons.mpr ⟨hcomma, ih harguments⟩⟩

/-- What holds of names, integers, operators and the marks of terms holds of all lexemes of a term. -/
theorem Proper.forall_lexemes {p : Lexeme → Prop} {e : Term} (h : e.Proper)
    (hname : ∀ name : String, isName name = true → p (.identifier name.toList))
    (hnumber : ∀ digits : String, isInteger digits = true → p (.number digits.toList none))
    (hoperator : ∀ o : Operator, (o.isUnary || o.isBinary || o == .assign) = true → p o.lexeme)
    (hmark : ∀ mark ∈ [Punctuation.leftParen, .rightParen, .dot, .comma, .semicolon],
      p (.punctuation mark)) : ∀ l ∈ e.lexemes, p l := by
  have hopening : p (.punctuation .leftParen) := hmark _ (by simp)
  have hclosing : p (.punctuation .rightParen) := hmark _ (by simp)
  induction h with
  | identifier spelled => simpa [lexemes] using hname _ spelled
  | number spelled => simpa [lexemes] using hnumber _ spelled
  | parenthesized _ ih =>
    rw [lexemes]
    simpa [or_imp, forall_and, hopening, hclosing] using ih
  | member _ _ spelled ih =>
    rw [lexemes]
    simpa [or_imp, forall_and, hmark .dot (by simp), hname _ spelled] using ih
  | call _ _ _ ih ihitems =>
    have harguments := forall_mem_argumentLexemes (hmark .comma (by simp)) ihitems
    rw [lexemes]
    simpa [or_imp, forall_and, hopening, hclosing] using And.intro ih harguments
  | unary prefixed _ _ ih =>
    rw [lexemes]
    exact List.forall_mem_cons.mpr ⟨hoperator _ (by rw [prefixed]; rfl), ih⟩
  | @binary o _ _ _ between _ _ _ _ ih ih' =>
    have hbinary : o.isBinary = true := by rw [Operator.isBinary, between]; rfl
    rw [lexemes]
    refine List.forall_mem_append.mpr ⟨ih, List.forall_mem_cons.mpr ⟨hoperator _ ?_, ih'⟩⟩
    rw [hbinary, Bool.or_true]
    rfl

theorem Proper.writable {e : Term} (h : e.Proper) : ∀ l ∈ e.lexemes, l.Writable :=
  h.forall_lexemes (fun _ => Lexeme.writable_identifier) (fun _ => Lexeme.writable_number)
    (fun _ => Lexeme.writable_operator) fun mark hmark => Lexeme.writable_punctuation (by
      revert mark
      decide)

theorem divides_argumentLexemes {arguments : List Term} {rest : List Lexeme}
    (h : ∀ a ∈ arguments, ∀ operandEnd rest, Lexeme.DividesBehind true rest →
      Lexeme.DividesBehind operandEnd (a.lexemes ++ rest))
    (hrest : ∀ operandEnd, Lexeme.DividesBehind operandEnd rest) (operandEnd : Bool) :
    Lexeme.DividesBehind operandEnd (argumentLexemes arguments ++ rest) := by
  induction arguments generalizing operandEnd with
  | nil => simpa [argumentLexemes] using hrest operandEnd
  | cons a arguments ih =>
    obtain ⟨ha, harguments⟩ := List.forall_mem_cons.mp h
    cases arguments with
    | nil => simpa [argumentLexemes] using ha operandEnd rest (hrest true)
    | cons b arguments =>
      rw [argumentLexemes, List.append_assoc]
      exact ha operandEnd _ ⟨by simp, ih harguments _⟩

/-- Behind a term a slash divides, and there is no other one in it that stands at its head. -/
theorem Proper.divides {e : Term} (h : e.Proper) (operandEnd : Bool) {rest : List Lexeme}
    (hrest : Lexeme.DividesBehind true rest) :
    Lexeme.DividesBehind operandEnd (e.lexemes ++ rest) := by
  induction h generalizing operandEnd rest with
  | identifier | number => exact ⟨by simp, hrest⟩
  | parenthesized _ ih =>
    rw [lexemes, List.cons_append, List.cons_append, List.append_assoc]
    exact ⟨by simp, ih false ⟨by simp, hrest⟩⟩
  | member _ _ _ ih =>
    rw [lexemes, List.append_assoc]
    exact ih operandEnd ⟨by simp, by simp, hrest⟩
  | call _ _ _ ih ihitems =>
    rw [lexemes, List.append_assoc, List.append_assoc, List.cons_append]
    have hclosing : ∀ operandEnd,
        Lexeme.DividesBehind operandEnd ([.punctuation .rightParen] ++ rest) :=
      fun _ => ⟨by simp, hrest⟩
    exact ih operandEnd ⟨by simp, divides_argumentLexemes
      (fun a ha operandEnd rest hrest => ihitems a ha operandEnd hrest) hclosing _⟩
  | @unary o _ prefixed _ _ ih =>
    rw [lexemes, List.cons_append]
    refine ⟨fun hdivide => ?_, ih _ hrest⟩
    rcases o.mem_of_isUnary prefixed with rfl | rfl | rfl | rfl | rfl | rfl <;> cases hdivide
  | binary _ _ _ _ _ ih ih' =>
    rw [lexemes, List.append_assoc]
    exact ih operandEnd ⟨fun _ => rfl, ih' _ hrest⟩

end Term

end ScriptTree
