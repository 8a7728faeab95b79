import Mathlib
import ScriptTree.Proofs.Token.Insertion
import ScriptTree.Proofs.Token.Origins
import ScriptTree.Proofs.Token.Strays

/-! Where a line starts.

The mark `-->` begins a comment in front of which its line has nothing to read. The lexer keeps this as
a flag, which tokens take away and line terminators give back, also those in comments. Strings can hold
line terminators too, but a token in code ends with none of its own: its last character is no blank, or
the line ends behind it (`Lexeme.first_solid`). So the flag tells of all the text behind the last line
terminator (`Lexes.lineStart_iff`).

A character that starts no token leaves the flag as it is. Behind such characters the mark begins a
comment as it does behind blanks (`lex_closing_comment`). -/
namespace ScriptTree

open Nesting (InTemplate)

/-- Whether a source has nothing to read behind the last line terminator of the text that it begins with:
only blanks, comments and characters that start no token. -/
def Lexed.LeadsLine (out : Lexed) (front : List Char) : Prop :=
  ∀ before c behind, front = before ++ c :: behind →
    (∀ d ∈ c :: behind, isLineTerminator d = false) →
      isBlank c = true ∨
      (∃ comment ∈ out.comments.toList,
        comment.span.contains (charSpan c (byteLength before)) = true) ∨
      stray c (byteLength before) ∈ out.problems.toList

/-- Whether a comment or a token other than template text starts at an offset. -/
def Lexed.Reaches (out : Lexed) (offset : Nat) : Prop :=
  (∃ t ∈ out.tokens.toList, t.span.start = offset ∧ t.kind ≠ .templateChars ∧
    t.kind ≠ .templateEscape) ∨
  ∃ comment ∈ out.comments.toList, comment.span.start = offset

/-! ### The ends of tokens -/

theorem isBlank_of_isLineTerminator {c : Char} (h : isLineTerminator c = true) : isBlank c = true := by
  simp only [isLineTerminator, Bool.or_eq_true, beq_iff_eq, or_assoc] at h
  rcases h with rfl | rfl | rfl | rfl <;> decide

theorem isLineTerminator_of_solid {c : Char} (h : isBlank c = false) : isLineTerminator c = false := by
  refine Bool.eq_false_iff.mpr fun hline => ?_
  rw [isBlank_of_isLineTerminator hline] at h
  cases h

/-- Behind the space, the first blank is no ASCII character. -/
theorem isBlank_of_ascii {c : Char} (h : 0x20 < c.toNat ∧ c.toNat < 0x85) : isBlank c = false := by
  have hother {d : Char} (hd : 0x85 ≤ d.toNat) : c ≠ d := by
    rintro rfl
    omega
  have hspace : isWhiteSpace c = false := by
    simp only [isWhiteSpace, Bool.or_eq_false_iff, Bool.and_eq_false_iff, decide_eq_false_iff_not,
      beq_eq_false_iff_ne]
    omega
  simp [isBlank, hspace, hother (d := '\uFEFF') (by decide), hother (d := '\u2060') (by decide),
    hother (d := '\u200B') (by decide)]

theorem isBlank_of_isAlphanum {c : Char} (h : c.isAlphanum = true) : isBlank c = false := by
  refine isBlank_of_ascii ?_
  simp only [Char.isAlphanum, Char.isAlpha, Char.isUpper, Char.isLower, Char.isDigit,
    Bool.or_eq_true, Bool.and_eq_true, decide_eq_true_eq, UInt32.le_iff_toNat_le] at h
  have hval : c.toNat = c.val.toNat := rfl
  have hdigits : '0'.val.toNat = 48 ∧ '9'.val.toNat = 57 := ⟨rfl, rfl⟩
  have hlarge : 'A'.val.toNat = 65 ∧ 'Z'.val.toNat = 90 := ⟨rfl, rfl⟩
  have hsmall : 'a'.val.toNat = 97 ∧ 'z'.val.toNat = 122 := ⟨rfl, rfl⟩
  omega

theorem isBlank_of_isIdentifierPart {c : Char} (h : Lexeme.isIdentifierPart c = true) :
    isBlank c = false := by
  simp only [Lexeme.isIdentifierPart, Bool.or_eq_true, beq_iff_eq, or_assoc] at h
  rcases h with h | rfl | rfl
  · exact isBlank_of_isAlphanum h
  · decide
  · decide

/-- Whether a text is over or a line ends in front of it. -/
def EndsLine (cs : List Char) : Prop := ∀ c ∈ cs.head?, isLineTerminator c = true

namespace Lexeme
variable {ctx : Context} {c : Char} {cs rest : List Char}

theorem number_solid {text : List Char} {missing : Option Nat} (hopens : opensNumber c cs = true)
    (h : ofNumber (c :: cs) = .number text missing) (split : c :: cs = text ++ rest) :
    ∀ d ∈ text.getLast?, isBlank d = false := by
  intro d hd
  obtain ⟨front, rfl⟩ := List.getLast?_eq_some_iff.mp hd
  refine Bool.eq_false_iff.mpr fun hblank => ?_
  have hword : d.isAlphanum = false := by
    refine Bool.eq_false_iff.mpr fun halnum => ?_
    rw [isBlank_of_isAlphanum halnum] at hblank
    cases hblank
  have hends : EndNumbers [d] := by
    refine List.forall_mem_singleton.mpr ⟨hword, fun hmem => ?_⟩
    simp only [List.mem_cons, List.not_mem_nil, or_false] at hmem
    rcases hmem with rfl | rfl | rfl | rfl <;> exact absurd hblank (by decide)
  have hdigit : ∀ e ∈ [d], e.isDigit = false := by
    rw [Char.isAlphanum, Bool.or_eq_false_iff] at hword
    exact List.forall_mem_singleton.mpr hword.2
  have hhalts : Halts [d] (d :: rest) := by simp [Halts]
  rw [List.append_assoc, List.singleton_append] at split
  cases front with
  | nil =>
    obtain ⟨rfl, rfl⟩ := List.cons.inj split
    simp only [opensNumber, hdigit _ (List.mem_singleton_self _), Bool.false_or, Bool.and_eq_true,
      decide_eq_true_eq] at hopens
    rw [hopens.1] at hblank
    exact absurd hblank (by decide)
  | cons e front =>
    rw [List.cons_append] at split
    obtain ⟨rfl, rfl⟩ := List.cons.inj split
    have hopens' : opensNumber c front = true := by
      rw [← hopens, opensNumber, opensNumber, head?_any_append hhalts hdigit]
    have hsame : ofNumber (c :: front ++ d :: rest) = ofNumber (c :: front) :=
      ofNumber_append hends hhalts (List.cons_ne_nil _ _)
    have hle := (ofNumber_heads hopens').front.length_le
    rw [← hsame, List.cons_append, h, text] at hle
    simp at hle

theorem string_solid {mark : Punctuation} {ps : List Piece} {closed : Bool}
    (hquote : quote? c = some mark) (h : pieces c cs [] = (ps, closed))
    (split : c :: cs = (Lexeme.string mark ps closed).text ++ rest) :
    (∀ d ∈ (Lexeme.string mark ps closed).text.getLast?, isBlank d = false) ∨ EndsLine rest := by
  obtain ⟨hspelling, _⟩ := quote_spelling hquote
  cases closed with
  | true =>
    left
    have hsolid : isBlank c = false := by
      unfold quote? at hquote
      split at hquote <;> first | decide | cases hquote
    have hlast : (Lexeme.string mark ps true).text = (c :: ps.flatMap Piece.text) ++ [c] := by
      simp [text, hspelling]
    intro d hd
    rw [hlast, List.getLast?_concat] at hd
    obtain rfl := Option.some.inj hd
    exact hsolid
  | false =>
    right
    have hbody := stringBody c cs
    rw [h, ← List.append_nil (ps, false).1] at hbody
    obtain ⟨back, hsplit, hback⟩ := hbody.split
    have hcs : cs = ps.flatMap Piece.text ++ rest := by simpa [text, hspelling] using split
    obtain rfl : back = rest := List.append_cancel_left (hsplit.symm.trans hcs)
    cases hback with
    | ended line =>
      intro d hd
      rcases line d hd with rfl | rfl <;> decide

theorem regex_solid {pattern flags : List Char} {closed : Bool}
    (h : ofRegex cs = .regex pattern flags closed)
    (split : '/' :: cs = (Lexeme.regex pattern flags closed).text ++ rest) :
    (∀ d ∈ (Lexeme.regex pattern flags closed).text.getLast?, isBlank d = false) ∨
      EndsLine rest := by
  simp only [ofRegex, Lexeme.regex.injEq] at h
  obtain ⟨rfl, hflags, hclosed⟩ := h
  cases closed with
  | true =>
    left
    intro d hd
    rw [text, if_pos rfl, List.getLast?_append_of_ne_nil _ (List.cons_ne_nil _ _)] at hd
    rcases List.mem_cons.mp (List.mem_of_getLast? hd) with rfl | hd
    · decide
    · rw [← hflags, if_pos hclosed] at hd
      have hlower : d.isLower = true := List.mem_takeWhile_imp hd
      exact isBlank_of_isAlphanum (by simp [Char.isAlphanum, Char.isAlpha, hlower])
  | false =>
    right
    obtain ⟨front, back, hsplit, htaken, hline⟩ := regexBody_open hclosed
    have hcs : cs = front ++ rest := by simpa [text, htaken] using split
    obtain rfl := List.append_cancel_left (hsplit.symm.trans hcs)
    intro d hd
    rw [Option.mem_def.mp hd] at hline
    simpa using hline

/-- A token in code ends with no blank, unless it is a literal that the end of a line cuts short. -/
theorem ofCode_solid (split : c :: cs = (ofCode ctx c cs).text ++ rest)
    (htoken : (ofCode ctx c cs).tokenKind? 0 ≠ none) :
    (∀ d ∈ (ofCode ctx c cs).text.getLast?, isBlank d = false) ∨ EndsLine rest := by
  have hscanned := scannedAt_ofCode ctx c cs
  rcases ofCode_cases ctx c cs with h | h | ⟨_, _, _, h⟩ | ⟨_, _, h⟩ | ⟨_, h⟩ | ⟨_, _, _, h⟩ |
    ⟨_, _, _, h⟩ | h
  · rw [h] at htoken
    exact absurd rfl htoken
  · rw [h] at htoken
    exact absurd rfl htoken
  · rw [h] at htoken
    exact absurd rfl htoken
  · rw [h] at split hscanned ⊢
    exact .inl (number_solid hscanned.1 hscanned.2 split)
  · rw [h, text_ofWord]
    exact .inl fun d hd => isBlank_of_isIdentifierPart (List.mem_takeWhile_imp (List.mem_of_getLast? hd))
  · rw [h] at split hscanned ⊢
    exact string_solid hscanned.1 hscanned.2 split
  · rw [h] at split hscanned ⊢
    obtain ⟨rfl, hregex⟩ := hscanned
    exact regex_solid hregex split
  · have hsymbols : symbols.all (·.text.getLast?.all (!isBlank ·)) = true := by decide +kernel
    have hlast := List.all_eq_true.mp hsymbols _ (mem_symbols h)
    refine .inl fun d hd => ?_
    rw [Option.mem_def.mp hd] at hlast
    simpa using hlast

/-- The same of any token outside of template text. -/
theorem first_solid {l : Lexeme} (hread : first ctx c cs = l) (split : c :: cs = l.text ++ rest)
    (htoken : l.tokenKind? 0 ≠ none) (hcode : ¬InTemplate (ctx.after l).modes) :
    (∀ d ∈ l.text.getLast?, isBlank d = false) ∨ EndsLine rest := by
  by_cases hmode : ∃ modes, ctx.modes = .template :: modes
  · obtain ⟨modes, hmode⟩ := hmode
    have hplain (hplain : ∀ mark, l ≠ .punctuation mark) : InTemplate (ctx.after l).modes := by
      rw [Context.after_of_plain ctx hplain, InTemplate, hmode]
      rfl
    have hread : ofTemplate c cs = l := by rw [← hread, first, hmode]
    subst hread
    refine .inl ?_
    rcases ofTemplate_cases c cs with h | h | ⟨_, _, h⟩ | ⟨_, h⟩
    · rw [h]
      simp [text, Punctuation.spelling, isBlank, isWhiteSpace]
    · rw [h]
      simp [text, Punctuation.spelling, isBlank, isWhiteSpace]
    · exact absurd (hplain (by simp [h])) hcode
    · exact absurd (hplain (by simp [h])) hcode
  · rw [first_code fun modes h => hmode ⟨modes, h⟩] at hread
    subst hread
    exact ofCode_solid split htoken

end Lexeme

/-! ### The flag -/

theorem EndsLine.of_append {a b : List Char} (ha : ∀ c ∈ a, isLineTerminator c = false)
    (h : EndsLine (a ++ b)) : EndsLine b := by
  cases a with
  | nil => exact h
  | cons c a =>
    have hline := h c rfl
    rw [ha c (List.mem_cons_self ..)] at hline
    cases hline

/-- A line starts behind whatever is no token as it does in front of it, or because a line ends in it. -/
theorem lineStart_of_plain {ctx : Context} {l : Lexeme} (hregular : l.Regular)
    (h : l.tokenKind? 0 = none) :
    (ctx.after l).lineStart = (ctx.lineStart || l.text.any isLineTerminator) := by
  cases l with
  | blank c => simp [Context.after, Context.lineStartAfter, Lexeme.text]
  | comment kind text closed => rfl
  | unexpected c =>
    have hsolid := isLineTerminator_of_solid hregular
    simp [Context.after, Context.lineStartAfter, Lexeme.text, hsolid]
  | keyword | identifier | number | operator | loose | punctuation | string | regex | templateChars
  | templateEscape => cases h

/-- Two spans around one character are not apart. -/
theorem Span.not_apart {a b : Span} {c : Char} {offset : Nat}
    (ha : a.contains (charSpan c offset) = true) (hb : b.contains (charSpan c offset) = true) :
    ¬a.Apart b := by
  have hpos := c.utf8Size_pos
  rw [Span.contains, Bool.and_eq_true, decide_eq_true_eq, decide_eq_true_eq] at ha hb
  simp only [charSpan] at ha hb
  rw [Span.Apart]
  omega

/-- Two beginnings of one text with as many bytes are the same. -/
theorem eq_of_byteLength {a b a' b' : List Char} (h : a ++ b = a' ++ b')
    (hlength : byteLength a = byteLength a') : a = a' := by
  have htake (a b : List Char) : takeBytes (byteLength a) (a ++ b) = a := by
    rw [← Nat.add_zero (byteLength a), takeBytes_append, takeBytes_zero, List.append_nil]
  rw [← htake a b, h, hlength, htake]

namespace Lexes
variable {ctx : Context} {ls before after : List Lexeme}

/-- Where no line ends, none starts. -/
theorem lineStart_false (hstart : ctx.lineStart = false) (hregular : ∀ l ∈ ls, l.Regular)
    (hline : ∀ c ∈ ls.flatMap Lexeme.text, isLineTerminator c = false) :
    (context ctx ls).lineStart = false := by
  induction ls generalizing ctx with
  | nil => exact hstart
  | cons l ls ih =>
    rw [List.flatMap_cons, List.forall_mem_append] at hline
    rw [List.forall_mem_cons] at hregular
    refine ih ?_ hregular.2 hline.2
    by_cases htoken : l.tokenKind? 0 = none
    · rw [lineStart_of_plain hregular.1 htoken, hstart, Bool.false_or, List.any_eq_false]
      simpa using hline.1
    · exact lineStart_of_token htoken

/-- Where no line starts, a token has been read on it. -/
theorem exists_lastToken (hstart : ctx.lineStart = true) (hregular : ∀ l ∈ ls, l.Regular)
    (h : (context ctx ls).lineStart = false) : ∃ front l back, ls = front ++ l :: back ∧
      l.tokenKind? 0 ≠ none ∧ (∀ m ∈ back, m.tokenKind? 0 = none) ∧
      ∀ c ∈ back.flatMap Lexeme.text, isLineTerminator c = false := by
  induction ls using List.reverseRecOn with
  | nil =>
    rw [context, List.foldl_nil, hstart] at h
    cases h
  | append_singleton ls l ih =>
    rw [List.forall_mem_append, List.forall_mem_singleton] at hregular
    rw [context_concat] at h
    by_cases htoken : l.tokenKind? 0 = none
    · rw [lineStart_of_plain hregular.2 htoken, Bool.or_eq_false_iff] at h
      obtain ⟨front, m, back, rfl, hm, hback, hline⟩ := ih hregular.1 h.1
      refine ⟨front, m, back ++ [l], by simp, hm, ?_, ?_⟩
      · exact List.forall_mem_append.mpr ⟨hback, List.forall_mem_singleton.mpr htoken⟩
      · rw [List.flatMap_append, List.flatMap_singleton]
        exact List.forall_mem_append.mpr ⟨hline, by simpa using h.2⟩
    · exact ⟨ls, l, [], rfl, htoken, List.forall_mem_nil _, List.forall_mem_nil _⟩

/-- Only tokens open and close templates. -/
theorem modes_of_plain (h : ∀ l ∈ ls, l.tokenKind? 0 = none) : (context ctx ls).modes = ctx.modes := by
  induction ls generalizing ctx with
  | nil => rfl
  | cons l ls ih =>
    obtain ⟨hl, hls⟩ := List.forall_mem_cons.mp h
    refine (ih hls).trans ?_
    rw [ctx.after_of_plain]
    rintro mark rfl
    cases hl

/-- What the lexer tells of a character that is in no token. -/
theorem leads_of_plain {source : String} {last : Context} (h : Lexes {} source.toList ls last)
    {p : Placed} (hp : p ∈ placeFrom 0 ls) (hnone : p.token? = none) {text more : List Char} {c : Char}
    (htext : p.lexeme.text = text ++ c :: more) : isBlank c = true ∨
      (∃ comment ∈ (lex source).comments.toList,
        comment.span.contains (charSpan c (p.start + byteLength text)) = true) ∨
      stray c (p.start + byteLength text) ∈ (lex source).problems.toList := by
  have hsingle {d : Char} (hd : p.lexeme.text = [d]) : text = [] ∧ c = d := by
    rw [hd] at htext
    cases text with
    | nil => exact ⟨rfl, (List.cons.inj htext).1.symm⟩
    | cons e text => simp at htext
  rcases p.cases with ⟨t, ht⟩ | ⟨comment, hcomment⟩ | ⟨d, hd⟩ | ⟨d, hd⟩
  · rw [hnone] at ht
    cases ht
  · refine .inr (.inl ⟨comment, ?_, ?_⟩)
    · rw [lex, h.comments]
      exact List.mem_filterMap.mpr ⟨p, hp, hcomment⟩
    · rw [Placed.comment?_span hcomment]
      exact Placed.contains_charSpan htext
  · obtain ⟨rfl, rfl⟩ := hsingle (by rw [hd]; rfl)
    have hregular := (h.standsIn p hp).regular
    rw [hd] at hregular
    exact .inl hregular
  · obtain ⟨rfl, rfl⟩ := hsingle (by rw [hd]; rfl)
    refine .inr (.inr ?_)
    rw [lex, h.problems]
    refine List.mem_append_left _ (List.mem_flatMap.mpr ⟨p, hp, ?_⟩)
    rw [Placed.problems, hd]
    exact List.mem_singleton_self _

/-- A line that is at its start has nothing to read yet. -/
theorem leadsLine {source : String} {last : Context} (h : Lexes {} source.toList (before ++ after) last)
    (hstart : (context {} before).lineStart = true) :
    (lex source).LeadsLine (before.flatMap Lexeme.text) := by
  intro front c behind hfront hline
  obtain ⟨p, hp, text, more, htext, hoffset⟩ := @placeFrom_covers 0 _ _ _ _ hfront.symm
  rw [Nat.zero_add] at hoffset
  have hmem : p ∈ placeFrom 0 (before ++ after) := by
    rw [placeFrom_append]
    exact List.mem_append_left _ hp
  rw [hoffset]
  refine h.leads_of_plain hmem ?_ htext
  -- A token on the line would have taken its start away, and no line has ended since.
  by_contra htoken
  have hkind : p.lexeme.tokenKind? 0 ≠ none := fun hnone => htoken (by
    rw [Placed.token?, Lexeme.token?, Lexeme.tokenKind?_eq_none hnone]
    rfl)
  obtain ⟨as, bs, rfl, hplace⟩ := mem_placeFrom hp
  rw [Nat.zero_add] at hplace
  have hsplit : (as.flatMap Lexeme.text ++ text) ++ (c :: more ++ bs.flatMap Lexeme.text) =
      front ++ c :: behind := by
    rw [← hfront, List.flatMap_append, List.flatMap_cons, htext]
    simp
  have hsame : as.flatMap Lexeme.text ++ text = front :=
    eq_of_byteLength hsplit (by rw [byteLength_append, ← hplace, hoffset])
  rw [hsame] at hsplit
  have hbehind : c :: more ++ bs.flatMap Lexeme.text = c :: behind := List.append_cancel_left hsplit
  have hend : (context {} (as ++ p.lexeme :: bs)).lineStart = false := by
    rw [context, List.foldl_append, List.foldl_cons]
    refine lineStart_false (lineStart_of_token hkind) (fun l hl => h.regular l (by simp [hl])) ?_
    exact fun d hd => hline d (hbehind ▸ List.mem_append_right _ hd)
  rw [hstart] at hend
  cases hend

/-- The characters of a token are in no comment, and no report of a stray one is about them. -/
theorem clear_of_token {source : String} {last : Context} {l : Lexeme}
    (h : Lexes {} source.toList (before ++ l :: after) last) (hl : l.tokenKind? 0 ≠ none)
    {text more : List Char} {c : Char} (htext : l.text = text ++ c :: more) :
    (∀ comment ∈ (lex source).comments.toList, comment.span.contains
      (charSpan c (byteLength (before.flatMap Lexeme.text ++ text))) = false) ∧
    stray c (byteLength (before.flatMap Lexeme.text ++ text)) ∉ (lex source).problems.toList := by
  generalize hp : Placed.mk (byteLength (before.flatMap Lexeme.text)) l = p
  obtain ⟨t, htoken⟩ : ∃ t, p.token? = some t := by
    obtain ⟨kind, hkind⟩ := Option.ne_none_iff_exists'.mp fun hnone =>
      hl (@Lexeme.tokenKind?_eq_none l p.start 0 hnone)
    subst hp
    exact ⟨_, congrArg (Option.map _) hkind⟩
  have ht : t ∈ (lex source).tokens.toList := by
    rw [lex, h.tokens, placeFrom_append, Nat.zero_add]
    refine List.mem_append_left _ (List.mem_filterMap.mpr ⟨p, List.mem_append_right _ ?_, htoken⟩)
    rw [placeFrom, hp]
    exact List.mem_cons_self ..
  have hcontains : t.span.contains
      (charSpan c (byteLength (before.flatMap Lexeme.text ++ text))) = true := by
    rw [Placed.token?_span htoken, byteLength_append]
    subst hp
    exact Placed.contains_charSpan htext
  constructor
  · intro comment hcomment
    refine Bool.eq_false_iff.mpr fun hcovers => ?_
    exact Span.not_apart hcovers hcontains ((lex_partitions source).apart comment hcomment t ht)
  · intro hstray
    have hstrays := (lex_partitions source).strays _ (List.mem_filter.mpr ⟨hstray, rfl⟩)
    exact Span.not_apart (by simp [stray, Span.contains]) hcontains (hstrays.2.1 t ht)

/-- **Outside of template text the flag tells of all the text behind the last line terminator.** -/
theorem lineStart_iff {source : String} {last : Context}
    (h : Lexes {} source.toList (before ++ after) last) (hcode : ¬InTemplate (context {} before).modes)
    (hnext : ¬EndsLine (after.flatMap Lexeme.text)) :
    (context {} before).lineStart = true ↔ (lex source).LeadsLine (before.flatMap Lexeme.text) := by
  refine ⟨h.leadsLine, fun hleads => ?_⟩
  by_contra hstart
  obtain ⟨as, l, bs, rfl, hl, hbs, hline⟩ := exists_lastToken rfl
    (fun l hl => h.regular l (List.mem_append_left _ hl)) (Bool.eq_false_of_not_eq_true hstart)
  rw [context, List.foldl_append, List.foldl_cons] at hcode
  change ¬InTemplate (context ((context {} as).after l) bs).modes at hcode
  rw [modes_of_plain hbs] at hcode
  rw [List.append_assoc, List.cons_append] at h
  obtain ⟨text, htext, hback⟩ := h.split
  cases hback with
  | cons first split below =>
    rcases Lexeme.first_solid first split hl hcode with hsolid | hends
    · -- The last character of the token is no blank and in nothing else.
      obtain ⟨front, c, hlast⟩ : ∃ front c, l.text = front ++ [c] :=
        ⟨_, _, (List.dropLast_concat_getLast (h.nonempty l (by simp))).symm⟩
      have hblank : isBlank c = false := hsolid c (by rw [hlast]; simp)
      obtain ⟨hcomments, hstray⟩ := h.clear_of_token hl hlast
      rcases hleads (as.flatMap Lexeme.text ++ front) c (bs.flatMap Lexeme.text) (by simp [hlast])
        (List.forall_mem_cons.mpr ⟨isLineTerminator_of_solid hblank, hline⟩) with
        hspace | ⟨comment, hcomment, hcontains⟩ | hproblem
      · rw [hblank] at hspace
        cases hspace
      · rw [hcomments comment hcomment] at hcontains
        cases hcontains
      · exact hstray hproblem
    · rw [← below.text, List.flatMap_append] at hends
      exact hnext (hends.of_append hline)

/-- The lexeme that is reached at an offset. -/
theorem reached {source : String} {last : Context} (h : Lexes {} source.toList ls last)
    {front back : List Char} {c : Char} (hsource : source.toList = front ++ c :: back)
    (hreached : (lex source).Reaches (byteLength front)) : ∃ before l after, ls = before ++ l :: after ∧
      before.flatMap Lexeme.text = front ∧ (∀ text, l ≠ .templateChars text) ∧
      Lexeme.first (context {} before) c back = l ∧
      c :: back = l.text ++ after.flatMap Lexeme.text := by
  obtain ⟨p, hp, hstart, hplain⟩ : ∃ p ∈ placeFrom 0 ls, p.start = byteLength front ∧
      ∀ text, p.lexeme ≠ .templateChars text := by
    rcases hreached with ⟨t, ht, hstart, hchars, _⟩ | ⟨comment, hcomment, hstart⟩
    · rw [lex, h.tokens] at ht
      rcases List.mem_append.mp ht with ht | ht
      · obtain ⟨p, hp, ht⟩ := List.mem_filterMap.mp ht
        refine ⟨p, hp, by rw [← hstart, Placed.token?_span ht]; rfl, fun text htext => ?_⟩
        rw [Placed.token?, htext] at ht
        obtain rfl := Option.some.inj ht
        exact hchars rfl
      · -- The end of the file is behind the character.
        rw [List.mem_singleton.mp ht, hsource, byteLength_append, byteLength_cons] at hstart
        have hpos := c.utf8Size_pos
        simp only [Span.empty] at hstart
        omega
    · rw [lex, h.comments] at hcomment
      obtain ⟨p, hp, hcomment⟩ := List.mem_filterMap.mp hcomment
      refine ⟨p, hp, by rw [← hstart, Placed.comment?_span hcomment]; rfl, fun text htext => ?_⟩
      rw [Placed.comment?, htext] at hcomment
      cases hcomment
  obtain ⟨before, after, rfl, hplace⟩ := mem_placeFrom hp
  rw [Nat.zero_add, hstart] at hplace
  obtain ⟨text, htext, hback⟩ := h.split
  have hfront : front = before.flatMap Lexeme.text := eq_of_byteLength (hsource.symm.trans htext) hplace
  rw [hsource, hfront] at htext
  obtain rfl := List.append_cancel_left htext
  cases hback with
  | cons first split below => exact ⟨before, p.lexeme, after, rfl, hfront.symm, hplain, first,
      by rw [below.text]; exact split⟩

end Lexes

/-! ### The mark -/

/-- **The mark `-->` begins a comment where its line has nothing to read in front of it**, up to the
next line terminator. -/
theorem lex_closing_comment {source : String} {front back : List Char}
    (hsource : source.toList = front ++ "-->".toList ++ back)
    (hreached : (lex source).Reaches (byteLength front)) :
    (⟨.html, ⟨byteLength front, byteLength front + 3 +
        byteLength (back.takeWhile (!isLineTerminator ·))⟩⟩ : Comment) ∈ (lex source).comments.toList ↔
      (lex source).LeadsLine front := by
  obtain ⟨ls, last, h⟩ := Lexes.total {} source.toList
  have hsource : source.toList = front ++ '-' :: ('-' :: '>' :: back) := by
    rw [hsource, List.append_assoc]
    rfl
  obtain ⟨before, l, after, rfl, rfl, hplain, hread, split⟩ := h.reached hsource hreached
  have hcode : ∀ modes, (Lexes.context {} before).modes ≠ .template :: modes := by
    intro modes hmodes
    rw [Lexeme.first, hmodes] at hread
    exact hplain _ hread.symm
  have hnext : ¬EndsLine ((l :: after).flatMap Lexeme.text) := by
    rw [List.flatMap_cons, ← split]
    exact fun hends => absurd (hends '-' rfl) (by decide)
  have hplaced : ⟨byteLength (before.flatMap Lexeme.text), l⟩ ∈ placeFrom 0 (before ++ l :: after) := by
    rw [placeFrom_append, Nat.zero_add]
    exact List.mem_append_right _ (List.mem_cons_self ..)
  rw [Lexeme.first_code hcode] at hread
  rw [← h.lineStart_iff (fun hmode => ?_) hnext]
  · cases hline : (Lexes.context {} before).lineStart with
    | true =>
      obtain rfl : l = .comment .html ("-->".toList ++ back.takeWhile (!isLineTerminator ·)) true := by
        rw [← hread]
        simp [Lexeme.ofCode, hline, isBlank, isWhiteSpace, List.isPrefixOf, Lexeme.ofLineComment,
          isLineTerminator]
      refine iff_of_true ?_ rfl
      rw [lex, h.comments]
      refine List.mem_filterMap.mpr ⟨_, hplaced, ?_⟩
      have hmark : byteLength "-->".toList = 3 := by decide
      simp only [Placed.comment?, Lexeme.comment?, Lexeme.span, Lexeme.size, Lexeme.text,
        byteLength_append, hmark, Nat.add_assoc]
    | false =>
      obtain rfl : l = .operator .decrement := by
        rw [← hread]
        simp [Lexeme.ofCode, hline, isBlank, isWhiteSpace, Lexeme.isIdentifierStart, Lexeme.quote?,
          Char.isDigit, Char.isAlpha, Char.isUpper, Char.isLower, Lexeme.ofSymbol?, Lexeme.ofSign,
          List.isPrefixOf]
      refine iff_of_false (fun hcomment => ?_) (by simp)
      -- Two minus signs are a token, and no comment starts with a token.
      have htoken : ⟨.operator .decrement, ⟨byteLength (before.flatMap Lexeme.text),
          byteLength (before.flatMap Lexeme.text) + 2⟩⟩ ∈ (lex source).tokens.toList := by
        rw [lex, h.tokens]
        exact List.mem_append_left _ (List.mem_filterMap.mpr ⟨_, hplaced, rfl⟩)
      have hclear := comment_clear hcomment htoken
      simp only at hclear
      omega
  · obtain ⟨modes, hmodes⟩ := List.head?_eq_some_iff.mp hmode
    exact hcode modes hmodes

/-- A comment in front of the mark leaves its line to it. -/
theorem lex_closing_comment_behind_comment : (lex "a\n/* */ --> x").Reaches 8 ∧
    (⟨.html, ⟨8, 13⟩⟩ : Comment) ∈ (lex "a\n/* */ --> x").comments.toList ∧
    (lex "a\n/* */ --> x").LeadsLine "a\n/* */ ".toList := by
  have hcomment : (⟨.html, ⟨8, 13⟩⟩ : Comment) ∈ (lex "a\n/* */ --> x").comments.toList := by
    decide +kernel
  have hreached : (lex "a\n/* */ --> x").Reaches 8 := .inr ⟨_, hcomment, rfl⟩
  exact ⟨hreached, hcomment,
    (@lex_closing_comment "a\n/* */ --> x" "a\n/* */ ".toList " x".toList rfl hreached).mp hcomment⟩

/-- Behind a dollar sign, which is no blank and in no comment, the mark begins a comment too. -/
theorem lex_stray_closing_comment : (lex "$ --> x").Reaches 2 ∧
    (⟨.html, ⟨2, 7⟩⟩ : Comment) ∈ (lex "$ --> x").comments.toList ∧ isBlank '$' = false ∧
    ∀ comment ∈ (lex "$ --> x").comments.toList, comment.span.contains (charSpan '$' 0) = false := by
  have hcomments : (lex "$ --> x").comments.toList = [⟨.html, ⟨2, 7⟩⟩] := by decide +kernel
  rw [hcomments]
  exact ⟨.inr ⟨⟨.html, ⟨2, 7⟩⟩, by rw [hcomments]; exact List.mem_singleton_self _, rfl⟩,
    List.mem_singleton_self _, by decide, by decide⟩

end ScriptTree
