import Mathlib
import ScriptTree.Proofs.Token.Contexts
import ScriptTree.Proofs.Token.Truncation
import ScriptTree.Proofs.Token.Within

/-! Tokens with a space between them.

A lexeme is firm if it is read again in front of any text that halts what is read (`Lexeme.Firm`). With
spaces between them, firm lexemes are read one by one (`Lexeme.lexes_spaced`). Where nothing is wrong,
every token in code is firm (`Lexeme.firm_first`): no token ends in the middle of what a space would
allow, and no two of them with a space between them open a comment. So a source without templates keeps
its tokens when the gaps between them are made single spaces (`lex_respaced`). -/
namespace ScriptTree

namespace Lexeme

/-! ### Lexemes with spaces between them -/

/-- The text of lexemes with a space between them. -/
def spaced (ls : List Lexeme) : List Char := (ls.intersperse (.blank ' ')).flatMap text

theorem halts_space (back : List Char) : Halts stops (' ' :: back) := by
  intro c hc
  cases hc
  exact List.mem_cons_self ..

theorem halts_nil : Halts stops [] := nofun

/-- Whether a lexeme is read as code in front of any text that halts, wherever in the line it stands. -/
structure Firm (operandEnd : Bool) (l : Lexeme) : Prop where
  again : ∀ lineStart back, Halts stops back →
    ∃ c cs, l.text = c :: cs ∧ ofCode ⟨[], lineStart, operandEnd⟩ c (cs ++ back) = l
  /-- No template is opened. -/
  level : Context.modesAfter [] l = []

/-- Whether each of the lexemes is firm behind those in front of it. -/
def AllFirm (operandEnd : Bool) : List Lexeme → Prop
  | [] => True
  | l :: ls => l.Firm operandEnd ∧ AllFirm (l.endsOperand?.getD operandEnd) ls

theorem lexes_spaced {ls : List Lexeme} {operandEnd : Bool} (h : AllFirm operandEnd ls)
    (ctx : Context) (hmodes : ctx.modes = []) (hoperand : ctx.operandEnd = operandEnd) :
    ∃ last, last.modes = [] ∧ Lexes ctx (spaced ls) (ls.intersperse (.blank ' ')) last := by
  induction ls generalizing ctx operandEnd with
  | nil => exact ⟨ctx, hmodes, .nil⟩
  | cons l ls ih =>
    obtain ⟨hl, hls⟩ := h
    have hafter : (ctx.after l).modes = [] := by rw [Context.after, hmodes, hl.level]
    have hctx : ctx = ⟨[], ctx.lineStart, operandEnd⟩ := by rw [← hmodes, ← hoperand]
    have hcode (ctx : Context) (h : ctx.modes = []) (c : Char) (cs : List Char) :
        first ctx c cs = ofCode ctx c cs := first_code (by simp [h]) c cs
    cases ls with
    | nil =>
      obtain ⟨c, cs, htext, hread⟩ := hl.again ctx.lineStart [] halts_nil
      rw [← hctx, List.append_nil, ← hcode ctx hmodes] at hread
      refine ⟨ctx.after l, hafter, ?_⟩
      rw [spaced, List.intersperse_singleton, List.flatMap_singleton, htext]
      exact .cons hread (by rw [htext, List.append_nil]) .nil
    | cons m ls =>
      have hspace : ((ctx.after l).after (.blank ' ')).modes = [] := by
        rw [Context.after, hafter]
        rfl
      have hbehind : ((ctx.after l).after (.blank ' ')).operandEnd = l.endsOperand?.getD operandEnd :=
        hoperand ▸ rfl
      obtain ⟨last, hlast, hbelow⟩ := ih hls _ hspace hbehind
      obtain ⟨c, cs, htext, hread⟩ := hl.again ctx.lineStart _ (halts_space (spaced (m :: ls)))
      rw [← hctx, ← hcode ctx hmodes] at hread
      refine ⟨last, hlast, ?_⟩
      have hspaced : spaced (l :: m :: ls) = c :: (cs ++ ' ' :: spaced (m :: ls)) := by
        rw [spaced, List.intersperse_cons_cons, List.flatMap_cons, List.flatMap_cons, htext]
        rfl
      rw [hspaced, List.intersperse_cons_cons]
      exact .cons hread (by rw [htext]; rfl) (.cons (hcode _ hafter ' ' _) rfl hbelow)

theorem spaced_eq_intercalate (ls : List Lexeme) : spaced ls = [' '].intercalate (ls.map text) := by
  induction ls with
  | nil => rfl
  | cons l ls ih =>
    cases ls with
    | nil => rfl
    | cons m ls =>
      rw [spaced, List.intersperse_cons_cons, List.flatMap_cons, List.flatMap_cons,
        show ((m :: ls).intersperse (.blank ' ')).flatMap text = spaced (m :: ls) from rfl, ih]
      rfl

/-! ### Tokens are firm -/

section Firm
variable {ctx : Context} {c : Char} {front rest back : List Char} {start : Nat} {kind : TokenKind}

/-- But for a closing comment mark, it does not matter where in its line a text stands. -/
theorem ofCode_lineStart {cs : List Char} (h : "-->".toList.isPrefixOf (c :: cs) = false)
    (modes : List Mode) (lineStart : Bool) :
    ofCode ⟨modes, lineStart, ctx.operandEnd⟩ c cs = ofCode ctx c cs := by
  simp only [ofCode, h, Bool.and_false]

/-- No token begins like a closing comment mark. -/
theorem not_closingMark (hread : ofCode ctx c (front ++ back) = l) (htext : l.text = c :: front)
    (hkind : l.tokenKind? start = some kind) (hback : Halts stops back) :
    "-->".toList.isPrefixOf (c :: (front ++ back)) = false := by
  refine Bool.eq_false_of_not_eq_true fun hmark => ?_
  have hmark : "-->".toList.isPrefixOf (c :: front ++ back) = true := hmark
  rw [isPrefixOf_append_of_halts hback (by simp [stops]), List.isPrefixOf_iff_prefix] at hmark
  obtain ⟨more, hmore⟩ := hmark
  obtain ⟨rfl, rfl⟩ : '-' = c ∧ '-' :: '>' :: more = front := List.cons.inj hmore
  subst hread
  -- Two minus signs are an operator, unless they begin a comment.
  cases hline : ctx.lineStart with
  | true =>
    simp [ofCode, hline, isBlank, isWhiteSpace, List.isPrefixOf, ofLineComment, tokenKind?] at hkind
  | false =>
    simp [ofCode, hline, isBlank, isWhiteSpace, isIdentifierStart, quote?, Char.isDigit, Char.isAlpha,
      Char.isUpper, Char.isLower, ofSymbol?, ofSign, List.isPrefixOf, text, Operator.spelling] at htext

/-- **Where nothing is wrong, every token in code is firm**, but for the mark of a template. -/
theorem firm_first (hmodes : ctx.modes = []) (hread : first ctx c (front ++ rest) = l)
    (htext : l.text = c :: front) (hkind : l.tokenKind? start = some kind)
    (hclean : l.problems start = []) (hplain : l ≠ .punctuation .backtick) :
    l.Firm ctx.operandEnd := by
  have hcode (cs : List Char) : first ctx c cs = ofCode ctx c cs := first_code (by simp [hmodes]) c cs
  rw [hcode] at hread
  refine ⟨fun lineStart back hback => ⟨c, front, htext, ?_⟩, ?_⟩
  · have hsame : ofCode ctx c (front ++ back) = l := by
      rw [← hread] at htext hkind hclean
      refine (ofCode_exchange [] htext hclean hback (by simp) ?_).trans hread
      intro _ kind' text closed hcomment
      have hkind : (ofCode ctx c (front ++ rest)).tokenKind? start = some kind := hkind
      rw [show ofCode ctx c (front ++ rest) = _ from hcomment] at hkind
      cases hkind
    rw [ofCode_lineStart (not_closingMark hsame htext hkind hback)]
    exact hsame
  · by_cases hmark : ∃ mark, l = .punctuation mark
    · obtain ⟨mark, rfl⟩ := hmark
      have hpart := Nesting.isTemplatePart_ofCode ctx c (front ++ rest)
      rw [hread] at hpart
      cases mark <;> first | rfl | (cases hpart; done) | exact absurd rfl hplain
    · exact Context.modesAfter_of_plain (fun mark h => hmark ⟨mark, h⟩) []

end Firm

/-- Whether the lexeme is a token. -/
def isToken (l : Lexeme) : Bool := (l.tokenKind? 0).isSome

theorem isSome_tokenKind? (l : Lexeme) (start : Nat) : (l.tokenKind? start).isSome = l.isToken := by
  cases l <;> rfl

end Lexeme

theorem Lexes.allFirm {ctx last : Context} {cs : List Char} {ls : List Lexeme}
    (h : Lexes ctx cs ls last) (hmodes : ctx.modes = []) {start : Nat}
    (hclean : (placeFrom start ls).flatMap Placed.problems = [])
    (hplain : ∀ l ∈ ls, l ≠ .punctuation .backtick) :
    Lexeme.AllFirm ctx.operandEnd (ls.filter Lexeme.isToken) := by
  induction h generalizing start with
  | nil => trivial
  | @cons ctx last c cs rest l ls first split below ih =>
    obtain ⟨hl, hplain⟩ := List.forall_mem_cons.mp hplain
    rw [placeFrom, List.flatMap_cons, List.append_eq_nil_iff] at hclean
    have hkind := l.isSome_tokenKind? start
    cases htoken : l.isToken with
    | false =>
      rw [List.filter_cons_of_neg (by simp [htoken])]
      have hnone : l.tokenKind? 0 = none := by simpa [Lexeme.isToken] using htoken
      have hafter : ctx.after l = ⟨ctx.modes, _, _⟩ := ctx.after_of_plain (l := l) (by
        rintro mark rfl
        cases hnone)
      have hend : (ctx.after l).operandEnd = ctx.operandEnd := by
        rw [hafter, Lexeme.endsOperand?, hnone]
        rfl
      rw [← hend]
      exact ih (by rw [hafter, hmodes]) hclean.2 hplain
    | true =>
      rw [List.filter_cons_of_pos htoken]
      rw [htoken, Option.isSome_iff_exists] at hkind
      obtain ⟨kind, hkind⟩ := hkind
      obtain ⟨front, htext⟩ : ∃ front, l.text = c :: front :=
        first ▸ (Lexeme.first_heads ctx c cs).text_cons
      obtain rfl : cs = front ++ rest := by
        rw [htext] at split
        exact (List.cons.inj split).2
      have hfirm := Lexeme.firm_first hmodes first htext hkind hclean.1 hl
      exact ⟨hfirm, ih (by rw [Context.after, hmodes, hfirm.level]) hclean.2 hplain⟩

/-! ### Tokens further on -/

/-- The token with its start at an offset. -/
def Token.moveTo (t : Token) (offset : Nat) : Token := t.relocate fun n => n - t.span.start + offset

/-- Tokens one behind the other, with a byte between them and the first one at an offset. -/
def layOut (start : Nat) : List Token → List Token
  | [] => []
  | t :: ts => t.moveTo start :: layOut (start + t.span.length + 1) ts

namespace Placed
variable {p : Placed}

theorem elsewhere (hregular : p.lexeme.Regular) (hclean : p.problems = []) {t : Token}
    (htoken : p.token? = some t) (start : Nat) : p.lexeme.token? start = some (t.moveTo start) ∧
      p.lexeme.comment? start = none ∧ p.lexeme.problems start = [] := by
  have hplace : Respells ['\n'] (fun n => n - t.span.start + start) p.start start p.lexeme.text := by
    intro part _
    have hstart : t.span.start = p.start := congrArg Span.start (token?_span htoken)
    show p.start + byteLength part - t.span.start + start = _
    rw [respell_self, hstart]
    omega
  obtain ⟨hmoved, hcomment, hproblems⟩ := placed_elsewhere hplace hregular
  have hnone : p.lexeme.comment? p.start = none := by
    cases hcomment : p.lexeme.comment? p.start with
    | none => rfl
    | some comment =>
      have := token?_of_comment? (p := p) hcomment
      rw [htoken] at this
      cases this
  rw [show p.lexeme.token? p.start = some t from htoken] at hmoved
  rw [hnone] at hcomment
  rw [show p.lexeme.problems p.start = [] from hclean] at hproblems
  exact ⟨hmoved, hcomment, hproblems⟩

/-- What tokens are found to be when they are written again with spaces between them. -/
theorem placeFrom_spaced (ps : List Placed)
    (h : ∀ p ∈ ps, p.lexeme.Regular ∧ p.problems = [] ∧ ∃ t, p.token? = some t) (start : Nat) :
    let qs := placeFrom start ((ps.map lexeme).intersperse (.blank ' '))
    qs.filterMap token? = layOut start (ps.filterMap token?) ∧ qs.filterMap comment? = [] ∧
      qs.flatMap problems = [] := by
  induction ps generalizing start with
  | nil => exact ⟨rfl, rfl, rfl⟩
  | cons p ps ih =>
    obtain ⟨⟨hregular, hclean, t, htoken⟩, hps⟩ := List.forall_mem_cons.mp h
    obtain ⟨hmoved, hcomment, hproblems⟩ := elsewhere hregular hclean htoken start
    have hsize : p.lexeme.size = t.span.length := by
      rw [token?_span htoken, Span.length]
      exact (Nat.add_sub_cancel_left _ _).symm
    have hhead : (⟨start, p.lexeme⟩ : Placed).token? = some (t.moveTo start) ∧
        (⟨start, p.lexeme⟩ : Placed).comment? = none ∧ (⟨start, p.lexeme⟩ : Placed).problems = [] :=
      ⟨hmoved, hcomment, hproblems⟩
    have htokens : layOut start ((p :: ps).filterMap token?) =
        t.moveTo start :: layOut (start + p.lexeme.size + 1) (ps.filterMap token?) := by
      rw [List.filterMap_cons, htoken, layOut, hsize]
    rw [htokens]
    cases ps with
    | nil => simp [placeFrom, hhead, layOut]
    | cons q ps =>
      obtain ⟨ihtokens, ihcomments, ihproblems⟩ := ih hps (start + p.lexeme.size + 1)
      have hblank (start : Nat) : (⟨start, .blank ' '⟩ : Placed).token? = none ∧
          (⟨start, .blank ' '⟩ : Placed).comment? = none ∧
          (⟨start, .blank ' '⟩ : Placed).problems = [] := ⟨rfl, rfl, rfl⟩
      have hspace : (Lexeme.blank ' ').size = 1 := rfl
      rw [← ihtokens]
      simp only [List.map_cons, List.intersperse_cons_cons, placeFrom, List.filterMap_cons,
        List.flatMap_cons, hhead, hblank, hspace, List.nil_append, true_and]
      exact ⟨ihcomments, ihproblems⟩

end Placed

/-! ### Sources -/

/-- The tokens of a source without the end. -/
def properTokens (source : String) : List Token :=
  (lex source).tokens.toList.filter (·.kind != .endOfFile)

/-- The texts of the tokens of a source, with a space between them. -/
def respaced (source : String) : String :=
  " ".intercalate ((properTokens source).map (·.span.slice source))

section Sources
variable {source : String} {ls : List Lexeme} {last : Context}

theorem properTokens_eq (h : Lexes {} source.toList ls last) :
    properTokens source = (placeFrom 0 ls).filterMap Placed.token? := by
  rw [properTokens, lex, h.tokens, List.filter_append]
  have hproper : ((placeFrom 0 ls).filterMap Placed.token?).filter (·.kind != .endOfFile) =
      (placeFrom 0 ls).filterMap Placed.token? := by
    refine List.filter_eq_self.mpr fun t ht => ?_
    obtain ⟨p, _, htoken⟩ := List.mem_filterMap.mp ht
    simpa using Placed.StandsIn.kind_ne_endOfFile htoken
  rw [hproper]
  exact List.append_nil _

/-- The tokens among lexemes, with their places. -/
def placedTokens (ls : List Lexeme) : List Placed :=
  (placeFrom 0 ls).filter (·.lexeme.isToken)

theorem token?_of_isToken {p : Placed} (h : p.lexeme.isToken = true) : ∃ t, p.token? = some t := by
  rw [← p.lexeme.isSome_tokenKind? p.start, Option.isSome_iff_exists] at h
  obtain ⟨kind, hkind⟩ := h
  exact ⟨⟨kind, p.span⟩, by rw [Placed.token?, Lexeme.token?, hkind]; rfl⟩

theorem map_placedTokens (start : Nat) (ls : List Lexeme) :
    ((placeFrom start ls).filter (·.lexeme.isToken)).map Placed.lexeme = ls.filter Lexeme.isToken := by
  induction ls generalizing start with
  | nil => rfl
  | cons l ls ih =>
    rw [placeFrom]
    cases htoken : l.isToken <;> simp [htoken, ih]

theorem filterMap_placedTokens (ls : List Lexeme) :
    (placedTokens ls).filterMap Placed.token? = (placeFrom 0 ls).filterMap Placed.token? := by
  rw [placedTokens, List.filterMap_filter]
  refine List.filterMap_congr fun p _ => ?_
  split
  · rfl
  · rename_i h
    rw [← p.lexeme.isSome_tokenKind? p.start, Option.not_isSome_iff_eq_none] at h
    rw [Placed.token?, Lexeme.token?, h]
    rfl

/-- The tokens of a source have the texts of their lexemes. -/
theorem slices_eq {ps : List Placed} (h : ∀ p ∈ ps, p.StandsIn source ∧ ∃ t, p.token? = some t) :
    ((ps.filterMap Placed.token?).map (·.span.slice source)).map String.toList =
      (ps.map Placed.lexeme).map Lexeme.text := by
  induction ps with
  | nil => rfl
  | cons p ps ih =>
    obtain ⟨⟨hstands, t, htoken⟩, hps⟩ := List.forall_mem_cons.mp h
    have hslice : t.span.slice source = .ofList p.lexeme.text := by
      rw [Placed.token?_span htoken, hstands.slice_eq]
    rw [List.filterMap_cons, htoken]
    simp only [List.map_cons, hslice, String.toList_ofList, ih hps]

end Sources

/-- **Tokens keep what they are when the gaps between them are made single spaces**, if nothing is wrong
in the source and no template stands in it. -/
theorem lex_respaced {source : String} (hclean : (lex source).problems = #[])
    (hplain : ∀ t ∈ properTokens source, t.kind ≠ .punctuation .backtick) :
    (lex (respaced source)).problems = #[] ∧ (lex (respaced source)).comments = #[] ∧
      (lex (respaced source)).tokens.toList = layOut 0 (properTokens source) ++
        [⟨.endOfFile, .empty (respaced source).utf8ByteSize⟩] := by
  obtain ⟨ls, last, h⟩ := Lexes.total {} source.toList
  have hproblems : (placeFrom 0 ls).flatMap Placed.problems = [] := by
    have hnone := h.problems
    rw [show (lexChars source.toList).problems = #[] from hclean] at hnone
    exact (List.append_eq_nil_iff.mp hnone.symm).1
  have htokens : properTokens source = (placedTokens ls).filterMap Placed.token? := by
    rw [properTokens_eq h, filterMap_placedTokens]
  have hstands : ∀ p ∈ placedTokens ls, p ∈ placeFrom 0 ls ∧ ∃ t, p.token? = some t := by
    intro p hp
    obtain ⟨hp, htoken⟩ := List.mem_filter.mp hp
    exact ⟨hp, token?_of_isToken htoken⟩
  have hbacktick : ∀ l ∈ ls, l ≠ .punctuation .backtick := by
    rintro l hl rfl
    obtain ⟨before, after, rfl⟩ := List.append_of_mem hl
    have hmem : ∃ t ∈ properTokens source, t.kind = .punctuation .backtick := by
      rw [properTokens_eq h, placeFrom_append]
      exact ⟨_, List.mem_filterMap.mpr ⟨_, List.mem_append_right _ (List.mem_cons_self ..), rfl⟩, rfl⟩
    obtain ⟨t, ht, hkind⟩ := hmem
    exact hplain t ht hkind
  have hfirm : Lexeme.AllFirm false (ls.filter Lexeme.isToken) := h.allFirm rfl hproblems hbacktick
  rw [← map_placedTokens 0 ls, ← placedTokens] at hfirm
  obtain ⟨last', hmodes, hlexes⟩ := Lexeme.lexes_spaced hfirm {} rfl rfl
  have htext : (respaced source).toList = Lexeme.spaced ((placedTokens ls).map Placed.lexeme) := by
    rw [respaced, String.toList_intercalate, Lexeme.spaced_eq_intercalate, htokens,
      slices_eq fun p hp => ⟨h.standsIn p (hstands p hp).1, (hstands p hp).2⟩]
    rfl
  obtain ⟨hlaid, hcomments, hnone⟩ := Placed.placeFrom_spaced (placedTokens ls) (fun p hp =>
    ⟨(h.standsIn p (hstands p hp).1).regular, List.flatMap_eq_nil_iff.mp hproblems p (hstands p hp).1,
      (hstands p hp).2⟩) 0
  rw [← htext] at hlexes
  refine ⟨?_, ?_, ?_⟩
  · rw [← Array.toList_inj, lex, hlexes.problems, hmodes]
    exact List.append_eq_nil_iff.mpr ⟨hnone, rfl⟩
  · rw [← Array.toList_inj, lex, hlexes.comments]
    exact hcomments
  · rw [lex, hlexes.tokens, ← utf8ByteSize_ofList, String.ofList_toList, htokens]
    exact congrArg (· ++ _) hlaid

/-- Comments are left out, and gaps that were not there are put in. -/
theorem lex_respaced_mixed :
    let source := "a?.5:b/c;// d\n-->e\n/[/]x/g--'q\\n'1..2"
    (lex source).problems = #[] ∧
      (∀ t ∈ properTokens source, t.kind ≠ .punctuation .backtick) ∧
      respaced source = "a ? .5 : b / c ; /[/]x/g -- 'q\\n' 1 .. 2" ∧
      (lex (respaced source)).problems = #[] ∧ (lex (respaced source)).comments = #[] ∧
      (lex (respaced source)).tokens.toList = layOut 0 (properTokens source) ++
        [⟨.endOfFile, .empty (respaced source).utf8ByteSize⟩] := by
  have hclean : (lex "a?.5:b/c;// d\n-->e\n/[/]x/g--'q\\n'1..2").problems = #[] := by decide +kernel
  have hplain : ∀ t ∈ properTokens "a?.5:b/c;// d\n-->e\n/[/]x/g--'q\\n'1..2",
      t.kind ≠ .punctuation .backtick := by decide +kernel
  exact ⟨hclean, hplain, by decide +kernel, lex_respaced hclean hplain⟩

end ScriptTree
