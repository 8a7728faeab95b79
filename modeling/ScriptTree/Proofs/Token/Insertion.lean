import Mathlib
import ScriptTree.Proofs.Text.Bytes
import ScriptTree.Proofs.Token.Contexts
import ScriptTree.Proofs.Token.Joining
import ScriptTree.Proofs.Token.Streaming
import ScriptTree.Proofs.Token.Truncation

/-! Sources with a mark put in.

A semicolon or a closing brace that is put in behind a token, outside of template text, is a token of
its own and leaves all other lexemes what they are, if no slash follows that divides (`lex_inserted`). -/
namespace ScriptTree

open Nesting (InTemplate)

/-! ### Lexemes up to a mark -/

namespace Lexeme

/-- The marks that are put in. -/
def isCloser (mark : Punctuation) : Bool := mark == .semicolon || mark == .rightBrace

theorem first_closer {mark : Punctuation} (hmark : isCloser mark = true) : ∃ c,
    mark.spelling.toList = [c] ∧ c ∈ stops ∧ c.utf8Size = 1 ∧ ∀ {ctx : Context},
      ¬InTemplate ctx.modes → ∀ cs, first ctx c cs = .punctuation mark := by
  have hsymbol {c : Char} (hsingle : ∀ l ∈ symbols, l.text.head? = some c → l.text = [c])
      (cs : List Char) : ofSymbol? [c] = ofSymbol? (c :: cs) := by
    refine @ofSymbol?_cut [c] cs (List.cons_ne_nil _ _) fun l hl => ?_
    have hheads := ofSymbol?_heads hl
    obtain ⟨more, htext⟩ := hheads.text_cons
    rw [hsingle l (mem_symbols hl) (by rw [htext]; rfl)]
    simp
  have hcode {ctx : Context} (h : ¬InTemplate ctx.modes) (c : Char) (cs : List Char) :
      first ctx c cs = ofCode ctx c cs :=
    first_code (fun modes hmodes => h (by rw [InTemplate, hmodes]; rfl)) c cs
  have hmark : mark = .semicolon ∨ mark = .rightBrace := by simpa [isCloser] using hmark
  rcases hmark with rfl | rfl
  · refine ⟨';', rfl, by decide, by decide, fun h cs => ?_⟩
    have hfound : ofSymbol? (';' :: cs) = some (.punctuation .semicolon) := by
      rw [← hsymbol (by decide) cs]
      decide +kernel
    have hblank : isBlank ';' = false := by decide
    rw [hcode h]
    simp [ofCode, hblank, isIdentifierStart, quote?, hfound]
  · refine ⟨'\x7d', rfl, by decide, by decide, fun h cs => ?_⟩
    have hfound : ofSymbol? ('\x7d' :: cs) = some (.punctuation .rightBrace) := by
      rw [← hsymbol (by decide) cs]
      decide +kernel
    have hblank : isBlank '\x7d' = false := by decide
    rw [hcode h]
    simp [ofCode, hblank, isIdentifierStart, quote?, hfound]

/-- In code, a dollar sign alone is no token, and a point alone is the mark. -/
theorem ofCode_lone {ctx : Context} {c : Char} {cs : List Char}
    (htoken : (ofCode ctx c cs).tokenKind? 0 ≠ none) : (ofCode ctx c cs).text ≠ ['$'] ∧
      ((ofCode ctx c cs).text = ['.'] → ofCode ctx c cs = .punctuation .dot) := by
  have hsymbols : ∀ l ∈ symbols, l.text ≠ ['$'] ∧ (l.text = ['.'] → l = .punctuation .dot) := by
    decide
  have hcode (hsymbol : ofCode ctx c cs = (ofSymbol? (c :: cs)).getD (.unexpected c)) :
      (ofCode ctx c cs).text ≠ ['$'] ∧
        ((ofCode ctx c cs).text = ['.'] → ofCode ctx c cs = .punctuation .dot) := by
    rw [hsymbol] at htoken ⊢
    cases hfound : ofSymbol? (c :: cs) with
    | none =>
      rw [hfound] at htoken
      exact absurd rfl htoken
    | some l => exact hsymbols l (mem_symbols hfound)
  obtain ⟨front, htext⟩ := (ofCode_heads ctx c cs).text_cons
  by_cases hdollar : c = '$'
  · subst hdollar
    refine hcode ?_
    have hblank : isBlank '$' = false := by decide
    simp [ofCode, hblank, isIdentifierStart, quote?]
  by_cases hpoint : c = '.'
  · subst hpoint
    have hblank : isBlank '.' = false := by decide
    cases cs with
    | nil =>
      refine hcode ?_
      simp [ofCode, hblank, isIdentifierStart, quote?]
    | cons d cs =>
      cases hdigit : d.isDigit with
      | false =>
        refine hcode ?_
        simp [ofCode, hblank, hdigit, isIdentifierStart, quote?]
      | true =>
        have hnumber : ofCode ctx '.' (d :: cs) = ofNumber ('.' :: d :: cs) := by
          simp [ofCode, hblank, hdigit]
        have hlong := @two_le_ofNumber d cs hdigit
        rw [hnumber]
        constructor <;> intro h <;> simp [h] at hlong
  · rw [htext]
    simp [hdollar, hpoint]

theorem tokenKind?_eq_none {l : Lexeme} {start start' : Nat} (h : l.tokenKind? start = none) :
    l.tokenKind? start' = none := by
  cases l <;> first | rfl | cases h

end Lexeme

namespace Lexes
variable {ctx last : Context} {cs : List Char} {before after : List Lexeme}

theorem eq_singleton {ls : List Lexeme} {d : Char} (hls : ∀ l ∈ ls, l.text ≠ [])
    (h : ls.flatMap Lexeme.text = [d]) : ∃ l, ls = [l] ∧ l.text = [d] := by
  cases ls with
  | nil => cases h
  | cons l ls =>
    obtain ⟨hl, hls⟩ := List.forall_mem_cons.mp hls
    obtain ⟨c, text, htext⟩ := List.exists_cons_of_ne_nil hl
    rw [List.flatMap_cons, htext, List.cons_append] at h
    obtain ⟨rfl, hrest⟩ := List.cons.inj h
    obtain ⟨rfl, hnone⟩ := List.append_eq_nil_iff.mp hrest
    cases ls with
    | nil => exact ⟨l, rfl, htext⟩
    | cons m ls => exact absurd (List.append_eq_nil_iff.mp hnone).1 (hls m (List.mem_cons_self ..))

/-- A text may be exchanged behind a token that does not lead into template text. -/
theorem exchange {back more : List Char} {ms : List Lexeme} {final : Context}
    (h : Lexes ctx (before.flatMap Lexeme.text ++ back) (before ++ after) last)
    (hclean : ∀ l ∈ before, ∃ start, l.problems start = [])
    (hlast : ∀ l ∈ before.getLast?, l.tokenKind? 0 ≠ none ∧ l.text ≠ ['.'] ∧ l.text ≠ ['$'])
    (hout : ¬InTemplate (context ctx before).modes) (hmore : Lexeme.Halts Lexeme.stops more)
    (hrest : Lexes (context ctx before) more ms final) :
    Lexes ctx (before.flatMap Lexeme.text ++ more) (before ++ ms) final := by
  induction before generalizing ctx with
  | nil => exact hrest
  | cons l before ih =>
    generalize hcs : (l :: before).flatMap Lexeme.text ++ back = cs at h
    cases h with
    | @cons _ _ c cs rest _ _ first split below =>
      obtain ⟨⟨start, hl⟩, hclean⟩ := List.forall_mem_cons.mp hclean
      have hnonempty : ∀ m ∈ before, m.text ≠ [] := fun m hm =>
        below.nonempty m (List.mem_append_left _ hm)
      have hbelow : ∀ m ∈ before.getLast?, m ∈ (l :: before).getLast? := fun m hm => by
        rw [List.getLast?_cons, Option.mem_def.mp hm]
        rfl
      rw [List.flatMap_cons, List.append_assoc, split] at hcs
      obtain rfl := List.append_cancel_left hcs
      obtain ⟨front, htext⟩ := (first ▸ Lexeme.first_heads ctx c cs).text_cons
      rw [htext, List.cons_append] at split
      obtain rfl := (List.cons.inj split).2
      rw [List.flatMap_cons, htext, List.cons_append, List.cons_append, List.append_assoc]
      refine .cons ?_ (by rw [htext, List.cons_append])
        (ih below hclean (fun m hm => hlast m (hbelow m hm)) hout hrest)
      rw [← first] at htext hl
      rw [Lexeme.first_exchange htext hl hmore, first]
      -- What is left of the lexemes, if it is a single character, is the last one.
      · intro hbehind
        obtain ⟨m, rfl, hm⟩ := eq_singleton hnonempty hbehind
        exact (hlast m rfl).2.1 hm
      · intro hbehind
        obtain ⟨m, rfl, hm⟩ := eq_singleton hnonempty hbehind
        exact (hlast m rfl).2.2 hm
      · intro hbehind
        obtain rfl : before = [] := by
          cases before with
          | nil => rfl
          | cons m before =>
            exact absurd (List.append_eq_nil_iff.mp hbehind).1 (hnonempty m (List.mem_cons_self ..))
        rw [first]
        exact ⟨fun hnone => (hlast l rfl).1 (Lexeme.tokenKind?_eq_none hnone), hout⟩

/-! ### Lexemes behind a mark -/

/-- Whether the first token among lexemes, if there is one, does not begin with a slash. -/
def Settles (ls : List Lexeme) : Prop :=
  ∀ l ∈ ls.find? (fun l => (l.tokenKind? 0).isSome), l.text.head? ≠ some '/'

theorem first_ended {modes : List Mode} {lineStart ended : Bool} {c : Char} {cs : List Char}
    {l : Lexeme} (ended' : Bool) (h : Lexeme.first ⟨modes, lineStart, ended⟩ c cs = l)
    (hslash : c = '/' → l.tokenKind? 0 = none) :
    Lexeme.first ⟨modes, lineStart, ended'⟩ c cs = l := by
  by_cases hmode : ∃ below, modes = .template :: below
  · obtain ⟨below, rfl⟩ := hmode
    exact h
  have hcode : ∀ below, modes ≠ .template :: below := fun below h => hmode ⟨below, h⟩
  rw [Lexeme.first_code hcode] at h ⊢
  unfold Lexeme.ofCode at h ⊢
  by_cases hc : c = '/'
  · subst hc
    have hslash := hslash rfl
    have hblank : isBlank '/' = false := by decide
    simp only [hblank, Bool.false_eq_true, if_false, if_true, Lexeme.ofSlash_eq] at h ⊢
    split at h
    · rw [if_pos ‹_›]
      exact h
    split at h
    · rw [if_neg ‹_›, if_pos ‹_›]
      exact h
    -- Any other slash is a token.
    have hall : ∀ l ∈ Lexeme.symbols, l.tokenKind? 0 ≠ none := by decide
    split at h
    · subst h
      cases hsymbol : Lexeme.ofSymbol? ('/' :: cs) with
      | none =>
        rw [hsymbol] at hslash
        cases hslash
      | some l =>
        rw [hsymbol] at hslash
        exact absurd hslash (hall l (Lexeme.mem_symbols hsymbol))
    · subst h
      cases hslash
  · simpa only [hc, if_false] using h

/-- Whether an operand has ended matters to a slash only. -/
theorem operand {modes : List Mode} {lineStart ended : Bool} (ended' : Bool)
    (h : Lexes ⟨modes, lineStart, ended⟩ cs after last) (hsettles : Settles after) :
    ∃ last', Lexes ⟨modes, lineStart, ended'⟩ cs after last' ∧ last'.modes = last.modes := by
  generalize hctx : (⟨modes, lineStart, ended⟩ : Context) = ctx at h
  induction h generalizing modes lineStart ended with
  | nil =>
    subst hctx
    exact ⟨_, .nil, rfl⟩
  | @cons _ last c cs rest l ls first split below ih =>
    subst hctx
    unfold Settles at hsettles
    rw [List.find?_cons] at hsettles
    cases hkind : l.tokenKind? 0 with
    | none =>
      rw [hkind] at hsettles
      have hends : l.endsOperand? = none := by rw [Lexeme.endsOperand?, hkind]; rfl
      obtain ⟨last', hbelow, hmodes⟩ := @ih (Context.modesAfter modes l)
        (Context.lineStartAfter lineStart l) ended hsettles (by rw [Context.after, hends]; rfl)
      refine ⟨last', .cons (first_ended ended' first fun _ => hkind) split ?_, hmodes⟩
      rw [Context.after, hends]
      exact hbelow
    | some kind =>
      rw [hkind] at hsettles
      have hslash : c ≠ '/' := by
        rintro rfl
        obtain ⟨front, htext⟩ := (first ▸ Lexeme.first_heads _ '/' cs).text_cons
        exact hsettles l rfl (by rw [htext]; rfl)
      refine ⟨last, .cons (first_ended ended' first fun hc => absurd hc hslash) split ?_, rfl⟩
      have hends : l.endsOperand? = some kind.endsOperand := by rw [Lexeme.endsOperand?, hkind]; rfl
      rw [Context.after, hends] at below ⊢
      exact below

/-- A mark put in behind a token leaves all other lexemes what they are. -/
theorem inserted {mark : Punctuation} {back : List Char}
    (h : Lexes ctx (before.flatMap Lexeme.text ++ back) (before ++ after) last)
    (hclean : ∀ l ∈ before, ∃ start, l.problems start = [])
    (hlast : ∀ l ∈ before.getLast?, l.tokenKind? 0 ≠ none ∧ l.text ≠ ['.'] ∧ l.text ≠ ['$'])
    (hout : ¬InTemplate (context ctx before).modes) (hmark : Lexeme.isCloser mark = true)
    (hmodes : Context.modesAfter (context ctx before).modes (.punctuation mark) =
      (context ctx before).modes) (hline : (context ctx before).lineStart = false)
    (hsettles : (context ctx before).operandEnd = (TokenKind.punctuation mark).endsOperand ∨
      Settles after) :
    ∃ last', Lexes ctx (before.flatMap Lexeme.text ++ (mark.spelling.toList ++ back))
        (before ++ .punctuation mark :: after) last' ∧ last'.modes = last.modes := by
  obtain ⟨c, hspelling, hstops, _, hfirst⟩ := Lexeme.first_closer hmark
  obtain ⟨back', hback, hafter⟩ := h.split
  obtain rfl := List.append_cancel_left hback
  have hmid : (context ctx before).after (.punctuation mark) =
      ⟨(context ctx before).modes, (context ctx before).lineStart,
        (TokenKind.punctuation mark).endsOperand⟩ := by
    rw [Context.after, hmodes, hline]
    rfl
  obtain ⟨last', hbelow, hmodes⟩ : ∃ last', Lexes ((context ctx before).after (.punctuation mark))
      back after last' ∧ last'.modes = last.modes := by
    rw [hmid]
    rcases hsettles with hsettles | hsettles
    · rw [← hsettles]
      exact ⟨last, hafter, rfl⟩
    · exact hafter.operand _ hsettles
  refine ⟨last', h.exchange hclean hlast hout ?_ ?_, hmodes⟩
  · rw [hspelling]
    rintro d ⟨⟩
    exact hstops
  · rw [hspelling]
    exact .cons (hfirst hout back) (by rw [Lexeme.text, hspelling]; rfl) hbelow

theorem first_slash {ctx : Context} {cs : List Char} {l : Lexeme} (hout : ¬InTemplate ctx.modes)
    (h : Lexeme.first ctx '/' cs = l) : Lexeme.ofSlash ctx.operandEnd cs = l := by
  have hblank : isBlank '/' = false := by decide
  rw [Lexeme.first_code (fun modes hmodes => hout (by rw [InTemplate, hmodes]; rfl))] at h
  simpa only [Lexeme.ofCode, hblank, Bool.false_eq_true, if_false, if_true] using h

theorem ofSlash_divides {cs : List Char} {l : Lexeme} (h : Lexeme.ofSlash true cs = l) :
    l.tokenKind? 0 = none ∨ l = .operator .divide ∨ l = .operator .divideAssign := by
  have hall : ∀ l ∈ Lexeme.symbols, l.text.head? = some '/' →
      l = .operator .divide ∨ l = .operator .divideAssign := by decide
  rw [Lexeme.ofSlash_eq] at h
  split at h
  · exact .inl (by rw [← h]; rfl)
  split at h
  · refine .inl ?_
    rw [← h]
    rfl
  rw [if_pos rfl] at h
  cases hsymbol : Lexeme.ofSymbol? ('/' :: cs) with
  | none =>
    rw [hsymbol] at h
    exact .inr (.inl h.symm)
  | some m =>
    rw [hsymbol] at h
    obtain rfl : m = l := h
    obtain ⟨front, htext⟩ := (Lexeme.ofSymbol?_heads hsymbol).text_cons
    exact .inr (hall m (Lexeme.mem_symbols hsymbol) (by rw [htext]; rfl))

/-- Behind an operand, a slash that is no division begins a comment. -/
theorem settles {modes : List Mode} {lineStart : Bool} (h : Lexes ⟨modes, lineStart, true⟩ cs after last)
    (hout : ¬InTemplate modes) (start : Nat) (hnext : ∀ t ∈ (Nesting.tokensFrom start after).head?,
      t.kind ≠ .operator .divide ∧ t.kind ≠ .operator .divideAssign) : Settles after := by
  generalize hctx : (⟨modes, lineStart, true⟩ : Context) = ctx at h
  induction h generalizing modes lineStart start with
  | nil => simp [Settles]
  | @cons _ last c cs rest l ls first split below ih =>
    subst hctx
    rw [Nesting.tokensFrom_cons] at hnext
    unfold Settles
    rw [List.find?_cons]
    cases hkind : l.tokenKind? 0 with
    | none =>
      have hplain : ∀ mark, l ≠ .punctuation mark := by
        rintro mark rfl
        cases hkind
      have hends : l.endsOperand? = none := by rw [Lexeme.endsOperand?, hkind]; rfl
      rw [Lexeme.token?, Lexeme.tokenKind?_eq_none hkind] at hnext
      refine @ih modes (Context.lineStartAfter lineStart l) hout (start + l.size) hnext ?_
      rw [Context.after_of_plain _ hplain, hends]
      rfl
    | some kind =>
      rintro _ ⟨⟩ hslash
      obtain ⟨front, htext⟩ := (first ▸ Lexeme.first_heads _ c cs).text_cons
      rw [htext] at hslash
      cases hslash
      rcases ofSlash_divides (first_slash hout first) with hcomment | rfl | rfl
      · rw [hcomment] at hkind
        cases hkind
      · exact (hnext _ rfl).1 rfl
      · exact (hnext _ rfl).2 rfl

/-- A token of one character that does not lead into template text is no dollar sign, and if it is a
point, then the mark. -/
theorem first_lone {ctx : Context} {c : Char} {cs : List Char} {l : Lexeme}
    (h : Lexeme.first ctx c cs = l) (htoken : l.tokenKind? 0 ≠ none)
    (hout : ¬InTemplate (ctx.after l).modes) :
    l.text ≠ ['$'] ∧ (l.text = ['.'] → l = .punctuation .dot) := by
  have hheads := h ▸ Lexeme.first_heads ctx c cs
  by_cases hmode : ∃ modes, ctx.modes = .template :: modes
  · obtain ⟨modes, hmode⟩ := hmode
    have hinside (hmark : ∀ mark, l ≠ .punctuation mark) : False := by
      refine hout ?_
      show (Context.modesAfter ctx.modes l).head? = _
      rw [Context.modesAfter_of_plain hmark, hmode]
      rfl
    have hl : Lexeme.ofTemplate c cs = l := by rw [← h, Lexeme.first, hmode]
    rcases Lexeme.ofTemplate_cases c cs with hcase | hcase | ⟨_, _, hcase⟩ | ⟨_, hcase⟩ <;>
      obtain rfl := hcase.symm.trans hl
    · exact ⟨by decide, fun h => absurd h (by decide)⟩
    · exact ⟨by decide, fun h => absurd h (by decide)⟩
    · exact (hinside (by simp)).elim
    · exact (hinside (by simp)).elim
  · rw [Lexeme.first_code fun modes h => hmode ⟨modes, h⟩] at h
    subst h
    exact Lexeme.ofCode_lone htoken

theorem settles_of_none {start : Nat} (h : Nesting.tokensFrom start after = []) : Settles after := by
  induction after generalizing start with
  | nil => simp [Settles]
  | cons l ls ih =>
    rw [Nesting.tokensFrom_cons, List.append_eq_nil_iff] at h
    have htoken : l.tokenKind? start = none := by
      have hnone := h.1
      rw [Lexeme.token?] at hnone
      cases hkind : l.tokenKind? start with
      | none => rfl
      | some kind =>
        rw [hkind] at hnone
        cases hnone
    have := ih h.2
    unfold Settles at this ⊢
    rwa [List.find?_cons_of_neg (by rw [Lexeme.tokenKind?_eq_none htoken]; simp)]

/-- A text without problems is one whose lexemes have none. -/
theorem clean {ls : List Lexeme} (h : Lexes {} cs ls last) (hproblems : (lexChars cs).problems = #[]) :
    (placeFrom 0 ls).flatMap Placed.problems = [] := by
  have hnone := h.problems
  rw [hproblems] at hnone
  exact (List.append_eq_nil_iff.mp hnone.symm).1

end Lexes

/-! ### Sources -/

/-- The edit that puts in a mark at an offset. -/
def insertion (mark : Punctuation) (offset : Nat) : Edit := ⟨.empty offset, mark.spelling.toList⟩

theorem toList_insertion {a b : List Char} {source : String} (h : a ++ b = source.toList)
    (mark : Punctuation) : (edited source [insertion mark (byteLength a)]).toList =
      a ++ (mark.spelling.toList ++ b) := by
  have hhere := @applyEdits_here (byteLength a) [] b [] mark.spelling.toList
  rw [edited, String.toList_ofList, ← h, applyEdits_gap]
  · rw [Nat.zero_add]
    exact congrArg (a ++ ·) hhere
  · rintro _ ⟨⟩
    exact ⟨(Nat.zero_add _).le, le_rfl⟩

theorem lineStart_of_token {ctx : Context} {l : Lexeme} (h : l.tokenKind? 0 ≠ none) :
    (ctx.after l).lineStart = false := by
  cases l <;> first | rfl | exact absurd rfl h

theorem Lexes.context_concat (ctx : Context) (ls : List Lexeme) (l : Lexeme) :
    context ctx (ls ++ [l]) = (context ctx ls).after l := by
  rw [context, List.foldl_append]
  rfl

/-- What a closing mark opens and closes in code. -/
theorem modesAfter_closer {mark : Punctuation} {modes : List Mode}
    (hmark : mark = .semicolon ∨ mark = .rightBrace ∧ modes = []) :
    Context.modesAfter modes (.punctuation mark) = modes := by
  rcases hmark with rfl | ⟨rfl, rfl⟩
  · exact by cases modes with
    | nil => rfl
    | cons mode modes => cases mode <;> rfl
  · rfl

/-! ### Lexemes around a mark -/

section Around
variable {mark : Punctuation} {before after : List Lexeme} {l : Lexeme} {t : Token}
  {front back : List Token} {last : Context} {source : String}

/-- What is known of a lexeme that a token is read from. -/
theorem of_token? {start : Nat} (h : l.token? start = some t) :
    l.tokenKind? 0 ≠ none ∧ l.endsOperand? = some t.kind.endsOperand ∧
      t.span = ⟨start, start + l.size⟩ := by
  obtain ⟨kind, hkind, rfl⟩ := Option.map_eq_some_iff.mp h
  refine ⟨fun hnone => ?_, ?_, rfl⟩
  · rw [Lexeme.tokenKind?_eq_none hnone] at hkind
    cases hkind
  · rw [l.endsOperand?_eq start, Lexeme.token?, hkind]
    rfl

theorem problems_of_clean {ls : List Lexeme} {start : Nat}
    (h : (placeFrom start ls).flatMap Placed.problems = []) : ∀ l ∈ ls, ∃ offset, l.problems offset = [] := by
  intro l hl
  obtain ⟨before, after, rfl⟩ := List.append_of_mem hl
  rw [placeFrom_append] at h
  exact ⟨_, List.flatMap_eq_nil_iff.mp h ⟨_, l⟩ (List.mem_append_right _ (List.mem_cons_self ..))⟩

/-- The lexemes of a source up to a token and behind it. -/
theorem Lexes.around_token {ls : List Lexeme} (h : Lexes {} source.toList ls last)
    (htokens : Nesting.tokensFrom 0 ls = front ++ t :: back) : ∃ before l after,
      ls = before ++ [l] ++ after ∧ t.span = ⟨byteLength (before.flatMap Lexeme.text),
        byteLength ((before ++ [l]).flatMap Lexeme.text)⟩ ∧
      l.token? t.span.start = some t ∧ Nesting.tokensFrom 0 (before ++ [l]) = front ++ [t] ∧
      Nesting.tokensFrom t.span.stop after = back ∧
      Nesting.run [] (front ++ [t]) = some (context {} (before ++ [l])).modes := by
  obtain ⟨before, l, after, rfl, hbefore, htoken, hafter⟩ := tokensFrom_split htokens
  rw [Nat.zero_add] at htoken hafter
  rw [show before ++ l :: after = before ++ [l] ++ after by simp] at h
  have hspan : t.span = ⟨byteLength (before.flatMap Lexeme.text),
      byteLength ((before ++ [l]).flatMap Lexeme.text)⟩ := by
    rw [(of_token? htoken).2.2, List.flatMap_append, byteLength_append, List.flatMap_singleton]
    rfl
  have hupto : Nesting.tokensFrom 0 (before ++ [l]) = front ++ [t] := by
    rw [Nesting.tokensFrom, placeFrom_append, List.filterMap_append, ← hbefore, Nat.zero_add]
    refine congrArg _ ?_
    simp [placeFrom, Placed.token?, htoken]
  refine ⟨before, l, after, by simp, hspan, by rw [hspan]; exact htoken, hupto,
    by rw [hspan]; exact hafter, ?_⟩
  rw [← hupto]
  exact h.run_context 0

/-- A token that does not lead into template text is no dollar sign, and no point but the mark. -/
theorem Lexes.not_lone (h : Lexes {} source.toList (before ++ [l] ++ after) last) {start : Nat}
    (htoken : l.token? start = some t) (hdot : t.kind ≠ .punctuation .dot)
    (hout : ¬InTemplate (context {} (before ++ [l])).modes) : l.text ≠ ['.'] ∧ l.text ≠ ['$'] := by
  rw [List.append_assoc] at h
  obtain ⟨_, _, hback⟩ := h.split
  rw [context_concat] at hout
  cases hback with
  | cons first =>
    obtain ⟨hdollar, hpoint⟩ := first_lone first (of_token? htoken).1 hout
    refine ⟨fun htext => ?_, hdollar⟩
    obtain rfl := hpoint htext
    obtain rfl := Option.some.inj htoken
    exact hdot rfl

/-- What the lexemes around a mark are found to be, in front of it and behind it. -/
theorem placeFrom_inserted (hmark : Lexeme.isCloser mark = true) (before after : List Lexeme) :
    placeFrom 0 (before ++ .punctuation mark :: after) = placeFrom 0 before ++
      ⟨byteLength (before.flatMap Lexeme.text), .punctuation mark⟩ ::
        placeFrom (byteLength (before.flatMap Lexeme.text) + 1) after := by
  obtain ⟨c, hspelling, _, hsize, _⟩ := Lexeme.first_closer hmark
  rw [placeFrom_append, Nat.zero_add, placeFrom, Lexeme.size, Lexeme.text, hspelling]
  simp [byteLength, hsize]

/-- The lexer reads a mark that is put in behind a token, and all else as before. -/
theorem Lexes.with_mark (h : Lexes {} source.toList (before ++ [l] ++ after) last)
    (hclean : (placeFrom 0 (before ++ [l] ++ after)).flatMap Placed.problems = [])
    {start : Nat} (htoken : l.token? start = some t) (hdot : t.kind ≠ .punctuation .dot)
    (hout : ¬InTemplate (context {} (before ++ [l])).modes)
    {stop : Nat} (hmark : mark = .semicolon ∧ (t.kind.endsOperand = true →
        ∀ u ∈ (Nesting.tokensFrom stop after).head?,
          u.kind ≠ .operator .divide ∧ u.kind ≠ .operator .divideAssign) ∨
      mark = .rightBrace ∧ Nesting.tokensFrom stop after = [] ∧
        (context {} (before ++ [l])).modes = []) :
    ∃ last', Lexes {} (edited source
        [insertion mark (byteLength ((before ++ [l]).flatMap Lexeme.text))]).toList
        (before ++ [l] ++ .punctuation mark :: after) last' ∧ last'.modes = last.modes := by
  obtain ⟨hkind, hends, _⟩ := of_token? htoken
  obtain ⟨back, htext, hback⟩ := h.split
  have hoperand : (context {} (before ++ [l])).operandEnd = t.kind.endsOperand := by
    rw [context_concat]
    show l.endsOperand?.getD _ = _
    rw [hends]
    rfl
  have hline : (context {} (before ++ [l])).lineStart = false := by
    rw [context_concat]
    exact lineStart_of_token hkind
  have hcloser : Lexeme.isCloser mark = true := by
    rcases hmark with ⟨rfl, _⟩ | ⟨rfl, _⟩ <;> rfl
  rw [toList_insertion htext.symm]
  rw [htext] at h
  refine h.inserted (fun m hm => ?_) (fun m hm => ?_) hout hcloser (modesAfter_closer ?_) hline ?_
  · exact problems_of_clean hclean m (List.mem_append_left _ hm)
  · obtain rfl : l = m := by simpa using hm
    exact ⟨hkind, (htext ▸ h : Lexes {} source.toList _ last).not_lone htoken hdot hout⟩
  · exact hmark.imp And.left fun h => ⟨h.1, h.2.2⟩
  · rcases hmark with ⟨rfl, hdivision⟩ | ⟨rfl, hnone, _⟩
    · cases hend : t.kind.endsOperand with
      | false => exact .inl (hoperand.trans hend)
      | true =>
        have hcontext : context {} (before ++ [l]) = ⟨_, _, true⟩ :=
          congrArg (Context.mk _ _) (hoperand.trans hend)
        rw [hcontext] at hback
        exact .inr (hback.settles hout stop (hdivision hend))
    · exact .inr (settles_of_none hnone)

end Around

/-! ### The source -/

/-- **A mark put in behind a token changes nothing else**: the tokens and comments behind it are one
byte further on, and all others stay. -/
theorem lex_inserted {source : String} {mark : Punctuation} {front back : List Token} {t u : Token}
    {stack : List Mode} (hproblems : (lex source).problems = #[])
    (htokens : (lex source).tokens.toList = front ++ t :: u :: back)
    (hstack : Nesting.run [] (front ++ [t]) = some stack)
    (hout : u.kind = .endOfFile ∨ ¬InTemplate stack) (hdot : t.kind ≠ .punctuation .dot)
    (hdivision : u.kind = .operator .divide ∨ u.kind = .operator .divideAssign →
      t.kind.endsOperand = false)
    (hmark : mark = .semicolon ∨ mark = .rightBrace ∧ u.kind = .endOfFile) :
    (lex (edited source [insertion mark t.span.stop])).tokens.toList = front ++ t ::
        ⟨.punctuation mark, ⟨t.span.stop, t.span.stop + 1⟩⟩ ::
          (u :: back).map (Token.relocate Nat.succ) ∧
      (∃ a b, (lex source).comments.toList = a ++ b ∧ (∀ c ∈ a, c.span.stop ≤ t.span.start) ∧
        (∀ c ∈ b, t.span.stop ≤ c.span.start) ∧
        (lex (edited source [insertion mark t.span.stop])).comments.toList =
          a ++ b.map (Comment.relocate Nat.succ)) ∧
      (lex (edited source [insertion mark t.span.stop])).problems = #[] := by
  obtain ⟨ls, last, h⟩ := Lexes.total {} source.toList
  have hclean := h.clean hproblems
  obtain ⟨_, hlast⟩ := h.closed hproblems
  obtain ⟨more, stop, hmore⟩ : ∃ more, ∃ stop, u :: back = more ++ [stop] :=
    ⟨_, _, (List.dropLast_concat_getLast (List.cons_ne_nil u back)).symm⟩
  rw [hmore] at htokens ⊢
  have hsplit : Nesting.tokensFrom 0 ls ++ [⟨.endOfFile, .empty (byteLength source.toList)⟩] =
      (front ++ t :: more) ++ [stop] := by
    rw [List.append_assoc, List.cons_append, ← htokens]
    exact h.tokens.symm
  obtain ⟨hls, hstop⟩ := List.append_inj' hsplit rfl
  obtain rfl := List.singleton_inj.mp hstop
  obtain ⟨before, l, after, rfl, hspan, htoken, hupto, hafter, hrun⟩ := h.around_token hls
  obtain rfl := Option.some.inj (hrun.symm.trans hstack)
  have hfirst : ∀ v ∈ more.head?, v = u := fun v hv => by
    obtain ⟨more, rfl⟩ := List.head?_eq_some_iff.mp hv
    exact (List.cons.inj hmore).1.symm
  -- In front of the end, nothing is open.
  have hend (hnext : u.kind = .endOfFile) :
      more = [] ∧ (Lexes.context {} (before ++ [l])).modes = [] := by
    obtain rfl : more = [] := by
      cases more with
      | nil => rfl
      | cons v more =>
        obtain rfl := hfirst v rfl
        have hv : v ∈ Nesting.tokensFrom t.span.stop after := hafter ▸ List.mem_cons_self ..
        obtain ⟨p, _, hp⟩ := List.mem_filterMap.mp hv
        exact absurd hnext (Placed.StandsIn.kind_ne_endOfFile hp)
    refine ⟨rfl, ?_⟩
    have hall : Nesting.run [] _ = _ := Nesting.run_lexes h 0
    rw [hls, hlast] at hall
    exact Option.some.inj (hstack.symm.trans hall)
  have hout : ¬InTemplate (Lexes.context {} (before ++ [l])).modes := by
    refine hout.elim (fun hnext => ?_) id
    rw [(hend hnext).2]
    exact nofun
  have hwritten : mark = .semicolon ∧ (t.kind.endsOperand = true →
        ∀ v ∈ (Nesting.tokensFrom t.span.stop after).head?,
          v.kind ≠ .operator .divide ∧ v.kind ≠ .operator .divideAssign) ∨
      mark = .rightBrace ∧ Nesting.tokensFrom t.span.stop after = [] ∧
        (Lexes.context {} (before ++ [l])).modes = [] := by
    rw [hafter]
    refine hmark.imp (fun hmark => ⟨hmark, fun hends v hv => ?_⟩) fun ⟨hmark, hnext⟩ =>
      ⟨hmark, hend hnext⟩
    rw [← hfirst v hv, hends] at hdivision
    exact not_or.mp fun h => Bool.noConfusion (hdivision h)
  obtain ⟨last', h', hmodes⟩ := h.with_mark hclean htoken hdot hout hwritten
  have hcloser : Lexeme.isCloser mark = true := by
    rcases hmark with rfl | ⟨rfl, _⟩ <;> rfl
  obtain ⟨c, hspelling, _, hwidth, _⟩ := Lexeme.first_closer hcloser
  have hoffset : t.span.stop = byteLength ((before ++ [l]).flatMap Lexeme.text) := by rw [hspan]
  rw [← hoffset] at h'
  have hitems := placeFrom_inserted hcloser (before ++ [l]) after
  have hitems' := placeFrom_append 0 (before ++ [l]) after
  rw [Nat.zero_add] at hitems'
  rw [← hoffset] at hitems hitems'
  obtain ⟨htokens', hcomments', hproblems'⟩ := @placeFrom_elsewhere Nat.succ after t.span.stop
    (t.span.stop + 1) (fun part _ => by rw [respell_self]; omega)
    fun m hm => h.regular m (List.mem_append_right _ hm)
  have hlength : byteLength (edited source [insertion mark t.span.stop]).toList =
      byteLength source.toList + 1 := by
    obtain ⟨text, htext, _⟩ := h.split
    rw [hoffset, toList_insertion htext.symm, htext, hspelling]
    simp only [byteLength_append, byteLength_cons, hwidth, List.singleton_append]
    omega
  rw [hitems', List.flatMap_append, List.append_eq_nil_iff] at hclean
  refine ⟨?_, ⟨(placeFrom 0 (before ++ [l])).filterMap Placed.comment?,
    (placeFrom t.span.stop after).filterMap Placed.comment?, ?_, fun c hc => ?_, fun c hc => ?_, ?_⟩, ?_⟩
  · have hmark : Placed.token? ⟨t.span.stop, .punctuation mark⟩ =
        some ⟨.punctuation mark, ⟨t.span.stop, t.span.stop + 1⟩⟩ := by
      show some (Token.mk _ ⟨_, _ + byteLength mark.spelling.toList⟩) = _
      rw [hspelling, byteLength_cons, hwidth]
      rfl
    have hstop : Token.relocate Nat.succ ⟨.endOfFile, .empty (byteLength source.toList)⟩ =
        ⟨.endOfFile, .empty (byteLength source.toList + 1)⟩ := rfl
    rw [lex, h'.tokens, hitems, hlength, List.filterMap_append, List.filterMap_cons, hmark, htokens',
      List.map_append, List.map_singleton, hstop, ← hafter]
    simp only [Nesting.tokensFrom] at hupto ⊢
    rw [hupto]
    simp
  · rw [lex, h.comments, hitems', List.filterMap_append]
  · obtain ⟨p, hp, hcomment⟩ := List.mem_filterMap.mp hc
    rw [placeFrom_append, Nat.zero_add] at hp
    rcases List.mem_append.mp hp with hp | hp
    · obtain ⟨front, back, rfl, hstart⟩ := mem_placeFrom hp
      rw [Placed.comment?_span hcomment, hspan, List.flatMap_append, List.flatMap_cons]
      simp only [byteLength_append, ← Nat.add_assoc]
      rw [Nat.zero_add] at hstart
      rw [← hstart]
      exact Nat.le_add_right _ _
    · obtain rfl := List.mem_singleton.mp hp
      have hnone := Placed.token?_of_comment? hcomment
      rw [hspan] at htoken
      cases htoken.symm.trans hnone
  · obtain ⟨p, hp, hc⟩ := List.mem_filterMap.mp hc
    obtain ⟨_, _, _, hstart⟩ := mem_placeFrom hp
    rw [Placed.comment?_span hc]
    exact (Nat.le_add_right _ _).trans_eq hstart.symm
  · rw [lex, h'.comments, hitems, List.filterMap_append, List.filterMap_cons, hcomments']
    rfl
  · rw [← Array.toList_eq_nil_iff, lex, h'.problems, hitems, hmodes, hlast, List.flatMap_append,
      List.flatMap_cons, hclean.1, hproblems', hclean.2]
    rfl

end ScriptTree
