import Mathlib
import ScriptTree.Proofs.Token.Lexing
import ScriptTree.Proofs.Token.Locality

/-! How templates nest.

`Nesting.step` is a stack machine that reads tokens: a backtick opens and closes template text, a dollar
sign with brace opens a substitution in it, and the brace that closes the substitution leads back. The
tokens of every source run through it (`lex_nesting`), and what is left on the stack at the end tells
whether a template is open. -/
namespace ScriptTree

namespace Nesting

/-! ### The machine -/

/-- The stack behind a token of this kind; none if the token may not stand there. -/
def step : List Mode → TokenKind → Option (List Mode)
  | .template :: stack, .templateChars => some (.template :: stack)
  | .template :: stack, .templateEscape => some (.template :: stack)
  | .template :: stack, .punctuation .dollarBrace => some (.substitution 0 :: .template :: stack)
  | .template :: stack, .punctuation .backtick => some stack
  | .template :: _, _ => none
  | _, .templateChars => none
  | _, .templateEscape => none
  | _, .punctuation .dollarBrace => none
  | stack, .punctuation .backtick => some (.template :: stack)
  | .substitution depth :: stack, .punctuation .leftBrace => some (.substitution (depth + 1) :: stack)
  | .substitution 0 :: stack, .punctuation .rightBrace => some stack
  | .substitution (depth + 1) :: stack, .punctuation .rightBrace => some (.substitution depth :: stack)
  | stack, _ => some stack

def run : List Mode → List Token → Option (List Mode)
  | stack, [] => some stack
  | stack, t :: tokens => (step stack t.kind).bind (run · tokens)

theorem run_append (stack : List Mode) (a b : List Token) :
    run stack (a ++ b) = (run stack a).bind (run · b) := by
  induction a generalizing stack with
  | nil => rfl
  | cons t a ih =>
    rw [List.cons_append, run, run]
    cases step stack t.kind with
    | none => rfl
    | some stack => exact ih stack

/-- Whether the innermost thing that is open is a template. -/
def InTemplate (stack : List Mode) : Prop := stack.head? = some .template

/-! ### Substitutions stand in templates -/

/-- Whether the outermost thing that is open, if any, is a template. -/
def Grounded (stack : List Mode) : Prop := ∀ mode ∈ stack.getLast?, mode = .template

theorem Grounded.tail {mode : Mode} {stack : List Mode} (h : Grounded (mode :: stack)) :
    Grounded stack := by
  cases stack with
  | nil => simp [Grounded]
  | cons below stack => simpa [Grounded] using h

theorem Grounded.push {stack : List Mode} (h : Grounded stack) : Grounded (.template :: stack) := by
  cases stack with
  | nil => simp [Grounded]
  | cons below stack => simpa [Grounded] using h

theorem Grounded.cons {stack : List Mode} (h : Grounded stack) (hne : stack ≠ []) (mode : Mode) :
    Grounded (mode :: stack) := by
  obtain ⟨below, stack, rfl⟩ := List.exists_cons_of_ne_nil hne
  simpa [Grounded] using h

/-- What stands in something can be exchanged. -/
theorem Grounded.exchange {stack : List Mode} {depth : Nat} (h : Grounded (.substitution depth :: stack))
    (mode : Mode) : Grounded (mode :: stack) := by
  cases stack with
  | nil => simp [Grounded] at h
  | cons below stack => simpa [Grounded] using h

theorem Grounded.step {stack stack' : List Mode} {kind : TokenKind} (h : Grounded stack)
    (hstep : step stack kind = some stack') : Grounded stack' := by
  unfold Nesting.step at hstep
  split at hstep <;> cases hstep
  · exact h
  · exact h
  · exact h.cons (List.cons_ne_nil _ _) _
  · exact h.tail
  · exact h.push
  · exact h.exchange _
  · exact h.tail
  · exact h.exchange _
  · exact h

theorem Grounded.contains {stack : List Mode} (h : Grounded stack) :
    stack.contains .template = !stack.isEmpty := by
  cases hlast : stack.getLast? with
  | none => simp [List.getLast?_eq_none_iff.mp hlast]
  | some mode =>
    obtain rfl := h mode hlast
    have hmem := List.mem_of_getLast? hlast
    have hne := List.ne_nil_of_mem hmem
    simp [hmem, hne]

theorem Grounded.run {stack stack' : List Mode} {tokens : List Token} (h : Grounded stack)
    (hrun : run stack tokens = some stack') : Grounded stack' := by
  induction tokens generalizing stack with
  | nil => exact Option.some.inj hrun ▸ h
  | cons t tokens ih =>
    obtain ⟨mid, hstep, hrest⟩ := Option.bind_eq_some_iff.mp hrun
    exact ih (h.step hstep) hrest

/-! ### What the lexer reads -/

/-- Whether a lexeme stands in template text only. -/
def isTemplatePart : Lexeme → Bool
  | .templateChars _ | .templateEscape .. | .punctuation .dollarBrace => true
  | _ => false

theorem isTemplatePart_ofCode (ctx : Context) (c : Char) (cs : List Char) :
    isTemplatePart (Lexeme.ofCode ctx c cs) = false := by
  rcases Lexeme.ofCode_cases ctx c cs with h | h | ⟨_, _, _, h⟩ | ⟨_, _, h⟩ | ⟨_, h⟩ | ⟨_, _, _, h⟩ |
    ⟨_, _, _, h⟩ | h
  case inr.inr.inr.inr.inr.inr.inr =>
    have hsymbols : Lexeme.symbols.all (!isTemplatePart ·) = true := by decide
    simpa using List.all_eq_true.mp hsymbols _ (Lexeme.mem_symbols h)
  case inr.inr.inr.inr.inl =>
    rw [h]
    rcases Lexeme.ofWord_cases (c :: cs) with ⟨_, _, h⟩ | ⟨_, h⟩
    · rw [h]
      rfl
    · rw [h]
      rfl
  all_goals
    rw [h]
    rfl

/-- Outside of template text, the machine does what the lexer does. -/
theorem step_code {modes : List Mode} (hmodes : ∀ below, modes ≠ .template :: below) {l : Lexeme}
    (hl : isTemplatePart l = false) {start : Nat} {kind : TokenKind}
    (hkind : l.tokenKind? start = some kind) : step modes kind = some (Context.modesAfter modes l) := by
  have hplain (kind : TokenKind) (hkind : ∀ mark, kind ≠ .punctuation mark)
      (hchars : kind ≠ .templateChars) (hescape : kind ≠ .templateEscape) :
      step modes kind = some modes := by
    unfold step
    split <;> first
      | exact absurd rfl (hmodes _)
      | exact absurd rfl (hkind _)
      | exact absurd rfl hchars
      | exact absurd rfl hescape
      | rfl
  cases l with
  | blank | unexpected | comment => cases hkind
  | templateChars | templateEscape => cases hl
  | punctuation mark =>
    cases hkind
    cases modes with
    | nil => cases mark <;> first | rfl | cases hl
    | cons mode below =>
      cases mode with
      | template => exact absurd rfl (hmodes below)
      | substitution depth =>
        cases mark <;> first | rfl | (cases hl; done) | cases depth <;> rfl
  | keyword | identifier | number | operator | loose | string | regex =>
    cases hkind
    rw [Context.modesAfter_of_plain (by simp), hplain _ (by simp) (by simp) (by simp)]

/-- In template text too. -/
theorem step_template {below : List Mode} (c : Char) (cs : List Char) (start : Nat) :
    ∃ kind, (Lexeme.ofTemplate c cs).tokenKind? start = some kind ∧
      step (.template :: below) kind =
        some (Context.modesAfter (.template :: below) (Lexeme.ofTemplate c cs)) := by
  rcases Lexeme.ofTemplate_cases c cs with h | h | ⟨_, _, h⟩ | ⟨_, h⟩ <;> rw [h] <;>
    exact ⟨_, rfl, rfl⟩

theorem run_first {ctx : Context} {c : Char} {cs : List Char} {l : Lexeme}
    (h : Lexeme.first ctx c cs = l) (start : Nat) :
    run ctx.modes (l.token? start).toList = some (ctx.after l).modes := by
  have hsingle {kind : TokenKind} (hkind : l.tokenKind? start = some kind)
      (hstep : step ctx.modes kind = some (Context.modesAfter ctx.modes l)) :
      run ctx.modes (l.token? start).toList = some (ctx.after l).modes := by
    rw [Lexeme.token?, hkind]
    show (step ctx.modes kind).bind _ = _
    rw [hstep]
    rfl
  by_cases hmode : ∃ below, ctx.modes = .template :: below
  · obtain ⟨below, hmode⟩ := hmode
    have hl : Lexeme.ofTemplate c cs = l := by rw [← h, Lexeme.first, hmode]
    obtain ⟨kind, hkind, hstep⟩ := @step_template below c cs start
    rw [hl] at hkind hstep
    exact hsingle hkind (hmode ▸ hstep)
  · have hcode : ∀ below, ctx.modes ≠ .template :: below := fun below h => hmode ⟨below, h⟩
    rw [Lexeme.first_code hcode] at h
    have hpart := isTemplatePart_ofCode ctx c cs
    rw [h] at hpart
    cases hkind : l.tokenKind? start with
    | some kind => exact hsingle hkind (step_code hcode hpart hkind)
    | none =>
      have hplain : ∀ mark, l ≠ .punctuation mark := by
        rintro mark rfl
        cases hkind
      rw [Lexeme.token?, hkind, Context.after_of_plain ctx hplain]
      rfl

/-- The tokens of lexemes that start at an offset. -/
def tokensFrom (start : Nat) (ls : List Lexeme) : List Token := (placeFrom start ls).filterMap Placed.token?

theorem tokensFrom_cons (start : Nat) (l : Lexeme) (ls : List Lexeme) :
    tokensFrom start (l :: ls) = (l.token? start).toList ++ tokensFrom (start + l.size) ls := by
  rw [tokensFrom, placeFrom, List.filterMap_cons, Placed.token?]
  cases l.token? start <;> rfl

theorem run_lexes {ctx last : Context} {cs : List Char} {ls : List Lexeme} (h : Lexes ctx cs ls last)
    (start : Nat) : run ctx.modes (tokensFrom start ls) = some last.modes := by
  induction h generalizing start with
  | nil => rfl
  | @cons ctx last c cs rest l ls first split below ih =>
    rw [tokensFrom_cons, run_append, run_first first start]
    exact ih _

/-- In front of each lexeme, the machine knows what the lexer knows. -/
theorem run_before {ctx last : Context} {cs : List Char} {before after : List Lexeme} {l : Lexeme}
    (h : Lexes ctx cs (before ++ l :: after) last) (start : Nat) : ∃ mid c rest,
      Lexeme.first mid c rest = l ∧ run ctx.modes (tokensFrom start before) = some mid.modes := by
  induction before generalizing ctx cs start with
  | nil =>
    cases h with
    | cons first => exact ⟨_, _, _, first, rfl⟩
  | cons m before ih =>
    cases h with
    | @cons _ _ _ _ rest _ _ first split below =>
      obtain ⟨mid, c, rest, hfirst, hrun⟩ := ih below (start + m.size)
      refine ⟨mid, c, rest, hfirst, ?_⟩
      rw [tokensFrom_cons, run_append, run_first first start]
      exact hrun

/-- No comment is read in template text. -/
theorem outside_of_comment {ctx : Context} {c : Char} {cs : List Char} {kind : CommentKind}
    {text : List Char} {closed : Bool} (h : Lexeme.first ctx c cs = .comment kind text closed) :
    ¬InTemplate ctx.modes := by
  intro hmode
  obtain ⟨below, hmode⟩ := List.head?_eq_some_iff.mp hmode
  have hcases := Lexeme.ofTemplate_cases c cs
  have hl : Lexeme.ofTemplate c cs = .comment kind text closed := by
    rw [← h, Lexeme.first, hmode]
  rw [hl] at hcases
  simp at hcases

/-! ### Template text is read in one go -/

/-- Whether template text is over in front of a text. -/
def EndsText (cs : List Char) : Prop := ∀ c rest, cs = c :: rest →
  c = '\x60' ∨ c = '\\' ∨ c = '$' ∧ rest.head? = some '\x7b'

theorem templateRun_ends {front rest taken : List Char}
    (h : Lexeme.templateRun (front ++ rest) taken = taken.reverse ++ front) : EndsText rest := by
  induction front generalizing taken with
  | nil =>
    rintro c rest rfl
    rw [List.nil_append, List.append_nil, Lexeme.templateRun] at h
    split at h
    · rename_i hend
      simpa [or_assoc] using hend
    · obtain ⟨more, _, hmore⟩ := Lexeme.templateRun_eq rest (c :: taken)
      rw [hmore] at h
      simp at h
  | cons c front ih =>
    rw [List.cons_append, Lexeme.templateRun] at h
    split at h
    · simp at h
    · exact @ih (c :: taken) (by simpa using h)

theorem ofTemplate_of_ends {c : Char} {cs : List Char} (h : EndsText (c :: cs)) (text : List Char) :
    Lexeme.ofTemplate c cs ≠ .templateChars text := by
  unfold Lexeme.ofTemplate
  rcases h c cs rfl with hc | hc | ⟨hc, hbrace⟩ <;> subst hc <;> simp [*]

/-- Not two stretches of template text. -/
def Apart (t t' : Token) : Prop := ¬(t.kind = .templateChars ∧ t'.kind = .templateChars)

/-- Behind template text, no template text is read. -/
theorem head_tokensFrom {ctx last : Context} {cs : List Char} {ls : List Lexeme}
    (h : Lexes ctx cs ls last) {below : List Mode} (hmode : ctx.modes = .template :: below)
    (hends : EndsText cs) (start : Nat) :
    ∀ t ∈ (tokensFrom start ls).head?, t.kind ≠ .templateChars := by
  cases h with
  | nil => simp [tokensFrom, placeFrom]
  | @cons _ _ c cs rest l ls first split _ =>
    have hl : Lexeme.ofTemplate c cs = l := by rw [← first, Lexeme.first, hmode]
    have hchars := ofTemplate_of_ends hends
    rw [hl] at hchars
    have hcases := Lexeme.ofTemplate_cases c cs
    rw [hl] at hcases
    rw [tokensFrom_cons]
    rcases hcases with rfl | rfl | ⟨_, _, rfl⟩ | ⟨text, rfl⟩
    · simp [Lexeme.token?, Lexeme.tokenKind?]
    · simp [Lexeme.token?, Lexeme.tokenKind?]
    · simp [Lexeme.token?, Lexeme.tokenKind?]
    · exact absurd rfl (hchars text)

theorem templateRun_of_chars {c : Char} {cs text : List Char}
    (h : Lexeme.ofTemplate c cs = .templateChars text) : Lexeme.templateRun (c :: cs) [] = text := by
  unfold Lexeme.ofTemplate at h
  split at h
  · cases h
  split at h
  · cases h
  split at h
  · cases h
  · exact Lexeme.templateChars.inj h

/-- Template text is read in template text, and up to its end. -/
theorem first_chars {ctx : Context} {c : Char} {cs text rest : List Char}
    (h : Lexeme.first ctx c cs = .templateChars text) (split : c :: cs = text ++ rest) :
    (∃ below, (ctx.after (.templateChars text)).modes = .template :: below) ∧ EndsText rest := by
  by_cases hmode : ∃ below, ctx.modes = .template :: below
  · obtain ⟨below, hmode⟩ := hmode
    have hl : Lexeme.ofTemplate c cs = .templateChars text := by rw [← h, Lexeme.first, hmode]
    have hrun := templateRun_of_chars hl
    rw [split] at hrun
    refine ⟨⟨below, ?_⟩, @templateRun_ends _ _ [] hrun⟩
    rw [Context.after_of_plain ctx (by simp)]
    exact hmode
  · have hpart := isTemplatePart_ofCode ctx c cs
    rw [← Lexeme.first_code fun below h => hmode ⟨below, h⟩, h] at hpart
    cases hpart

theorem apart_tokensFrom {ctx last : Context} {cs : List Char} {ls : List Lexeme}
    (h : Lexes ctx cs ls last) (start : Nat) : (tokensFrom start ls).IsChain Apart := by
  induction h generalizing start with
  | nil => exact .nil
  | @cons ctx last c cs rest l ls first split below ih =>
    have hrest := ih (start + l.size)
    rw [tokensFrom_cons]
    cases htoken : l.token? start with
    | none => exact hrest
    | some t =>
      refine List.isChain_cons.mpr ⟨fun t' ht' => ?_, hrest⟩
      rintro ⟨hkind, hkind'⟩
      obtain ⟨text, rfl⟩ : ∃ text, l = .templateChars text := by
        obtain ⟨kind, hkind', rfl⟩ := Option.map_eq_some_iff.mp htoken
        obtain rfl : kind = .templateChars := hkind
        cases l <;> first | exact ⟨_, rfl⟩ | cases hkind'
      obtain ⟨⟨_, hmode⟩, hends⟩ := first_chars first split
      exact head_tokensFrom below hmode hends _ t' ht' hkind'

/-! ### Whole sources -/

theorem problems_ne_template (l : Lexeme) (start : Nat) :
    ∀ p ∈ l.problems start, p.cause ≠ .unterminatedTemplate := by
  have hescapes (start : Nat) (pieces : List Piece) :
      ∀ p ∈ Lexeme.escapeProblems start pieces, p.cause ≠ .unterminatedTemplate := by
    induction pieces generalizing start with
    | nil => simp [Lexeme.escapeProblems]
    | cons piece pieces ih =>
      cases piece with
      | fragment text => exact ih _
      | escape text wellFormed =>
        cases wellFormed with
        | false => exact List.forall_mem_cons.mpr ⟨by simp, ih _⟩
        | true => exact ih _
  cases l with
  | string quote pieces closed =>
    refine List.forall_mem_append.mpr ⟨hescapes _ _, ?_⟩
    cases closed <;> simp
  | number text missing => cases missing <;> simp [Lexeme.problems]
  | comment kind text closed => cases closed <;> simp [Lexeme.problems]
  | regex pattern flags closed => cases closed <;> simp [Lexeme.problems]
  | templateEscape text wellFormed => cases wellFormed <;> simp [Lexeme.problems]
  | blank | unexpected | keyword | identifier | operator | loose | punctuation | templateChars =>
    simp [Lexeme.problems]

theorem span_tokensFrom {start : Nat} {ls : List Lexeme} (hls : ∀ l ∈ ls, l.text ≠ []) {t : Token}
    (ht : t ∈ tokensFrom start ls) :
    start < t.span.stop ∧ t.span.stop ≤ start + byteLength (ls.flatMap Lexeme.text) := by
  obtain ⟨p, hp, htoken⟩ := List.mem_filterMap.mp ht
  obtain ⟨before, after, rfl, hstart⟩ := mem_placeFrom hp
  have hsize := byteLength_pos (hls p.lexeme (by simp))
  rw [Placed.token?_span htoken]
  show start < p.start + byteLength p.lexeme.text ∧ p.start + byteLength p.lexeme.text ≤ _
  rw [List.flatMap_append, List.flatMap_cons, byteLength_append, byteLength_append]
  omega

/-- The tokens that stop in front of a comment are those of the lexemes in front of it. -/
theorem filter_tokensFrom {before after : List Lexeme} {kind : CommentKind} {text : List Char}
    {closed : Bool} (hall : ∀ l ∈ before ++ .comment kind text closed :: after, l.text ≠ []) :
    (tokensFrom 0 (before ++ .comment kind text closed :: after)).filter
        (·.span.stop ≤ byteLength (before.flatMap Lexeme.text)) = tokensFrom 0 before := by
  have hbefore : ∀ l ∈ before, l.text ≠ [] := fun l hl => hall l (List.mem_append_left _ hl)
  have hafter : ∀ l ∈ .comment kind text closed :: after, l.text ≠ [] := fun l hl =>
    hall l (List.mem_append_right _ hl)
  have hfront : (tokensFrom 0 before).filter
      (·.span.stop ≤ byteLength (before.flatMap Lexeme.text)) = tokensFrom 0 before := by
    refine List.filter_eq_self.mpr fun t ht => ?_
    have := (span_tokensFrom hbefore ht).2
    simpa using this
  have hback : (tokensFrom (0 + byteLength (before.flatMap Lexeme.text))
      (.comment kind text closed :: after)).filter
        (·.span.stop ≤ byteLength (before.flatMap Lexeme.text)) = [] := by
    refine List.filter_eq_nil_iff.mpr fun t ht => ?_
    have := (span_tokensFrom hafter ht).1
    simp only [decide_eq_true_eq]
    omega
  have hsplit : tokensFrom 0 (before ++ .comment kind text closed :: after) = tokensFrom 0 before ++
      tokensFrom (0 + byteLength (before.flatMap Lexeme.text)) (.comment kind text closed :: after) := by
    rw [tokensFrom, placeFrom_append, List.filterMap_append]
    rfl
  rw [hsplit, List.filter_append, hfront, hback, List.append_nil]

/-- **Templates nest**: the tokens of a source run through the machine, template text is read in one go
and holds no comment, and an open template is reported once, at the end. -/
theorem lex_nesting (source : String) : ∃ tokens stop stack,
    (lex source).tokens.toList = tokens ++ [⟨.endOfFile, .empty stop⟩] ∧
    run [] tokens = some stack ∧
    tokens.IsChain Apart ∧
    (∀ c ∈ (lex source).comments.toList, ∃ outside,
      run [] (tokens.filter (·.span.stop ≤ c.span.start)) = some outside ∧ ¬InTemplate outside) ∧
    (lex source).problems.toList.countP (·.cause = .unterminatedTemplate) =
      if stack = [] then 0 else 1 := by
  obtain ⟨ls, last, h⟩ := Lexes.total {} source.toList
  have hrun := run_lexes h 0
  have hnonempty := h.nonempty
  refine ⟨tokensFrom 0 ls, byteLength source.toList, last.modes, h.tokens, hrun, apart_tokensFrom h 0,
    fun c hc => ?_, ?_⟩
  · rw [lex, h.comments] at hc
    obtain ⟨p, hp, hcomment⟩ := List.mem_filterMap.mp hc
    obtain ⟨before, after, hls, hstart⟩ := mem_placeFrom hp
    obtain ⟨start, l⟩ := p
    cases l with
    | comment kind text closed =>
      obtain rfl : _ = c := Option.some.inj hcomment
      subst hls
      obtain ⟨mid, c, rest, hfirst, hbefore⟩ := run_before h 0
      refine ⟨mid.modes, ?_, outside_of_comment hfirst⟩
      show run [] ((tokensFrom 0 _).filter (·.span.stop ≤ start)) = _
      rw [show start = _ from hstart, Nat.zero_add, filter_tokensFrom hnonempty]
      exact hbefore
    | blank | unexpected | keyword | identifier | number | operator | loose | punctuation | string
    | regex | templateChars | templateEscape => cases hcomment
  · have hnone : ((placeFrom 0 ls).flatMap Placed.problems).countP
        (·.cause = .unterminatedTemplate) = 0 := by
      refine List.countP_eq_zero.mpr fun p hp => ?_
      obtain ⟨q, _, hp⟩ := List.mem_flatMap.mp hp
      simpa using problems_ne_template q.lexeme q.start p hp
    have hgrounded : Grounded last.modes := @Grounded.run [] _ _ (by simp [Grounded]) hrun
    rw [lex, h.problems, List.countP_append, hnone, hgrounded.contains, Nat.zero_add]
    cases last.modes <;> rfl

example : run [] (lex "`a$\x7bb\x7d`").tokens.toList.dropLast = some [] := by decide +kernel

end Nesting

end ScriptTree
