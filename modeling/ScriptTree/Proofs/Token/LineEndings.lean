import Mathlib
import ScriptTree.Proofs.Token.Lexing
import ScriptTree.Proofs.Token.Locality
import ScriptTree.Proofs.Token.Respelling

/-! Lexemes of a text with carriage returns.

`respell crlf cs` is a text with a carriage return in front of every line feed. What is read within a
line stops in front of either (`ofCode_append`); strings end there too, unless a backslash joins the
line to the next one, and comments and templates go on. So the lexemes of the text are the old ones,
but for the blanks (`Lexes.respelled`). -/
namespace ScriptTree

/-- The end of a line as two characters. -/
def crlf : List Char := ['\r', '\n']

/-! ### Respelled texts -/

section Texts
variable {cs front back : List Char}

theorem halts_respell (h : Lexeme.Halts Lexeme.lineEnds back) :
    Lexeme.Halts Lexeme.lineEnds (respell crlf back) := by
  cases back with
  | nil => exact h
  | cons c back =>
    intro d hd
    rw [respell_cons] at hd
    have hends : c = '\n' ∨ c = '\r' := by simpa [Lexeme.lineEnds] using h c rfl
    rcases hends with rfl | rfl
    · cases hd
      decide
    · cases hd
      decide

/-- A text is its first line, and what follows it. -/
theorem exists_line (cs : List Char) :
    ∃ front back, cs = front ++ back ∧ '\n' ∉ front ∧ Lexeme.Halts Lexeme.lineEnds back := by
  refine ⟨cs.takeWhile (· ≠ '\n'), cs.dropWhile (· ≠ '\n'), (List.takeWhile_append_dropWhile).symm,
    fun hmem => ?_, fun c hc => ?_⟩
  · simpa using List.mem_takeWhile_imp hmem
  · have := List.head?_dropWhile_not (· ≠ '\n') cs
    rw [hc] at this
    have hfeed : c = '\n' := by simpa using this
    rw [hfeed]
    decide

theorem respell_head? {d : Char} (hfeed : d ≠ '\n') (hcr : d ≠ '\r') (cs : List Char) :
    (respell crlf cs).head? = some d ↔ cs.head? = some d := by
  cases cs with
  | nil => rfl
  | cons c cs =>
    by_cases hc : c = '\n'
    · subst hc
      simp [respell_cons, crlf, hfeed.symm, hcr.symm]
    · rw [respell_cons_of_ne hc]
      rfl

theorem any_isLineTerminator_respell (cs : List Char) :
    (respell crlf cs).any isLineTerminator = cs.any isLineTerminator := by
  induction cs with
  | nil => rfl
  | cons c cs ih =>
    by_cases hc : c = '\n'
    · subst hc
      rfl
    · rw [respell_cons_of_ne hc, List.any_cons, List.any_cons, ih]

end Texts

namespace Lexeme

/-! ### Escape sequences and strings -/

theorem takeUpTo_append {n : Nat} {p : Char → Bool} {front back : List Char}
    (h : Halts lineEnds back) (hp : ∀ c ∈ lineEnds, p c = false) :
    takeUpTo n p (front ++ back) = takeUpTo n p front := by
  have hback : Halts lineEnds (back.take (n - front.length)) := by
    intro c hc
    cases hn : n - front.length with
    | zero => simp [hn] at hc
    | succ k =>
      cases back with
      | nil => simp at hc
      | cons d back => exact h c (by simpa [hn] using hc)
  rw [takeUpTo, takeUpTo, List.take_append, takeWhile_append_of_halts hback hp]

theorem not_isHex : ∀ c ∈ lineEnds, isHex c = false := by
  simp [lineEnds, isHex, Char.isDigit]

theorem not_isOctal : ∀ c ∈ lineEnds, isOctal c = false := by
  simp [lineEnds, isOctal]

/-- An escape of one line is read up to the end of the line at most, unless that is what it
escapes. -/
theorem escapeBody_append {c : Char} {front back : List Char} (h : Halts lineEnds back)
    (hcr : c = '\r' → front ≠ []) : escapeBody (c :: (front ++ back)) = escapeBody (c :: front) := by
  have hother {d : Char} (hd : d ∉ lineEnds) (front : List Char) :
      (front ++ back).head? = some d ↔ front.head? = some d := by
    cases front with
    | nil =>
      refine ⟨fun hhead => absurd (h d hhead) hd, nofun⟩
    | cons e front => rfl
  by_cases hx : c = 'x'
  · subst hx
    show ('x' :: takeUpTo 2 isHex (front ++ back), _) = ('x' :: takeUpTo 2 isHex front, _)
    rw [takeUpTo_append h not_isHex]
  by_cases hu : c = 'u'
  · subst hu
    by_cases hbrace : front.head? = some '\x7b'
    · obtain ⟨inner, rfl⟩ := List.head?_eq_some_iff.mp hbrace
      have hds : (inner ++ back).takeWhile isHex = inner.takeWhile isHex :=
        takeWhile_append_of_halts h not_isHex
      have hrest := drop_append_of_prefix (List.takeWhile_prefix isHex (l := inner)) back
      rw [List.cons_append, escapeBody_brace, escapeBody_brace, bracedBody, bracedBody, hds, hrest]
      simp only [hother (by decide : '\x7d' ∉ lineEnds)]
    · rw [escapeBody_unicode hbrace,
        escapeBody_unicode ((hother (by decide : '\x7b' ∉ lineEnds) front).not.mpr hbrace),
        takeUpTo_append h not_isHex]
  have hoctal : takeUpTo 3 isOctal (c :: front ++ back) = takeUpTo 3 isOctal (c :: front) :=
    takeUpTo_append h not_isOctal
  rw [List.cons_append] at hoctal
  by_cases hjoined : c = '\r' ∧ front.head? = some '\n'
  · obtain ⟨rfl, hhead⟩ := hjoined
    obtain ⟨rest, rfl⟩ := List.head?_eq_some_iff.mp hhead
    rfl
  · have hplain (back : List Char) : c = '\r' → (front ++ back).head? ≠ some '\n' := by
      intro hc hhead
      obtain ⟨d, rest, rfl⟩ := List.exists_cons_of_ne_nil (hcr hc)
      exact hjoined ⟨hc, hhead⟩
    have hplain' := hplain []
    rw [List.append_nil] at hplain'
    rw [escapeBody_single hx hu (hplain back), escapeBody_single hx hu hplain', hoctal]

/-- An escaped line feed is one with a carriage return, and other escapes stay. -/
theorem escapeBody_respell {cs : List Char} (hcr : '\r' ∉ cs) :
    escapeBody (ScriptTree.respell crlf cs) =
      (ScriptTree.respell crlf (escapeBody cs).1, (escapeBody cs).2) := by
  obtain ⟨front, back, rfl, hline, hback⟩ := exists_line cs
  cases front with
  | nil =>
    cases back with
    | nil => rfl
    | cons d back =>
      have hends : d = '\n' ∨ d = '\r' := by simpa [lineEnds] using hback d rfl
      rcases hends with rfl | rfl
      · rfl
      · simp at hcr
  | cons c front =>
    have hc : c = '\r' → front ≠ [] := by
      rintro rfl
      simp at hcr
    have hbody : '\n' ∉ (escapeBody (c :: front)).1 := fun hmem =>
      hline ((escapeBody_isPrefix _).subset hmem)
    rw [respell_append, respell_of_not_mem hline, List.cons_append, List.cons_append,
      escapeBody_append (halts_respell hback) hc, escapeBody_append hback hc,
      respell_of_not_mem hbody]

theorem piece_respell {quote c : Char} {cs : List Char} (hcr : '\r' ∉ cs) (hc : c ≠ '\n') :
    piece quote c (ScriptTree.respell crlf cs) = (piece quote c cs).respell crlf := by
  by_cases hescape : c = '\\'
  · rw [piece, piece, if_pos hescape, if_pos hescape, escapeBody_respell hcr]
    exact congrArg (Piece.escape · _) (respell_cons_of_ne hc _).symm
  · obtain ⟨front, back, rfl, hline, hback⟩ := exists_line cs
    have hstop : ∀ c ∈ lineEnds, inFragment quote c = false := by simp [lineEnds, inFragment]
    have hfragment : '\n' ∉ front.takeWhile (inFragment quote) := fun hmem =>
      hline ((List.takeWhile_prefix _).subset hmem)
    rw [piece, piece, if_neg hescape, if_neg hescape, respell_append, respell_of_not_mem hline,
      takeWhile_append_of_halts (halts_respell hback) hstop, takeWhile_append_of_halts hback hstop]
    exact congrArg Piece.fragment (by rw [respell_cons_of_ne hc, respell_of_not_mem hfragment])

theorem pieces_respell {quote : Char} (hquote : quote ≠ '\n' ∧ quote ≠ '\r') {cs : List Char}
    (hcr : '\r' ∉ cs) (taken : List Piece) :
    pieces quote (ScriptTree.respell crlf cs) (taken.map (·.respell crlf)) =
      ((pieces quote cs taken).1.map (·.respell crlf), (pieces quote cs taken).2) := by
  fun_induction pieces quote cs taken with
  | case1 taken => simp [ScriptTree.respell, pieces, List.map_reverse]
  | case2 taken rest =>
    rw [respell_cons_of_ne hquote.1, pieces, if_pos rfl, List.map_reverse]
  | case3 taken c rest hc hend =>
    have hc' : c = '\n' := by
      have : c ≠ '\r' := by
        rintro rfl
        simp at hcr
      simpa [this] using hend
    subst hc'
    rw [respell_cons, if_pos rfl, crlf, List.cons_append, pieces, if_neg hquote.2.symm,
      if_pos (by decide), List.map_reverse]
  | case4 taken c rest hc hend p ih =>
    have hfeed : c ≠ '\n' := by
      rintro rfl
      simp at hend
    have hrest : '\r' ∉ rest := fun hmem => hcr (List.mem_cons_of_mem _ hmem)
    obtain ⟨front, ⟨back, hsplit⟩, htext⟩ := piece_text quote c rest
    subst hsplit
    have htext' : ((piece quote c (front ++ back)).respell crlf).text =
        c :: ScriptTree.respell crlf front := by
      rw [← respell_cons_of_ne hfeed, ← htext]
      cases piece quote c (front ++ back) <;> rfl
    have hrespelled : piece quote c (ScriptTree.respell crlf (front ++ back)) = _ :=
      piece_respell hrest hfeed
    rw [respell_append] at hrespelled
    have hstep := pieces_cons hc hend htext taken
    rw [pieces, if_neg hc, if_neg hend] at hstep
    rw [hstep]
    rw [htext, List.length_cons, Nat.add_sub_cancel, List.drop_left] at ih
    rw [respell_cons_of_ne hfeed, respell_append, pieces_cons hc hend (hrespelled ▸ htext'),
      hrespelled]
    exact ih fun hmem => hrest (List.mem_append_right _ hmem)

/-! ### Comments and templates -/

/-- One more character of both texts. -/
theorem reverse_cons_respell {c : Char} (hc : c ≠ '
') {taken taken' : List Char}
    (h : taken'.reverse = ScriptTree.respell crlf taken.reverse) :
    (c :: taken').reverse = ScriptTree.respell crlf (c :: taken).reverse := by
  rw [List.reverse_cons, List.reverse_cons, respell_append, h, respell_cons_of_ne hc]
  rfl

theorem reverse_feed_respell {taken taken' : List Char}
    (h : taken'.reverse = ScriptTree.respell crlf taken.reverse) :
    ('\n' :: '\r' :: taken').reverse = ScriptTree.respell crlf ('\n' :: taken).reverse := by
  rw [List.reverse_cons, List.reverse_cons, List.reverse_cons, respell_append, h, List.append_assoc]
  rfl

theorem blockBody_respell {cs : List Char} (taken taken' : List Char)
    (htaken : taken'.reverse = ScriptTree.respell crlf taken.reverse) :
    blockBody (ScriptTree.respell crlf cs) taken' =
      (ScriptTree.respell crlf (blockBody cs taken).1, (blockBody cs taken).2) := by
  fun_induction blockBody cs taken generalizing taken' with
  | case1 taken => exact congrArg (·, false) htaken
  | case2 cs taken =>
    rw [respell_cons_of_ne (by decide), respell_cons_of_ne (by decide), blockBody]
    simp [respell_append, htaken, respell_of_not_mem]
  | case3 c cs taken hopen ih =>
    -- The comment is not over here, in either text.
    by_cases hc : c = '\n'
    · subst hc
      rw [respell_cons, if_pos rfl, ← ih _ (reverse_feed_respell htaken)]
      rfl
    · have hopen' : c = '*' → (ScriptTree.respell crlf cs).head? ≠ some '/' := by
        rintro rfl hhead
        rw [respell_head? (by decide) (by decide)] at hhead
        obtain ⟨rest, rfl⟩ := List.head?_eq_some_iff.mp hhead
        exact hopen rest rfl rfl
      rw [respell_cons_of_ne hc, ← ih _ (reverse_cons_respell hc htaken)]
      exact blockBody_cons hopen' taken'

theorem templateRun_respell {cs : List Char} (taken taken' : List Char)
    (htaken : taken'.reverse = ScriptTree.respell crlf taken.reverse) :
    templateRun (ScriptTree.respell crlf cs) taken' =
      ScriptTree.respell crlf (templateRun cs taken) := by
  have hopens (cs : List Char) : decide ((ScriptTree.respell crlf cs).head? = some '\x7b') =
      decide (cs.head? = some '\x7b') :=
    decide_eq_decide.mpr (respell_head? (by decide) (by decide) cs)
  fun_induction templateRun cs taken generalizing taken' with
  | case1 taken => exact htaken
  | case2 c cs taken hend =>
    have hc : c ≠ '\n' := by
      rintro rfl
      simp at hend
    rw [respell_cons_of_ne hc, templateRun, hopens, if_pos hend, htaken]
  | case3 c cs taken hend ih =>
    by_cases hc : c = '\n'
    · subst hc
      rw [respell_cons, if_pos rfl, ← ih _ (reverse_feed_respell htaken)]
      rfl
    · rw [respell_cons_of_ne hc, templateRun, hopens, if_neg hend,
        ih _ (reverse_cons_respell hc htaken)]

/-! ### Lexemes -/

theorem ofTemplate_respell {c : Char} {cs : List Char} (hcr : '\r' ∉ cs) (hc : c ≠ '\n') :
    ofTemplate c (ScriptTree.respell crlf cs) = (ofTemplate c cs).respell crlf := by
  have hopens : decide ((ScriptTree.respell crlf cs).head? = some '\x7b') =
      decide (cs.head? = some '\x7b') :=
    decide_eq_decide.mpr (respell_head? (by decide) (by decide) cs)
  have hrun : templateRun (ScriptTree.respell crlf (c :: cs)) [] = _ :=
    templateRun_respell [] [] rfl
  rw [respell_cons_of_ne hc] at hrun
  rw [ofTemplate, ofTemplate, hopens, escapeBody_respell hcr, hrun]
  split
  · rfl
  split
  · rfl
  split
  · exact congrArg (templateEscape · _) (respell_cons_of_ne hc _).symm
  · rfl

theorem ofTemplate_spelled (c : Char) (cs : List Char) :
    (ofTemplate c cs).Spelled ∧ ofTemplate c cs ≠ .blank '\n' := by
  unfold ofTemplate
  split
  · exact ⟨.inr (not_mem_spelling _), nofun⟩
  split
  · exact ⟨.inr (not_mem_spelling _), nofun⟩
  split
  · exact ⟨.inl rfl, nofun⟩
  · exact ⟨.inl rfl, nofun⟩

/-- Template text goes on over the end of a line. -/
theorem ofTemplate_feed (cs : List Char) :
    ofTemplate '\r' ('\n' :: ScriptTree.respell crlf cs) = (ofTemplate '\n' cs).respell crlf :=
  congrArg templateChars (@templateRun_respell ('\n' :: cs) [] [] rfl)

theorem ofString_respell {mark : Punctuation} {c : Char} {cs : List Char}
    (hquote : quote? c = some mark) (hcr : '\r' ∉ cs) :
    ofString mark c (ScriptTree.respell crlf cs) = (ofString mark c cs).respell crlf := by
  have hends : c ≠ '\n' ∧ c ≠ '\r' := by
    constructor <;> rintro rfl <;> cases hquote
  have hpieces := pieces_respell hends hcr []
  rw [List.map_nil] at hpieces
  rw [ofString, hpieces]
  rfl

theorem ofBlockComment_respell (cs : List Char) :
    ofBlockComment (ScriptTree.respell crlf cs) = (ofBlockComment cs).respell crlf := by
  rw [ofBlockComment, blockBody_respell [] [] rfl]
  show comment .block ('/' :: '*' :: _) _ = comment .block (ScriptTree.respell crlf ('/' :: '*' :: _)) _
  rw [respell_cons_of_ne (by decide), respell_cons_of_ne (by decide)]

theorem ofCode_quote {c : Char} {mark : Punctuation} (hquote : quote? c = some mark) (ctx : Context)
    (cs : List Char) : ofCode ctx c cs = ofString mark c cs := by
  unfold quote? at hquote
  split at hquote <;> cases hquote <;>
    simp [ofCode, quote?, isBlank, isWhiteSpace, isIdentifierStart, Char.isDigit, Char.isAlpha,
      Char.isUpper, Char.isLower]

/-- The lexeme at the head of code that does not start with the end of a line. -/
theorem ofCode_respell (ctx : Context) {c : Char} {cs : List Char} (hcr : '\r' ∉ cs) (hc : c ≠ '\n') :
    ofCode ctx c (ScriptTree.respell crlf cs) = (ofCode ctx c cs).respell crlf ∧
      (ofCode ctx c cs).Spelled := by
  cases hquote : quote? c with
  | some mark =>
    rw [ofCode_quote hquote, ofCode_quote hquote]
    exact ⟨ofString_respell hquote hcr, .inl rfl⟩
  | none =>
    by_cases hblock : c = '/' ∧ cs.head? = some '*'
    · obtain ⟨rfl, hhead⟩ := hblock
      obtain ⟨rest, rfl⟩ := List.head?_eq_some_iff.mp hhead
      rw [respell_cons_of_ne (by decide)]
      exact ⟨ofBlockComment_respell rest, .inl rfl⟩
    · obtain ⟨front, back, rfl, hline, hback⟩ := exists_line cs
      have hfront : c = '/' → front.head? ≠ some '*' := by
        rintro rfl hhead
        obtain ⟨rest, rfl⟩ := List.head?_eq_some_iff.mp hhead
        exact hblock ⟨rfl, rfl⟩
      have htext : '\n' ∉ (ofCode ctx c front).text := fun hmem =>
        (List.mem_cons.mp ((ofCode_heads ctx c front).front.subset hmem)).elim hc.symm hline
      rw [respell_append, respell_of_not_mem hline, ofCode_append (halts_respell hback) ctx hquote hfront,
        ofCode_append hback ctx hquote hfront, respell_of_line htext]
      exact ⟨rfl, .inr htext⟩

end Lexeme

/-! ### Texts -/

theorem Context.after_respell (ctx : Context) (l : Lexeme) :
    ctx.after (l.respell crlf) = ctx.after l := by
  cases l with
  | comment kind text closed =>
    have hline : lineStartAfter ctx.lineStart ((Lexeme.comment kind text closed).respell crlf) =
        lineStartAfter ctx.lineStart (.comment kind text closed) :=
      congrArg (ctx.lineStart || ·) (any_isLineTerminator_respell text)
    rw [after_of_plain ctx (by nofun), after_of_plain ctx (by nofun), hline]
    rfl
  | string | templateChars | templateEscape =>
    rw [after_of_plain ctx (by nofun), after_of_plain ctx (by nofun)]
    rfl
  | blank | unexpected | keyword | identifier | number | operator | loose | punctuation | regex => rfl

theorem Context.after_crlf (ctx : Context) :
    (ctx.after (.blank '\r')).after (.blank '\n') = ctx.after (.blank '\n') := by
  have hblank (ctx : Context) (c : Char) : ctx.after (.blank c) =
      ⟨ctx.modes, ctx.lineStart || isLineTerminator c, ctx.operandEnd⟩ :=
    after_of_plain ctx (by nofun)
  simp [hblank, isLineTerminator]

/-- At the end of a line. -/
theorem Lexeme.first_feed {ctx : Context} (h : ∀ modes, ctx.modes ≠ .template :: modes)
    (cs : List Char) : first ctx '\n' cs = .blank '\n' := first_code h _ _

theorem Lexes.respelled {ctx last : Context} {cs : List Char} {ls : List Lexeme}
    (h : Lexes ctx cs ls last) (hcr : '\r' ∉ cs) :
    Lexes ctx (respell crlf cs) (ls.flatMap (Lexeme.respelled crlf)) last ∧
      ∀ l ∈ ls, l = .blank '\n' ∨ l.Spelled := by
  induction h with
  | nil => exact ⟨.nil, by simp⟩
  | @cons ctx last c cs rest l ls first split below ih =>
    obtain ⟨ih, hspelled⟩ := ih fun hmem => hcr (split ▸ List.mem_append_right _ hmem)
    have hcs : '\r' ∉ cs := fun hmem => hcr (List.mem_cons_of_mem _ hmem)
    -- A lexeme that is respelled as one.
    have hone {d : Char} {ds : List Char} (hd : respell crlf (c :: cs) = d :: ds) (hl : l.Spelled)
        (hne : l ≠ .blank '\n') (hfirst : Lexeme.first ctx d ds = l.respell crlf) :
        Lexes ctx (respell crlf (c :: cs)) ((l :: ls).flatMap (Lexeme.respelled crlf)) last ∧
          ∀ m ∈ l :: ls, m = .blank '\n' ∨ m.Spelled := by
      have hsplit : d :: ds = (l.respell crlf).text ++ respell crlf rest := by
        rw [← hd, split, respell_append, Lexeme.text_respell (.inr hl)]
      rw [List.flatMap_cons, Lexeme.respelled, if_neg hne, hd]
      exact ⟨.cons hfirst hsplit (by rwa [Context.after_respell]),
        List.forall_mem_cons.mpr ⟨.inr hl, hspelled⟩⟩
    by_cases hmode : ∃ modes, ctx.modes = .template :: modes
    · obtain ⟨modes, hmode⟩ := hmode
      have hfirst (d : Char) (ds : List Char) : Lexeme.first ctx d ds = Lexeme.ofTemplate d ds := by
        rw [Lexeme.first, hmode]
      rw [hfirst] at first
      obtain ⟨hl, hne⟩ := Lexeme.ofTemplate_spelled c cs
      rw [first] at hl hne
      by_cases hc : c = '\n'
      · subst hc
        refine hone (respell_cons crlf '\n' cs) hl hne ?_
        rw [hfirst, ← first]
        exact Lexeme.ofTemplate_feed cs
      · refine hone (respell_cons_of_ne hc cs) hl hne ?_
        rw [hfirst, ← first, Lexeme.ofTemplate_respell hcs hc]
    · have hcode : ∀ modes, ctx.modes ≠ .template :: modes := fun modes h => hmode ⟨modes, h⟩
      by_cases hc : c = '\n'
      · -- A line feed between tokens becomes two blanks.
        subst hc
        obtain rfl : .blank '\n' = l := (Lexeme.first_feed hcode cs).symm.trans first
        obtain rfl : cs = rest := (List.cons.inj split).2
        have hmodes : (ctx.after (.blank '\r')).modes = ctx.modes := by
          rw [Context.after_of_plain ctx (by simp)]
        refine ⟨?_, List.forall_mem_cons.mpr ⟨.inl rfl, hspelled⟩⟩
        rw [respell_cons, if_pos rfl, List.flatMap_cons, Lexeme.respelled, if_pos rfl]
        refine .cons (Lexeme.first_code hcode _ _) rfl (.cons ?_ rfl ?_)
        · exact Lexeme.first_code (by rwa [hmodes]) _ _
        · rwa [Context.after_crlf]
      · rw [Lexeme.first_code hcode] at first
        obtain ⟨hl, hspelled⟩ := Lexeme.ofCode_respell ctx hcs hc
        have hne : l ≠ .blank '\n' := by
          rintro rfl
          exact hc (List.cons.inj split).1
        refine hone (respell_cons_of_ne hc cs) (first ▸ hspelled) hne ?_
        rw [Lexeme.first_code hcode, hl, first]

/-! ### Sources -/

/-- The source with carriage returns. -/
def withCarriageReturns (source : String) : String := .ofList (respell crlf source.toList)

/-- Where an offset of a source is in the source with carriage returns. -/
def carriedOffset (source : String) : Nat → Nat := respelledOffset crlf source.toList

theorem carriedOffset_strictMono (source : String) : StrictMono (carriedOffset source) :=
  respelledOffset_strictMono (by decide) _

theorem carriedOffset_zero (source : String) : carriedOffset source 0 = 0 :=
  (respelledOffset_respells crlf source.toList).begins

theorem carriedOffset_end (source : String) :
    carriedOffset source source.utf8ByteSize = (withCarriageReturns source).utf8ByteSize := by
  have hends := (respelledOffset_respells crlf source.toList).ends
  rw [Nat.zero_add, Nat.zero_add] at hends
  rw [withCarriageReturns, utf8ByteSize_ofList, carriedOffset, ← hends, ← utf8ByteSize_ofList,
    String.ofList_toList]

theorem lex_withCarriageReturns {source : String} (hcr : '\r' ∉ source.toList) :
    (lex (withCarriageReturns source)).tokens.toList =
        (lex source).tokens.toList.map (Token.relocate (carriedOffset source)) ∧
      (lex (withCarriageReturns source)).comments.toList =
        (lex source).comments.toList.map (Comment.relocate (carriedOffset source)) ∧
      (lex (withCarriageReturns source)).problems.toList =
        (lex source).problems.toList.map (Problem.relocate (carriedOffset source)) ∧
      ∀ t ∈ (lex source).tokens.toList, ∀ offset ∈ t.marks,
        carriedOffset source (offset + 1) = carriedOffset source offset + 1 := by
  obtain ⟨ls, last, h⟩ := Lexes.total {} source.toList
  obtain ⟨hcarried, hspelled⟩ := h.respelled hcr
  have hplace : Respells crlf (carriedOffset source) 0 0 (ls.flatMap Lexeme.text) := by
    rw [h.text]
    exact respelledOffset_respells crlf source.toList
  have hsize : byteLength (respell crlf source.toList) =
      carriedOffset source (byteLength source.toList) := by
    have := hplace.ends
    rw [h.text, Nat.zero_add, Nat.zero_add] at this
    exact this.symm
  have hmarks := marks_placeFrom hplace h.regular
  obtain ⟨htokens, hcomments, hproblems⟩ :=
    placeFrom_respelled hplace fun l hl => ⟨hspelled l hl, h.regular l hl⟩
  rw [lex, lex, withCarriageReturns, String.toList_ofList, hcarried.tokens, hcarried.comments,
    hcarried.problems, htokens, hcomments, hproblems, h.tokens, h.comments, h.problems, hsize]
  refine ⟨?_, rfl, ?_, fun t ht => ?_⟩
  · rw [List.map_append]
    rfl
  · rw [List.map_append]
    split <;> rfl
  · rcases List.mem_append.mp ht with ht | ht
    · exact hmarks t ht
    · rw [List.mem_singleton.mp ht]
      exact nofun

end ScriptTree
