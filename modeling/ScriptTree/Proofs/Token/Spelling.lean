import Mathlib
import ScriptTree.Proofs.Token.Contexts
import ScriptTree.Proofs.Token.Equality
import ScriptTree.Proofs.Token.Within

/-! How tokens are spelled.

A keyword, an operator and a punctuation mark stand in the source as the vocabulary spells them, and a
name as it is, up to its last character (`Spelled`). Outside of template text a symbol is the longest one
that the text goes on with (`Munched`). `lex_spelling` says both of every token of every source. -/
namespace ScriptTree

/-! ### Names -/

/-- A letter or a low line. -/
def IsNameStart (c : Char) : Prop := 'A' ≤ c ∧ c ≤ 'Z' ∨ 'a' ≤ c ∧ c ≤ 'z' ∨ c = '_'

/-- What may stand in a name behind its first character. -/
def IsNamePart (c : Char) : Prop := IsNameStart c ∨ '0' ≤ c ∧ c ≤ '9' ∨ c = '$'

/-- Whether a text has the form of a name. -/
def IsName (text : List Char) : Prop :=
  ∃ c rest, text = c :: rest ∧ IsNameStart c ∧ ∀ d ∈ rest, IsNamePart d

theorem isIdentifierStart_iff {c : Char} : Lexeme.isIdentifierStart c = true ↔ IsNameStart c := by
  simp [Lexeme.isIdentifierStart, IsNameStart, Char.isAlpha, Char.isUpper, Char.isLower, or_assoc,
    Char.le_def]

theorem isIdentifierPart_iff {c : Char} : Lexeme.isIdentifierPart c = true ↔ IsNamePart c := by
  rw [IsNamePart, ← isIdentifierStart_iff]
  simp [Lexeme.isIdentifierPart, Lexeme.isIdentifierStart, Char.isAlphanum, Char.isDigit, Char.le_def]
  tauto

/-! ### Symbols -/

/-- How operators and marks are spelled that are written with symbols outside of template text, and the
loose spellings. -/
def symbolSpellings : List String :=
  (Operator.all.filter (!·.isWord)).map Operator.spelling ++
    (Punctuation.all.filter fun m =>
      m != .dollarBrace && m != .doubleQuote && m != .singleQuote).map Punctuation.spelling ++
    ["==", "!="]

/-- Whether a spelling is the longest one of symbols at the head of a text. -/
structure IsLongest (spelling : String) (cs : List Char) : Prop where
  known : spelling ∈ symbolSpellings
  ahead : spelling.toList <+: cs
  longest : ∀ other ∈ symbolSpellings, other.toList <+: cs → other.length ≤ spelling.length

namespace Lexeme

theorem pairwise_symbolTable :
    symbolTable.Pairwise fun entry entry' => entry'.1.length ≤ entry.1.length := by
  decide +kernel

theorem symbolTable_spellings :
    (∀ entry ∈ symbolTable, String.ofList entry.1 ∈ symbolSpellings) ∧
      ∀ spelling ∈ symbolSpellings, spelling.toList ∈ symbolTable.map Prod.fst := by
  decide +kernel

/-- In a table with longer texts in front, the first one that fits is the longest. -/
theorem longest_of_find? {table : List (List Char × Lexeme)} {entry : List Char × Lexeme} {cs : List Char}
    (h : table.Pairwise fun entry entry' => entry'.1.length ≤ entry.1.length)
    (hfound : table.find? (fun entry => entry.1.isPrefixOf cs) = some entry) :
    ∀ other ∈ table, other.1.isPrefixOf cs = true → other.1.length ≤ entry.1.length := by
  obtain ⟨_, front, back, rfl, hfront⟩ := List.find?_eq_some_iff_append.mp hfound
  intro other hother hfits
  rcases List.mem_append.mp hother with hother | hother
  · have := hfront other hother
    rw [hfits] at this
    cases this
  · rcases List.mem_cons.mp hother with rfl | hother
    · exact le_rfl
    · exact (List.pairwise_cons.mp (List.pairwise_append.mp h).2.1).1 other hother

theorem isLongest_of_longestSymbol? {cs : List Char} {l : Lexeme} (h : longestSymbol? cs = some l) :
    IsLongest (.ofList l.text) cs := by
  obtain ⟨hnonempty, hfront, _⟩ := longestSymbol?_heads h
  obtain ⟨⟨spelling, l'⟩, hfound, rfl⟩ := Option.map_eq_some_iff.mp h
  have hmem := List.mem_of_find?_eq_some hfound
  obtain ⟨rfl, _⟩ := mem_symbolTable hmem
  obtain ⟨hknown, hall⟩ := symbolTable_spellings
  refine ⟨hknown _ hmem, by rwa [String.toList_ofList], fun other hother hfits => ?_⟩
  obtain ⟨entry, hentry, htext⟩ := List.mem_map.mp (hall other hother)
  have hlongest := longest_of_find? pairwise_symbolTable hfound entry hentry
    (List.isPrefixOf_iff_prefix.mpr (htext ▸ hfits))
  rw [htext] at hlongest
  rw [String.length_ofList]
  exact hlongest

end Lexeme

/-! ### What a source says where it has a token -/

/-- Whether a token is something written with symbols. -/
def TokenKind.isSymbol : TokenKind → Bool
  | operator _ | punctuation _ => true
  | _ => false

/-- The text of a source from an offset on. -/
def textFrom (source : String) (offset : Nat) : List Char := dropBytes offset source.toList

/-- Whether a source has the spelling of a token where the token stands. -/
def Spelled (source : String) (t : Token) : Prop :=
  let text := t.span.slice source
  match t.kind with
  | .keyword word => text = word.spelling ∧ word.isReserved = true
  | .identifier name => text = name ∧ IsName name.toList ∧
      (∀ word : Keyword, word.isReserved = true → word.spelling ≠ name) ∧
      ∀ c ∈ (textFrom source t.span.stop).head?, ¬IsNamePart c
  | .operator o => text = o.spelling ∨
      (text, o) ∈ [("==", Operator.strictEqual), ("!=", Operator.strictUnequal)] ∧
        (lex source).problems.toList.filter (·.span = t.span) = [⟨.looseEquality text o, t.span⟩]
  | .punctuation mark => text = mark.spelling
  | _ => True

/-- Whether a source has no longer symbol where the token stands. A question mark stays alone in front
of a point that opens a number. -/
def Munched (source : String) (t : Token) : Prop :=
  let rest := textFrom source t.span.start
  if Lexeme.digitAhead rest then t.span.slice source = "?"
  else IsLongest (t.span.slice source) rest

namespace Lexeme
variable {ctx : Context} {c : Char} {cs : List Char} {l : Lexeme}

/-! ### Where lexemes come from -/

theorem first_word (h : first ctx c cs = l)
    (hword : (∃ word, l = .keyword word) ∨ ∃ name, l = .identifier name) :
    isIdentifierStart c = true ∧ ofWord (c :: cs) = l := by
  subst h
  by_cases hmode : ∃ modes, ctx.modes = .template :: modes
  · obtain ⟨modes, hmode⟩ := hmode
    rw [first, hmode] at hword
    rcases ofTemplate_cases c cs with h | h | ⟨_, _, h⟩ | ⟨_, h⟩ <;>
    · rw [h] at hword
      simp at hword
  · rw [first_code fun modes h => hmode ⟨modes, h⟩] at hword ⊢
    rcases ofCode_cases ctx c cs with h | h | ⟨_, _, _, h⟩ | ⟨_, _, h⟩ | ⟨hstart, h⟩ | ⟨_, _, _, h⟩ |
      ⟨_, _, _, h⟩ | h
    case inr.inr.inr.inr.inl => exact ⟨hstart, h.symm⟩
    case inr.inr.inr.inr.inr.inr.inr =>
      have hsymbol := mem_symbols h
      rcases hword with ⟨_, hword⟩ | ⟨_, hword⟩ <;>
      · rw [hword] at hsymbol
        simp [symbols] at hsymbol
    all_goals
      rw [h] at hword
      simp at hword

theorem first_symbol (hmode : ¬Nesting.InTemplate ctx.modes) (h : first ctx c cs = l) {start : Nat}
    {kind : TokenKind} (hkind : l.tokenKind? start = some kind) (hsymbol : kind.isSymbol = true) :
    ofSymbol? (c :: cs) = some l := by
  subst h
  rw [first_code fun modes h => hmode (h ▸ rfl)] at hkind ⊢
  rcases ofCode_cases ctx c cs with h | h | ⟨_, _, _, h⟩ | ⟨_, _, h⟩ | ⟨_, h⟩ | ⟨_, _, _, h⟩ |
    ⟨_, _, _, h⟩ | h
  case inr.inr.inr.inr.inl =>
    rw [h] at hkind
    rcases ofWord_cases (c :: cs) with ⟨_, _, h⟩ | ⟨_, h⟩ <;>
    · rw [h] at hkind
      cases hkind
      cases hsymbol
  case inr.inr.inr.inr.inr.inr.inr => exact h
  all_goals
    rw [h] at hkind
    cases hkind
    try cases hsymbol

theorem mem_looseSpellings_of_first {spelling : String} {o : Operator}
    (h : first ctx c cs = .loose spelling o) : (spelling, o) ∈ Operator.looseSpellings := by
  have hcode : ∀ modes, ctx.modes ≠ .template :: modes := by
    intro modes hmode
    rw [first, hmode] at h
    exact ofTemplate_ne_loose _ _ _ _ h
  rw [first_code hcode] at h
  exact mem_looseSpellings (ofSymbol?_of_ofCode h)

theorem isName_takeWhile (h : isIdentifierStart c = true) :
    IsName ((c :: cs).takeWhile isIdentifierPart) := by
  have hpart : isIdentifierPart c = true :=
    isIdentifierPart_iff.mpr (.inl (isIdentifierStart_iff.mp h))
  refine ⟨c, cs.takeWhile isIdentifierPart, List.takeWhile_cons_of_pos hpart,
    isIdentifierStart_iff.mp h, fun d hd => ?_⟩
  exact isIdentifierPart_iff.mp (List.mem_takeWhile_imp hd)

end Lexeme

/-! ### Reports about one lexeme -/

/-- Nothing is reported of a stretch that keeps clear of lexemes. -/
theorem filter_problems_apart (start : Nat) {ls : List Lexeme} (hregular : ∀ l ∈ ls, l.Regular)
    {span : Span} (hproper : span.start < span.stop)
    (hapart : start + byteLength (ls.flatMap Lexeme.text) ≤ span.start ∨ span.stop ≤ start) :
    ((placeFrom start ls).flatMap Placed.problems).filter (·.span = span) = [] := by
  refine List.filter_eq_nil_iff.mpr fun problem hproblem => ?_
  obtain ⟨p, hp, hreported⟩ := List.mem_flatMap.mp hproblem
  obtain ⟨before, after, rfl, hstart⟩ := mem_placeFrom hp
  obtain ⟨front, inner, ⟨back, htext⟩, hspan⟩ :=
    Lexeme.problems_covered (hregular p.lexeme (by simp)) problem hreported
  rw [List.flatMap_append, List.flatMap_cons, ← htext] at hapart
  simp only [byteLength_append] at hapart
  rw [decide_eq_true_eq, hspan]
  rintro rfl
  simp only [byteLength_append] at hproper hapart
  omega

/-- What is reported of the stretch of a lexeme is what the lexeme reports of it. -/
theorem filter_problems_here {source : String} {last : Context} {before after : List Lexeme} {l : Lexeme}
    (h : Lexes {} source.toList (before ++ l :: after) last) {start : Nat}
    (hstart : start = byteLength (before.flatMap Lexeme.text)) :
    (lex source).problems.toList.filter (·.span = l.span start) =
      (l.problems start).filter (·.span = l.span start) := by
  have hregular := h.regular
  have hproper : (l.span start).start < (l.span start).stop :=
    Nat.lt_add_of_pos_right (byteLength_pos (h.nonempty l (by simp)))
  have hbefore : ∀ m ∈ before, m.Regular := fun m hm => hregular m (List.mem_append_left _ hm)
  have hafter : ∀ m ∈ after, m.Regular := fun m hm => hregular m (by simp [hm])
  have hfront := filter_problems_apart 0 hbefore hproper
    (.inl (by rw [Nat.zero_add, ← hstart]; exact le_rfl))
  have hback := filter_problems_apart (start + l.size) hafter hproper (.inr le_rfl)
  have hend : (if last.modes.contains .template then
      [(⟨.unterminatedTemplate, .empty (byteLength source.toList)⟩ : Problem)] else []).filter
        (·.span = l.span start) = [] := by
    refine List.filter_eq_nil_iff.mpr fun problem hproblem => ?_
    obtain rfl := List.mem_singleton.mp (List.mem_ite_nil_right.mp hproblem).2
    rw [decide_eq_true_eq]
    intro hspan
    rw [← hspan] at hproper
    exact absurd hproper (Nat.lt_irrefl _)
  rw [lex, h.problems, placeFrom_append, Nat.zero_add, ← hstart, placeFrom, List.flatMap_append,
    List.flatMap_cons, List.filter_append, List.filter_append, List.filter_append, hfront, hback, hend,
    List.nil_append, List.append_nil, List.append_nil]
  rfl

/-! ### Every token -/

section Tokens
variable {source : String} {t : Token} {ctx : Context} {front behind rest : List Char} {c : Char}
  {l : Lexeme}

theorem spelled_of_first (hslice : t.span.slice source = .ofList l.text)
    (hbehind : textFrom source t.span.stop = rest) (hfirst : Lexeme.first ctx c behind = l)
    (hsplit : c :: behind = l.text ++ rest) (hkind : l.tokenKind? t.span.start = some t.kind)
    (hproblems : (lex source).problems.toList.filter (·.span = t.span) =
      (l.problems t.span.start).filter (·.span = t.span))
    (hspan : t.span = l.span t.span.start) : Spelled source t := by
  rw [Spelled, hslice, hbehind, hproblems]
  cases l with
  | blank | unexpected | comment => cases hkind
  | number | string | regex | templateChars | templateEscape =>
    rw [← Option.some.inj hkind]
    trivial
  | keyword word =>
    rw [← Option.some.inj hkind]
    refine ⟨String.ofList_toList, ?_⟩
    obtain ⟨_, hword⟩ := Lexeme.first_word hfirst (.inl ⟨word, rfl⟩)
    rcases Lexeme.ofWord_cases (c :: behind) with ⟨_, hreserved, h⟩ | ⟨_, h⟩
    · rw [hword] at h
      cases h
      exact hreserved
    · rw [hword] at h
      cases h
  | identifier name =>
    rw [← Option.some.inj hkind]
    obtain ⟨hstart, hword⟩ := Lexeme.first_word hfirst (.inr ⟨name, rfl⟩)
    rcases Lexeme.ofWord_cases (c :: behind) with ⟨_, _, h⟩ | ⟨hnone, h⟩
    · rw [hword] at h
      cases h
    rw [hword] at h
    obtain rfl : name = (c :: behind).takeWhile Lexeme.isIdentifierPart := Lexeme.identifier.inj h
    refine ⟨rfl, ?_, Keyword.spelling_ne hnone, fun d hd hpart => ?_⟩
    · rw [String.toList_ofList]
      exact Lexeme.isName_takeWhile hstart
    · have hover := Lexeme.head_any_of_takeWhile
        (congrArg (List.takeWhile Lexeme.isIdentifierPart) hsplit.symm)
      rw [Option.mem_def.mp hd] at hover
      exact absurd (isIdentifierPart_iff.mpr hpart) (Bool.eq_false_iff.mp hover)
  | operator o =>
    rw [← Option.some.inj hkind]
    exact .inl String.ofList_toList
  | loose spelling strict =>
    rw [← Option.some.inj hkind]
    refine .inr ⟨?_, ?_⟩
    · rw [Lexeme.text, String.ofList_toList]
      exact Lexeme.mem_looseSpellings_of_first hfirst
    · rw [Lexeme.problems, Lexeme.text, String.ofList_toList, ← hspan]
      exact List.filter_cons_of_pos (decide_eq_true rfl)
  | punctuation mark =>
    rw [← Option.some.inj hkind]
    exact String.ofList_toList

theorem munched_of_symbol (hslice : t.span.slice source = .ofList l.text)
    (hahead : textFrom source t.span.start = c :: behind)
    (hsymbol : Lexeme.ofSymbol? (c :: behind) = some l) : Munched source t := by
  rw [Munched, hslice, hahead]
  split
  · rename_i hopens
    obtain rfl := Option.some.inj ((Lexeme.ofSymbol?_question hopens).symm.trans hsymbol)
    rfl
  · rename_i hopens
    rw [Lexeme.ofSymbol?_eq_longest (Bool.eq_false_of_not_eq_true hopens)] at hsymbol
    exact Lexeme.isLongest_of_longestSymbol? hsymbol

end Tokens

/-- **Tokens are spelled as the vocabulary has it, and read as long as they go**: outside of template text
a symbol is the longest that the text goes on with. -/
theorem lex_spelling (source : String) : ∃ tokens,
    (lex source).tokens.toList = tokens ++ [⟨.endOfFile, .empty source.utf8ByteSize⟩] ∧
    ∀ front t back, tokens = front ++ t :: back → Spelled source t ∧
      ∃ stack, Nesting.run [] front = some stack ∧
        (¬Nesting.InTemplate stack → t.kind.isSymbol = true → Munched source t) := by
  obtain ⟨ls, last, h⟩ := Lexes.total {} source.toList
  refine ⟨Nesting.tokensFrom 0 ls, ?_, fun front t back hsplit => ?_⟩
  · rw [lex, h.tokens, ← utf8ByteSize_ofList, String.ofList_toList]
    rfl
  obtain ⟨before, l, after, c, behind, rfl, hsource, htext, hfirst, htoken, hrun⟩ := h.at_token hsplit
  obtain ⟨kind, hkind, rfl⟩ := Option.map_eq_some_iff.mp htoken
  set start := byteLength (before.flatMap Lexeme.text) with hstart
  have hstands : Placed.StandsIn ⟨start, l⟩ source := by
    refine h.standsIn _ ?_
    rw [placeFrom_append, Nat.zero_add]
    exact List.mem_append_right _ (List.mem_cons_self ..)
  have hslice : (l.span start).slice source = .ofList l.text := hstands.slice_eq
  have hahead : textFrom source start = c :: behind := by
    rw [textFrom, hsource, hstart, ← Nat.add_zero (byteLength _), dropBytes_append, dropBytes_zero]
  have hbehind : textFrom source (start + l.size) = after.flatMap Lexeme.text := by
    rw [textFrom, hsource, htext, ← List.append_assoc, hstart, Lexeme.size, ← byteLength_append,
      ← Nat.add_zero (byteLength _), dropBytes_append, dropBytes_zero]
  refine ⟨spelled_of_first hslice hbehind hfirst htext hkind (filter_problems_here h hstart) rfl, _,
    hrun, fun hmode hsymbol => ?_⟩
  exact munched_of_symbol hslice hahead (Lexeme.first_symbol hmode hfirst hkind hsymbol)

example : ((lex "a?.5:b?.c**=1>>>=2").tokens.toList.filter (·.kind.isSymbol)).map (·.kind.describe) =
    ["'?'", "':'", "'?.'", "'**='", "'>>>='"] := by decide +kernel

end ScriptTree
