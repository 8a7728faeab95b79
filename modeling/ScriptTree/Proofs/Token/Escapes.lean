import Mathlib
import ScriptTree.Proofs.Token.Numerals
import ScriptTree.Proofs.Token.Strings

/-! Escape sequences.

`IsEscape` says which escape sequences there are, without the scanner. The scanner reads the longest one
where there is one (`escapeBody_longest`), and where there is none it says so (`isEscapeBody_escapeBody`).
So of the escape sequences of a source the malformed ones are reported, and nothing else is reported as
one (`lex_escapes`). -/
namespace ScriptTree

/-! ### The language of escape sequences -/

/-- What may follow a backslash. -/
inductive IsEscapeBody : List Char → Prop
  | octal {ds} (some : ds ≠ []) (few : ds.length ≤ 3) (digits : ∀ d ∈ ds, d ∈ digitsOf 8) :
      IsEscapeBody ds
  | byte {ds} (two : ds.length = 2) (digits : ∀ d ∈ ds, d ∈ digitsOf 16) : IsEscapeBody ('x' :: ds)
  | unit {ds} (four : ds.length = 4) (digits : ∀ d ∈ ds, d ∈ digitsOf 16) : IsEscapeBody ('u' :: ds)
  | point {ds} (some : ds ≠ []) (digits : ∀ d ∈ ds, d ∈ digitsOf 16) :
      IsEscapeBody ('u' :: '\x7b' :: (ds ++ ['\x7d']))
  | lineBreak : IsEscapeBody ['\r', '\n']
  | single {c} (octal : c ∉ digitsOf 8) (byte : c ≠ 'x') (unicode : c ≠ 'u') : IsEscapeBody [c]

/-- Whether a text is an escape sequence. -/
def IsEscape (text : List Char) : Prop := ∃ body, text = '\\' :: body ∧ IsEscapeBody body

namespace Lexeme

theorem isHex_iff {c : Char} : isHex c = true ↔ c ∈ digitsOf 16 :=
  @isDigitOf_iff 16 (by decide) c

theorem isOctal_iff {c : Char} : isOctal c = true ↔ c ∈ digitsOf 8 := by
  rw [← @isDigitOf_iff 8 (by decide) c]
  have hbound : c ≤ '7' ↔ c.toNat < '0'.toNat + 8 := by
    rw [Char.le_def, UInt32.le_iff_toNat_le]
    exact Nat.lt_succ_iff.symm
  simp [isOctal, isDigitOf, hbound]

/-! ### Scanning -/

section Stretches
variable {n : Nat} {p : Char → Bool} {ds rest cs : List Char}

theorem mem_takeUpTo {c : Char} (h : c ∈ takeUpTo n p cs) : p c = true :=
  List.mem_takeWhile_imp h

theorem length_takeUpTo_le : (takeUpTo n p cs).length ≤ n :=
  (List.takeWhile_prefix p).length_le.trans (List.length_take_le n cs)

/-- A stretch at the head of a text is read to its end, if it is short enough. -/
theorem isPrefix_takeUpTo (rest : List Char) (hall : ∀ d ∈ ds, p d = true) (hlength : ds.length ≤ n) :
    ds <+: takeUpTo n p (ds ++ rest) := by
  rw [takeUpTo, List.take_append, List.take_of_length_le hlength,
    List.takeWhile_append_of_pos hall]
  exact List.prefix_append _ _

theorem takeUpTo_full (rest : List Char) (hall : ∀ d ∈ ds, p d = true) (hlength : ds.length = n) :
    takeUpTo n p (ds ++ rest) = ds :=
  ((isPrefix_takeUpTo rest hall hlength.le).eq_of_length_le
    (length_takeUpTo_le.trans hlength.ge)).symm

end Stretches

/-- Where an escape sequence stands, the scanner finds none malformed and reads on at least as far. -/
theorem escapeBody_longest {body cs : List Char} (h : IsEscapeBody body) (hahead : body <+: cs) :
    (escapeBody cs).2 = true ∧ body.length ≤ (escapeBody cs).1.length := by
  obtain ⟨rest, rfl⟩ := hahead
  cases h with
  | octal some few digits =>
    obtain ⟨d, ds, rfl⟩ := List.exists_cons_of_ne_nil some
    have hd := digits d List.mem_cons_self
    have hne (c : Char) (hc : c ∉ digitsOf 8) : d ≠ c := fun heq => hc (heq ▸ hd)
    have hlong := isPrefix_takeUpTo rest
      (fun c hc => isOctal_iff.mpr (digits c hc)) few
    rw [List.cons_append] at hlong ⊢
    rw [escapeBody_single (hne 'x' (by decide)) (hne 'u' (by decide))
      fun heq => absurd heq (hne '\r' (by decide)), if_pos (isOctal_iff.mpr hd)]
    exact ⟨rfl, hlong.length_le⟩
  | @byte ds two digits =>
    have hds := takeUpTo_full rest (fun d hd => isHex_iff.mpr (digits d hd)) two
    rw [List.cons_append, escapeBody, hds, two]
    exact ⟨rfl, le_rfl⟩
  | @unit ds four digits =>
    have hds := takeUpTo_full rest (fun d hd => isHex_iff.mpr (digits d hd)) four
    have hbrace : (ds ++ rest).head? ≠ some '\x7b' := by
      obtain ⟨d, ds, rfl⟩ := List.exists_cons_of_length_pos (l := ds) (by omega)
      rintro ⟨⟩
      exact absurd (digits _ List.mem_cons_self) (by decide)
    rw [List.cons_append, escapeBody_unicode hbrace, hds, four]
    exact ⟨rfl, le_rfl⟩
  | @point ds some digits =>
    have hds : (ds ++ '\x7d' :: rest).takeWhile isHex = ds := by
      rw [List.takeWhile_append_of_pos fun d hd => isHex_iff.mpr (digits d hd),
        List.takeWhile_cons_of_neg (by decide), List.append_nil]
    rw [List.cons_append, List.cons_append, List.append_assoc, List.singleton_append, escapeBody_brace,
      bracedBody, hds, List.drop_left, List.head?_cons, if_pos rfl]
    exact ⟨by simpa using some, le_rfl⟩
  | lineBreak => exact ⟨rfl, le_rfl⟩
  | @single c octal byte unicode =>
    by_cases hjoined : c = '\r' ∧ rest.head? = some '\n'
    · obtain ⟨rfl, hhead⟩ := hjoined
      obtain ⟨behind, rfl⟩ := List.head?_eq_some_iff.mp hhead
      exact ⟨rfl, Nat.le_succ 1⟩
    · rw [List.singleton_append, escapeBody_single byte unicode fun hc hhead => hjoined ⟨hc, hhead⟩,
        if_neg (mt isOctal_iff.mp octal)]
      exact ⟨rfl, le_rfl⟩

/-- What the scanner finds well-formed is an escape sequence. -/
theorem isEscapeBody_escapeBody {cs : List Char} (h : (escapeBody cs).2 = true) :
    IsEscapeBody (escapeBody cs).1 := by
  cases cs with
  | nil => cases h
  | cons c cs =>
    by_cases hx : c = 'x'
    · subst hx
      exact .byte (beq_iff_eq.mp h) fun d hd => isHex_iff.mp (mem_takeUpTo hd)
    by_cases hu : c = 'u'
    · subst hu
      by_cases hbrace : cs.head? = some '\x7b'
      · obtain ⟨inner, rfl⟩ := List.head?_eq_some_iff.mp hbrace
        rw [escapeBody_brace, bracedBody] at h ⊢
        split at h
        · rename_i hclose
          rw [if_pos hclose]
          exact .point (by simpa using h) fun d hd => isHex_iff.mp (List.mem_takeWhile_imp hd)
        · cases h
      · rw [escapeBody_unicode hbrace] at h ⊢
        exact .unit (beq_iff_eq.mp h) fun d hd => isHex_iff.mp (mem_takeUpTo hd)
    by_cases hjoined : c = '\r' ∧ cs.head? = some '\n'
    · obtain ⟨rfl, hhead⟩ := hjoined
      obtain ⟨behind, rfl⟩ := List.head?_eq_some_iff.mp hhead
      exact .lineBreak
    rw [escapeBody_single hx hu fun hc hhead => hjoined ⟨hc, hhead⟩]
    split
    · rename_i hoctal
      exact .octal (by simp [takeUpTo, hoctal]) length_takeUpTo_le
        fun d hd => isOctal_iff.mp (mem_takeUpTo hd)
    · rename_i hoctal
      exact .single (mt isOctal_iff.mpr hoctal) hx hu

end Lexeme

/-! ### Escape sequences of a source -/

def StringPart.escape? : StringPart → Option Span
  | fragment _ => none
  | escape span => some span

/-- The escape sequences of a token. -/
def Token.escapes (t : Token) : List Span :=
  match t.kind with
  | .string _ parts => parts.filterMap StringPart.escape?
  | .templateEscape => [t.span]
  | _ => []

/-- The escape sequences of a source, in strings and in templates. -/
def Lexed.escapes (out : Lexed) : List Span := out.tokens.toList.flatMap Token.escapes

def Problem.isMalformedEscape (problem : Problem) : Bool := problem.cause = .invalidEscape

/-- Whether an escape sequence of a source is read as it should. -/
structure ReadsEscape (source : String) (span : Span) : Prop where
  opens : ∃ body, (span.slice source).toList = '\\' :: body
  ahead : (span.slice source).toList <+: textFrom source span.start
  reported : ⟨.invalidEscape, span⟩ ∈ (lex source).problems.toList ↔
    ¬IsEscape (span.slice source).toList
  longest : IsEscape (span.slice source).toList →
    IsLongestFront IsEscape (span.slice source).toList (textFrom source span.start)

/-- What the scanner says of the text behind a backslash is what is true of it. -/
theorem readsEscape_of_scanned {source : String} {span : Span} {behind : List Char}
    (hahead : textFrom source span.start = '\\' :: behind)
    (hslice : span.slice source = .ofList ('\\' :: (Lexeme.escapeBody behind).1))
    (hreported : ⟨.invalidEscape, span⟩ ∈ (lex source).problems.toList ↔
      (Lexeme.escapeBody behind).2 = false) : ReadsEscape source span := by
  have hbody := Lexeme.escapeBody_isPrefix behind
  have hiff : IsEscape ('\\' :: (Lexeme.escapeBody behind).1) ↔
      (Lexeme.escapeBody behind).2 = true := by
    constructor
    · rintro ⟨body, hsplit, hescape⟩
      rw [← (List.cons.inj hsplit).2] at hescape
      exact (Lexeme.escapeBody_longest hescape hbody).1
    · exact fun h => ⟨_, rfl, Lexeme.isEscapeBody_escapeBody h⟩
  have htext : (span.slice source).toList = '\\' :: (Lexeme.escapeBody behind).1 := by
    rw [hslice, String.toList_ofList]
  have hfront : '\\' :: (Lexeme.escapeBody behind).1 <+: '\\' :: behind :=
    (List.prefix_cons_inj _).mpr hbody
  constructor <;> rw [htext]
  · exact ⟨_, rfl⟩
  · rwa [hahead]
  · rw [hreported, hiff, Bool.not_eq_true]
  · intro hescape
    rw [hahead]
    refine ⟨hescape, hfront, ?_⟩
    rintro _ ⟨body, rfl, hother⟩ hprefix
    exact Nat.succ_le_succ
      (Lexeme.escapeBody_longest hother ((List.prefix_cons_inj _).mp hprefix)).2

section Tokens
variable {source : String} {t : Token}

theorem ReadFrom.readsEscape_template {text : List Char} {wellFormed : Bool}
    (h : ReadFrom source t (.templateEscape text wellFormed)) : ReadsEscape source t.span := by
  obtain ⟨c, behind, hahead, rfl, rfl, rfl⟩ := h.scanned
  have hproper : t.span.start < t.span.stop := by
    rw [h.span_eq]
    exact h.stands.proper
  have hproblems (text : List Char) (wellFormed : Bool) :
      (Lexeme.templateEscape text wellFormed).problems t.span.start = if wellFormed then [] else
        [⟨.invalidEscape, (Lexeme.templateEscape text wellFormed).span t.span.start⟩] := by
    cases wellFormed <;> rfl
  refine readsEscape_of_scanned hahead h.slice ?_
  rw [h.mem_problems le_rfl hproper, hproblems,
    show (Lexeme.templateEscape _ _).span t.span.start = t.span from h.span_eq.symm]
  cases (Lexeme.escapeBody behind).2 <;> simp

open Lexeme in
theorem ReadFrom.readsEscape_string {quote : Punctuation} {ps : List Piece} {closed : Bool}
    (h : ReadFrom source t (.string quote ps closed)) {offset : Nat} {text : List Char}
    {wellFormed : Bool}
    (hp : (offset, .escape text wellFormed) ∈ piecesFrom (t.span.start + 1) ps) :
    ReadsEscape source ⟨offset, offset + byteLength text⟩ := by
  obtain ⟨mark, _, _, hmark, _⟩ := h.scanned
  have hinside : t.span.start ≤ offset ∧ offset < t.span.stop := by
    have hstop := h.stop_string hmark
    obtain ⟨before, after, rfl, rfl⟩ := mem_piecesFrom hp
    obtain ⟨-, _, _, -, hbody⟩ := h.piece hp
    have hpos := byteLength_pos (hbody.nonempty _ List.mem_cons_self)
    rw [List.flatMap_append, List.flatMap_cons, byteLength_append, byteLength_append] at hstop
    omega
  obtain ⟨hslice, _, _, -, hbody⟩ := h.piece hp
  generalize hahead : textFrom source offset = cs at hbody
  cases hbody with
  | @escape behind =>
    refine readsEscape_of_scanned hahead hslice ?_
    rw [h.mem_problems hinside.1 hinside.2, Lexeme.problems, List.mem_append, escapeProblems_eq]
    constructor
    · rintro (hmem | hmem)
      · obtain ⟨⟨offset', p⟩, hentry, hspan⟩ := List.mem_map.mp hmem
        obtain ⟨hp', hmalformed⟩ := List.mem_filter.mp hentry
        obtain ⟨-, _, _, -, hbody'⟩ := h.piece hp'
        have hoffset : offset' = offset := by
          have := congrArg (fun problem : Problem => problem.span.start) hspan
          rwa [span_partAt] at this
        rw [hoffset, hahead] at hbody'
        -- The same text is ahead of both pieces, so both are well-formed or neither is.
        generalize hcs : '\\' :: behind = cs at hbody'
        cases hbody' with
        | escape =>
          rw [(List.cons.inj hcs).2]
          simpa [Piece.isMalformed] using hmalformed
        | fragment => cases hmalformed
      · exfalso
        split at hmem <;> simp at hmem
    · intro hmalformed
      refine .inl (List.mem_map.mpr ⟨_, List.mem_filter.mpr ⟨hp, ?_⟩, rfl⟩)
      simpa [Piece.isMalformed] using hmalformed

theorem readsEscape_of_mem (ht : t ∈ (lex source).tokens.toList) {span : Span}
    (hspan : span ∈ t.escapes) : ReadsEscape source span := by
  have hreal : t.kind ≠ .endOfFile := by
    intro heof
    rw [Token.escapes, heof] at hspan
    cases hspan
  obtain ⟨l, hread⟩ := exists_readFrom ht hreal
  have hkind := hread.kind_eq
  rw [Token.escapes] at hspan
  cases l with
  | string quote ps closed =>
    rw [← Option.some.inj hkind] at hspan
    obtain ⟨part, hpart, hescape⟩ := List.mem_filterMap.mp hspan
    rw [Lexeme.placePieces_eq] at hpart
    obtain ⟨⟨offset, p⟩, hp, rfl⟩ := List.mem_map.mp hpart
    cases p with
    | fragment => cases hescape
    | escape text wellFormed =>
      cases hescape
      exact hread.readsEscape_string hp
  | templateEscape text wellFormed =>
    rw [← Option.some.inj hkind] at hspan
    rw [List.mem_singleton.mp hspan]
    exact hread.readsEscape_template
  | blank | unexpected | comment => cases hkind
  | _ =>
    rw [← Option.some.inj hkind] at hspan
    cases hspan

end Tokens

/-! ### Reports -/

namespace Lexeme

theorem sublist_escapes_pieces (start : Nat) (ps : List Piece) :
    (((escapeProblems start ps).filter (·.isMalformedEscape)).map Problem.span).Sublist
      ((placePieces start ps).filterMap StringPart.escape?) := by
  rw [escapeProblems_eq, placePieces_eq]
  induction ps generalizing start with
  | nil => exact .slnil
  | cons p ps ih =>
    rw [piecesFrom]
    cases p with
    | fragment text => exact ih (start + byteLength text)
    | escape text wellFormed =>
      cases wellFormed with
      | true => exact (ih (start + byteLength text)).cons _
      | false => exact (ih (start + byteLength text)).cons_cons _

/-- What is reported of a lexeme as malformed are escape sequences of the token that it is. -/
theorem sublist_escapes (l : Lexeme) (start : Nat) :
    (((l.problems start).filter (·.isMalformedEscape)).map Problem.span).Sublist
      ((l.token? start).toList.flatMap Token.escapes) := by
  cases l with
  | string quote ps closed =>
    have hlast : (if closed then [] else
        [(⟨.unterminatedString, (Lexeme.string quote ps closed).span start⟩ : Problem)]).filter
          (·.isMalformedEscape) = [] := by
      cases closed <;> rfl
    have hescapes := sublist_escapes_pieces (start + 1) ps
    rw [problems, List.filter_append, hlast, List.append_nil]
    simpa [token?, tokenKind?, Token.escapes] using hescapes
  | templateEscape text wellFormed =>
    cases wellFormed with
    | true => exact List.nil_sublist _
    | false => exact List.Sublist.refl [_]
  | comment kind text closed => cases closed <;> exact List.nil_sublist _
  | number text missing => cases missing <;> exact List.nil_sublist _
  | regex pattern flags closed => cases closed <;> exact List.nil_sublist _
  | _ => exact List.nil_sublist _

end Lexeme

theorem sublist_escapes_items (items : List Placed) :
    (((items.flatMap Placed.problems).filter (·.isMalformedEscape)).map Problem.span).Sublist
      ((items.filterMap Placed.token?).flatMap Token.escapes) := by
  induction items with
  | nil => exact .slnil
  | cons p items ih =>
    have hfront : ((p :: items).filterMap Placed.token?).flatMap Token.escapes =
        p.token?.toList.flatMap Token.escapes ++
          (items.filterMap Placed.token?).flatMap Token.escapes := by
      rw [List.filterMap_cons]
      cases p.token? <;> simp
    rw [List.flatMap_cons, List.filter_append, List.map_append, hfront]
    exact (p.lexeme.sublist_escapes p.start).append ih

/-- **Escape sequences are read as long as they go.** A malformed one is reported, once and as a whole, and
nothing else is reported as one. -/
theorem lex_escapes (source : String) :
    (∀ span ∈ (lex source).escapes, ReadsEscape source span) ∧
    (((lex source).problems.toList.filter (·.isMalformedEscape)).map Problem.span).Sublist
      (lex source).escapes := by
  refine ⟨fun span hspan => ?_, ?_⟩
  · obtain ⟨t, ht, hmem⟩ := List.mem_flatMap.mp hspan
    exact readsEscape_of_mem ht hmem
  · obtain ⟨items, hitems⟩ := lex_laysOut source
    obtain ⟨last, hproblems, hlast⟩ := hitems.problems
    have hnone : last.filter (·.isMalformedEscape) = [] := by
      refine List.filter_eq_nil_iff.mpr fun problem hproblem => ?_
      rw [hlast problem hproblem]
      exact Bool.false_ne_true
    rw [Lexed.escapes, hitems.tokens, hproblems, List.filter_append, hnone, List.append_nil,
      List.flatMap_append]
    exact (sublist_escapes_items items).trans (List.sublist_append_left _ _)

end ScriptTree
