import Mathlib
import ScriptTree.Proofs.Parsing.Stream
import ScriptTree.Proofs.Token.Placing

/-! Strings and regular expressions of a source, taken apart.

The parser judges from spans alone whether the closing mark is there. For what the lexer makes that
is the same as asking whether the lexeme is closed, so the leaves tile the token, and a closing leaf
that was made up comes with the report that the lexeme has no end (`StandsIn.takenApart`). -/
namespace ScriptTree

open Parsing

/-- What a string or regular expression of a source is like when it has been taken apart. -/
structure TakenApart (source : String) (problems : List Problem) (span : Span) (n : Node) :
    Prop where
  row : Matches n.symbol.row n.children
  tiles : Tiles span.start n.children span.stop
  fits : ∀ m ∈ n.children, m.span.Fits source
  proper : ∀ m ∈ n.children, m.missing = false → m.symbol ≠ .named .regexPattern →
    m.span.start < m.span.stop
  unended : ∀ m ∈ n.children, m.missing = true →
    (n.symbol = .named .string ∧ ⟨.unterminatedString, span⟩ ∈ problems) ∨
      (n.symbol = .named .regex ∧ ⟨.unterminatedRegex, span⟩ ∈ problems)

/-- Whether a node covers a stretch of a text that starts at an offset. -/
def CoversPart (start : Nat) (text : List Char) (n : Node) : Prop :=
  ∃ front back, front <+: text ∧ back <+: text ∧
    n.span = ⟨start + byteLength front, start + byteLength back⟩

theorem Placed.StandsIn.fits_part {p : Placed} {source : String} (h : p.StandsIn source) {n : Node}
    (hn : CoversPart p.start p.lexeme.text n) : n.span.Fits source := by
  obtain ⟨front, back, hfront, hback, hspan⟩ := hn
  rw [hspan]
  exact ⟨h.isValid hfront, h.isValid hback⟩

theorem CoversPart.shift {start : Nat} {front text : List Char} {n : Node}
    (h : CoversPart (start + byteLength front) text n) : CoversPart start (front ++ text) n := by
  obtain ⟨x, y, hx, hy, hspan⟩ := h
  refine ⟨front ++ x, front ++ y, (List.prefix_append_right_inj front).mpr hx,
    (List.prefix_append_right_inj front).mpr hy, ?_⟩
  rw [hspan, byteLength_append, byteLength_append, Nat.add_assoc, Nat.add_assoc]

theorem CoversPart.extend {start : Nat} {text more : List Char} {n : Node}
    (h : CoversPart start text n) : CoversPart start (text ++ more) n := by
  obtain ⟨x, y, hx, hy, hspan⟩ := h
  have hmore := List.prefix_append text more
  exact ⟨x, y, hx.trans hmore, hy.trans hmore, hspan⟩

/-! ### Pieces of strings -/

open Lexeme

theorem getLast?_placePieces (start : Nat) (ps : List Piece) :
    ((placePieces start ps).getLast?.map fun part => part.span.stop).getD start =
      start + byteLength (ps.flatMap Piece.text) := by
  induction ps generalizing start with
  | nil => rfl
  | cons p ps ih =>
    rw [List.flatMap_cons, byteLength_append, ← Nat.add_assoc, ← ih]
    cases p <;>
    · rw [placePieces, List.getLast?_cons, Option.map_some, Option.getD_some]
      cases (placePieces _ ps).getLast? <;> rfl

theorem tiles_placePieces {start stop : Nat} {ps : List Piece} {ns : List Node}
    (rest : Tiles (start + byteLength (ps.flatMap Piece.text)) ns stop) :
    Tiles start ((placePieces start ps).map partNode ++ ns) stop := by
  induction ps generalizing start with
  | nil => exact rest
  | cons p ps ih =>
    rw [List.flatMap_cons, byteLength_append, ← Nat.add_assoc] at rest
    cases p with
    | fragment text => exact .present rfl (Nat.le_add_right _ _) rfl (ih rest)
    | escape text wellFormed => exact .present rfl (Nat.le_add_right _ _) rfl (ih rest)

theorem placePieces_covers {start : Nat} {ps : List Piece} {n : Node}
    (h : n ∈ (placePieces start ps).map partNode) :
    CoversPart start (ps.flatMap Piece.text) n := by
  induction ps generalizing start with
  | nil => cases h
  | cons p ps ih =>
    rw [List.flatMap_cons]
    rcases List.mem_cons.mp h with rfl | h
    · exact ⟨[], p.text, List.nil_prefix, List.prefix_append _ _, by cases p <;> rfl⟩
    · exact (ih h).shift

theorem placePieces_proper {start : Nat} {ps : List Piece} (hps : ∀ p ∈ ps, p.text ≠ []) {n : Node}
    (h : n ∈ (placePieces start ps).map partNode) : n.span.start < n.span.stop := by
  induction ps generalizing start with
  | nil => cases h
  | cons p ps ih =>
    obtain ⟨hp, hps⟩ := List.forall_mem_cons.mp hps
    rcases List.mem_cons.mp h with rfl | h
    · have := byteLength_pos hp
      cases p <;> exact Nat.lt_add_of_pos_right this
    · exact ih hps h

theorem role_partNode (part : StringPart) :
    (partNode part).role ∈ Role.plain [.stringFragment, .escapeSequence] := by
  cases part with
  | fragment => exact List.mem_cons_self ..
  | escape => exact List.mem_cons_of_mem _ (List.mem_cons_self ..)

theorem missing_partNode (part : StringPart) : (partNode part).missing = false := by
  cases part <;> rfl

/-! ### Closing marks -/

/-- A closing mark that is there is one byte wide, and one that is not has no width. -/
theorem tiles_closingNode {symbol : Symbol} {closed : Bool} {offset stop : Nat} {ns : List Node}
    (rest : Tiles (offset + if closed then 1 else 0) ns stop) :
    Tiles offset (closingNode symbol closed offset :: ns) stop := by
  cases closed with
  | false => exact .empty rfl rest
  | true => exact .present rfl (Nat.le_add_right _ _) rfl rest

theorem closingNode_covers {symbol : Symbol} {closed : Bool} {start : Nat} {text mark : List Char}
    (hmark : byteLength mark = 1) :
    CoversPart start (text ++ if closed then mark else [])
      (closingNode symbol closed (start + byteLength text)) := by
  cases closed with
  | false => exact ⟨text, text, List.prefix_append _ _, List.prefix_append _ _, rfl⟩
  | true =>
    refine ⟨text, text ++ mark, List.prefix_append _ _, List.prefix_refl _, ?_⟩
    rw [byteLength_append, hmark]
    rfl

theorem missing_closingNode {symbol : Symbol} {closed : Bool} {offset : Nat} :
    (closingNode symbol closed offset).missing = !closed := by
  cases closed <;> rfl

theorem proper_closingNode {symbol : Symbol} {closed : Bool} {offset : Nat}
    (hpresent : (closingNode symbol closed offset).missing = false) :
    (closingNode symbol closed offset).span.start < (closingNode symbol closed offset).span.stop := by
  cases closed with
  | false => cases hpresent
  | true => exact Nat.lt_succ_self _

theorem role_closingNode {symbol : Symbol} {closed : Bool} {offset : Nat} :
    (closingNode symbol closed offset).role = (none, symbol) := by
  cases closed <;> rfl

/-! ### Tokens -/

namespace Placed.StandsIn
variable {p : Placed} {source : String}

theorem string_takenApart (h : p.StandsIn source) {quote : Punctuation} {ps : List Piece}
    {closed : Bool} (hp : p.lexeme = .string quote ps closed) :
    TakenApart source p.problems p.span
      (.ofChildren .string (stringPieces p.span quote (placePieces (p.start + 1) ps))) := by
  obtain ⟨hregular, hpieces⟩ : (quote = .doubleQuote ∨ quote = .singleQuote) ∧
      ∀ p ∈ ps, p.text ≠ [] := by simpa only [hp, Regular] using h.regular
  have hmark : byteLength quote.spelling.toList = 1 := by
    rcases hregular with rfl | rfl <;> decide
  have htext : p.lexeme.text = quote.spelling.toList ++ ps.flatMap Piece.text ++
      if closed then quote.spelling.toList else [] := by rw [hp, text]
  have hcontent : contentStop p.start (placePieces (p.start + 1) ps) =
      p.start + 1 + byteLength (ps.flatMap Piece.text) := getLast?_placePieces ..
  have hstop : p.span.stop = p.start + 1 + byteLength (ps.flatMap Piece.text) +
      if closed then 1 else 0 := by
    show p.start + byteLength p.lexeme.text = _
    rw [htext, byteLength_append, byteLength_append, hmark, ← Nat.add_assoc, ← Nat.add_assoc]
    cases closed with
    | false => rfl
    | true => exact congrArg _ hmark
  have hclosed : decide (contentStop p.start (placePieces (p.start + 1) ps) < p.span.stop) =
      closed := by
    rw [hcontent, hstop]
    cases closed <;> simp
  have hleaves : stringPieces p.span quote (placePieces (p.start + 1) ps) =
      Node.leaf (.punctuation quote) ⟨p.start, p.start + 1⟩ ::
        ((placePieces (p.start + 1) ps).map partNode ++
          [closingNode (.punctuation quote) closed
            (p.start + 1 + byteLength (ps.flatMap Piece.text))]) := by
    rw [← hclosed, ← hcontent]
    rfl
  have hrole : ((none, .punctuation quote) : Role) ∈
      Role.mark .doubleQuote ++ Role.mark .singleQuote := by
    rcases hregular with rfl | rfl <;> decide
  rw [hleaves]
  refine ⟨?_, ?_, fun m hm => ?_, fun m hm hpresent _ => ?_, fun m hm hmissing => ?_⟩
  · refine .one hrole (.many (fun part hpart => ?_) (.one ?_ .nil))
    · obtain ⟨part, _, rfl⟩ := List.mem_map.mp hpart
      exact role_partNode part
    · rw [role_closingNode]
      exact hrole
  · refine .present rfl (Nat.le_add_right _ _) rfl (tiles_placePieces (tiles_closingNode ?_))
    rw [hstop]
    exact .nil
  · refine h.fits_part ?_
    rw [htext]
    rcases List.mem_cons.mp hm with rfl | hm
    · exact (CoversPart.extend
        ⟨[], quote.spelling.toList, List.nil_prefix, List.prefix_append _ _, by rw [hmark]; rfl⟩)
    rcases List.mem_append.mp hm with hm | hm
    · rw [← hmark] at hm
      exact (placePieces_covers hm).shift.extend
    · rw [List.mem_singleton.mp hm, ← hmark, Nat.add_assoc, ← byteLength_append]
      exact closingNode_covers hmark
  · rcases List.mem_cons.mp hm with rfl | hm
    · exact Nat.lt_succ_self _
    rcases List.mem_append.mp hm with hm | hm
    · exact placePieces_proper hpieces hm
    · obtain rfl := List.mem_singleton.mp hm
      exact proper_closingNode hpresent
  · rcases List.mem_cons.mp hm with rfl | hm
    · cases hmissing
    rcases List.mem_append.mp hm with hm | hm
    · obtain ⟨part, _, rfl⟩ := List.mem_map.mp hm
      rw [missing_partNode] at hmissing
      cases hmissing
    · rw [List.mem_singleton.mp hm, missing_closingNode, Bool.not_eq_true'] at hmissing
      refine .inl ⟨rfl, ?_⟩
      simp [Placed.problems, hp, Lexeme.problems, hmissing, Placed.span]

theorem regex_takenApart (h : p.StandsIn source) {pattern flags : List Char} {closed : Bool}
    (hp : p.lexeme = .regex pattern flags closed) {flagsSpan : Option Span}
    (hflags : flagsSpan = if flags.isEmpty then none else
      some ⟨p.start + 1 + byteLength pattern + 1,
        p.start + 1 + byteLength pattern + 1 + byteLength flags⟩) :
    TakenApart source p.problems p.span
      (.ofChildren .regex (regexPieces p.span ⟨p.start + 1, p.start + 1 + byteLength pattern⟩
        flagsSpan)) := by
  have hregular : closed = false → flags = [] := by simpa only [hp, Regular] using h.regular
  have hslash : byteLength ['/'] = 1 := by decide
  have htext : p.lexeme.text = (['/'] ++ pattern ++ if closed then ['/'] else []) ++ flags := by
    rw [hp, text]
    cases closed with
    | false => simp [hregular rfl]
    | true => simp
  have hstop : p.span.stop = p.start + 1 + byteLength pattern + (if closed then 1 else 0) +
      byteLength flags := by
    show p.start + byteLength p.lexeme.text = _
    rw [htext, byteLength_append, byteLength_append, byteLength_append, hslash]
    cases closed with
    | false => simp only [Bool.false_eq_true, if_false, byteLength, List.foldr_nil]; omega
    | true => simp only [if_true, hslash]; omega
  have hclosed : decide (p.start + 1 + byteLength pattern < p.span.stop) = closed := by
    rw [hstop]
    cases closed with
    | false => simp [hregular rfl, byteLength]
    | true => simp only [if_true, decide_eq_true_eq]; omega
  have hleaves : regexPieces p.span ⟨p.start + 1, p.start + 1 + byteLength pattern⟩ flagsSpan =
      [Node.leaf (.operator .divide) ⟨p.start, p.start + 1⟩,
        (Node.leaf (.named .regexPattern)
          ⟨p.start + 1, p.start + 1 + byteLength pattern⟩).withField .pattern,
        closingNode (.operator .divide) closed (p.start + 1 + byteLength pattern)] ++
      flagsSpan.toList.map fun flags =>
        (Node.leaf (.named .regexFlags) flags).withField .flags := by
    rw [regexPieces, hclosed]
    rfl
  have hopening : CoversPart p.start p.lexeme.text
      (Node.leaf (.operator .divide) ⟨p.start, p.start + 1⟩) := by
    rw [htext, List.append_assoc, List.append_assoc]
    exact ⟨[], ['/'], List.nil_prefix, List.prefix_append _ _, by rw [hslash]; rfl⟩
  have hpattern : CoversPart p.start p.lexeme.text ((Node.leaf (.named .regexPattern)
      ⟨p.start + 1, p.start + 1 + byteLength pattern⟩).withField .pattern) := by
    rw [htext, List.append_assoc (['/'] ++ pattern)]
    refine .extend ⟨['/'], ['/'] ++ pattern, List.prefix_append _ _, List.prefix_refl _, ?_⟩
    rw [byteLength_append, hslash, ← Nat.add_assoc]
    rfl
  have hclosing : CoversPart p.start p.lexeme.text
      (closingNode (.operator .divide) closed (p.start + 1 + byteLength pattern)) := by
    rw [htext, ← hslash, Nat.add_assoc, ← byteLength_append]
    exact (closingNode_covers hslash).extend
  have hmissing : ∀ m, m = closingNode (.operator .divide) closed
      (p.start + 1 + byteLength pattern) → m.missing = true →
      (⟨.unterminatedRegex, p.span⟩ : Problem) ∈ p.problems := by
    rintro m rfl hmissing
    rw [missing_closingNode, Bool.not_eq_true'] at hmissing
    simp [Placed.problems, hp, Lexeme.problems, hmissing, Placed.span]
  have hclosingRole : (closingNode (.operator .divide) closed
      (p.start + 1 + byteLength pattern)).role ∈ Role.sign .divide := by
    rw [role_closingNode]
    exact List.mem_singleton.mpr rfl
  rw [hleaves]
  by_cases hempty : flags = []
  · subst hempty
    cases hflags
    refine ⟨?_, ?_, fun m hm => h.fits_part ?_, fun m hm hpresent hpattern => ?_,
      fun m hm hm' => .inr ⟨rfl, ?_⟩⟩
    · exact .one (List.mem_singleton.mpr rfl) (.one (List.mem_singleton.mpr rfl)
        (.one hclosingRole (.absent .nil)))
    · refine .present rfl (Nat.le_add_right _ _) rfl (.present rfl (Nat.le_add_right _ _) rfl
        (tiles_closingNode ?_))
      rw [hstop]
      exact .nil
    · rcases hm with _ | ⟨_, _ | ⟨_, _ | ⟨_, ⟨⟩⟩⟩⟩
      · exact hopening
      · exact hpattern
      · exact hclosing
    · rcases hm with _ | ⟨_, _ | ⟨_, _ | ⟨_, ⟨⟩⟩⟩⟩
      · exact Nat.lt_succ_self _
      · exact absurd rfl hpattern
      · exact proper_closingNode hpresent
    · rcases hm with _ | ⟨_, _ | ⟨_, _ | ⟨_, ⟨⟩⟩⟩⟩
      · cases hm'
      · cases hm'
      · exact hmissing _ rfl hm'
  · rw [if_neg (by simpa using hempty)] at hflags
    subst hflags
    obtain rfl : closed = true := by
      by_contra hopen
      exact hempty (hregular (by simpa using hopen))
    have hflag : CoversPart p.start p.lexeme.text ((Node.leaf (.named .regexFlags)
        ⟨p.start + 1 + byteLength pattern + 1,
          p.start + 1 + byteLength pattern + 1 + byteLength flags⟩).withField .flags) := by
      refine ⟨['/'] ++ pattern ++ ['/'], p.lexeme.text, ?_, List.prefix_refl _, ?_⟩
      · rw [htext]
        exact List.prefix_append _ _
      · rw [htext]
        simp only [byteLength_append, hslash, if_true, ← Nat.add_assoc]
        rfl
    refine ⟨?_, ?_, fun m hm => h.fits_part ?_, fun m hm hpresent hpattern => ?_,
      fun m hm hm' => .inr ⟨rfl, ?_⟩⟩
    · exact .one (List.mem_singleton.mpr rfl) (.one (List.mem_singleton.mpr rfl)
        (.one hclosingRole (.present (List.mem_singleton.mpr rfl) .nil)))
    · refine .present rfl (Nat.le_add_right _ _) rfl (.present rfl (Nat.le_add_right _ _) rfl
        (tiles_closingNode (.present rfl (Nat.le_add_right _ _) rfl ?_)))
      rw [hstop]
      exact .nil
    · rcases hm with _ | ⟨_, _ | ⟨_, _ | ⟨_, _ | ⟨_, ⟨⟩⟩⟩⟩⟩
      · exact hopening
      · exact hpattern
      · exact hclosing
      · exact hflag
    · rcases hm with _ | ⟨_, _ | ⟨_, _ | ⟨_, _ | ⟨_, ⟨⟩⟩⟩⟩⟩
      · exact Nat.lt_succ_self _
      · exact absurd rfl hpattern
      · exact proper_closingNode hpresent
      · exact Nat.lt_add_of_pos_right (byteLength_pos hempty)
    · rcases hm with _ | ⟨_, _ | ⟨_, _ | ⟨_, _ | ⟨_, ⟨⟩⟩⟩⟩⟩
      · cases hm'
      · cases hm'
      · exact hmissing _ rfl hm'
      · cases hm'

/-- A string or regular expression of a source is taken apart as the grammar says. -/
theorem takenApart (h : p.StandsIn source) {token : Token} (htoken : p.token? = some token)
    {n : Node} (hn : literalNode? token = some n) :
    TakenApart source p.problems p.span n := by
  obtain ⟨kind, hkind, rfl⟩ := Option.map_eq_some_iff.mp htoken
  cases hp : p.lexeme with
  | string quote ps closed =>
    rw [hp] at hkind
    cases hkind
    cases hn
    exact h.string_takenApart hp
  | regex pattern flags closed =>
    rw [hp] at hkind
    cases hkind
    cases hn
    exact h.regex_takenApart hp rfl
  | _ =>
    rw [hp] at hkind
    cases hkind <;> cases hn

end Placed.StandsIn

end ScriptTree
