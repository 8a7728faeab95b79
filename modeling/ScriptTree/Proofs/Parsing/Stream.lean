import Mathlib
import ScriptTree.Parsing.Program
import ScriptTree.Proofs.Grammar.Shape
import ScriptTree.Proofs.Tree.Layout

/-! Token lists as the parser reads them. -/
namespace ScriptTree.Parsing

/-- What the token at an index is. -/
def kindAt (tokens : Array Token) (i : Nat) : TokenKind := (tokenAt tokens i).kind

/-- Where the token at an index stands. -/
def spanAt (tokens : Array Token) (i : Nat) : Span := (tokenAt tokens i).span

/-- The offset behind the token in front of an index. -/
def stopBefore (tokens : Array Token) (i : Nat) : Nat :=
  if i = 0 then 0 else (spanAt tokens (i - 1)).stop

/-! ### Stretches of tokens -/

section Stretches
variable {tokens : Array Token} {i p q : Nat}

theorem kindAt_eq_getElem (h : i < tokens.size) : kindAt tokens i = tokens[i].kind := by
  simp [kindAt, tokenAt, Array.getD, h]

/-- Behind the last token there are only ends. -/
theorem lt_size_of_real (h : kindAt tokens i ≠ .endOfFile) : i < tokens.size := by
  by_contra hge
  refine h ?_
  rw [kindAt, tokenAt, Array.getD_eq_getD_getElem?, Array.getElem?_eq_none (Nat.not_lt.mp hge)]
  rfl

theorem extract_eq_cons {p m : Nat} (hlt : p < m) (hm : m ≤ tokens.size) :
    (tokens.extract p m).toList = tokenAt tokens p :: (tokens.extract (p + 1) m).toList := by
  have hp : p < tokens.toList.length := by
    rw [Array.length_toList]
    omega
  have htoken : tokenAt tokens p = tokens.toList[p] := by
    simp [tokenAt, Array.getD_eq_getD_getElem?, hlt.trans_le hm]
  rw [Array.toList_extract, Array.toList_extract, htoken, List.extract_eq_take_drop,
    List.extract_eq_take_drop, List.drop_eq_getElem_cons hp]
  obtain ⟨d, hd⟩ : ∃ d, m - p = d + 1 := ⟨m - p - 1, by omega⟩
  rw [hd, List.take_succ_cons, show m - (p + 1) = d by omega]

/-- The kinds of the tokens from one index up to another. -/
def kindsBetween (tokens : Array Token) (p q : Nat) : List TokenKind :=
  (tokens.extract p q).toList.map Token.kind

theorem kindsBetween_cons (hlt : p < q) (hq : q ≤ tokens.size) :
    kindsBetween tokens p q = kindAt tokens p :: kindsBetween tokens (p + 1) q := by
  rw [kindsBetween, extract_eq_cons hlt hq]
  rfl

theorem kindsBetween_append {m : Nat} (hp : p ≤ m) (hq : m ≤ q) :
    kindsBetween tokens p q = kindsBetween tokens p m ++ kindsBetween tokens m q := by
  rw [kindsBetween, kindsBetween, kindsBetween, ← List.map_append, ← Array.toList_append,
    Array.extract_append_extract, Nat.min_eq_left hp, Nat.max_eq_right hq]

end Stretches

/-! ### Strings and regular expressions taken apart -/

def partNode : StringPart → Node
  | .fragment span => .leaf (.named .stringFragment) span
  | .escape span => .leaf (.named .escapeSequence) span

def closingNode (symbol : Symbol) (closed : Bool) (offset : Nat) : Node :=
  if closed then .leaf symbol ⟨offset, offset + 1⟩ else .absent symbol offset

/-- The leaves of a string token. -/
def stringPieces (span : Span) (quote : Punctuation) (parts : List StringPart) : List Node :=
  let stop := contentStop span.start parts
  Node.leaf (.punctuation quote) ⟨span.start, span.start + 1⟩ ::
    (parts.map partNode ++ [closingNode (.punctuation quote) (stop < span.stop) stop])

/-- The leaves of a regular expression token. -/
def regexPieces (span pattern : Span) (flags : Option Span) : List Node :=
  [.leaf (.operator .divide) ⟨span.start, span.start + 1⟩,
    (Node.leaf (.named .regexPattern) pattern).withField .pattern,
    closingNode (.operator .divide) (pattern.stop < span.stop) pattern.stop] ++
  flags.toList.map fun flags => (Node.leaf (.named .regexFlags) flags).withField .flags

/-- The node of a token that has parts of its own. -/
def literalNode? (token : Token) : Option Node :=
  match token.kind with
  | .string quote parts => some (.ofChildren .string (stringPieces token.span quote parts))
  | .regex pattern flags => some (.ofChildren .regex (regexPieces token.span pattern flags))
  | _ => none

/-! ### Where tokens end -/

/-- Whether the end is the last of some tokens and no other. -/
structure EndsOnce (tokens : Array Token) : Prop where
  nonempty : 0 < tokens.size
  endOfFile : ∀ i < tokens.size, kindAt tokens i = .endOfFile ↔ i + 1 = tokens.size

theorem EndsOnce.succ_lt {tokens : Array Token} (h : EndsOnce tokens) {i : Nat}
    (hi : i < tokens.size) (hreal : kindAt tokens i ≠ .endOfFile) : i + 1 < tokens.size := by
  have := mt (h.endOfFile i hi).mpr hreal
  omega

/-! ### What every token list has that the lexer makes -/

structure IsStream (tokens : Array Token) : Prop where
  nonempty : 0 < tokens.size
  /-- The end is the last token and no other. -/
  endOfFile : ∀ i < tokens.size, kindAt tokens i = .endOfFile ↔ i + 1 = tokens.size
  /-- Tokens cover something. -/
  proper : ∀ i, i + 1 < tokens.size → (spanAt tokens i).start < (spanAt tokens i).stop
  /-- Tokens follow one another. -/
  ordered : ∀ i, i + 1 < tokens.size → (spanAt tokens i).stop ≤ (spanAt tokens (i + 1)).start
  /-- Operators that are words are keywords. -/
  symbolic : ∀ i o, kindAt tokens i = .operator o → o.isWord = false
  /-- Strings and regular expressions are taken apart as the grammar says. -/
  matched : ∀ i n, literalNode? (tokenAt tokens i) = some n → Matches n.symbol.row n.children
  /-- What they are taken apart into leaves no gaps. -/
  tiled : ∀ i n, literalNode? (tokenAt tokens i) = some n →
    Tiles (spanAt tokens i).start n.children (spanAt tokens i).stop

namespace IsStream
variable {tokens : Array Token}

theorem start_le (h : IsStream tokens) {i j : Nat} (hij : i ≤ j) (hj : j < tokens.size) :
    (spanAt tokens i).start ≤ (spanAt tokens j).start := by
  induction j, hij using Nat.le_induction with
  | base => exact Nat.le_refl _
  | succ j _ ih =>
    have := ih (by omega)
    have := h.proper j hj
    have := h.ordered j hj
    omega

theorem start_lt (h : IsStream tokens) {i j : Nat} (hij : i < j) (hj : j < tokens.size) :
    (spanAt tokens i).start < (spanAt tokens j).start :=
  calc (spanAt tokens i).start
      < (spanAt tokens i).stop := h.proper i (by omega)
    _ ≤ (spanAt tokens (i + 1)).start := h.ordered i (by omega)
    _ ≤ (spanAt tokens j).start := h.start_le hij hj

/-- Only one token starts at an offset. -/
theorem start_inj (h : IsStream tokens) {i j : Nat} (hi : i < tokens.size) (hj : j < tokens.size)
    (heq : (spanAt tokens i).start = (spanAt tokens j).start) : i = j := by
  rcases Nat.lt_trichotomy i j with hlt | rfl | hlt
  · exact absurd heq (h.start_lt hlt hj).ne
  · rfl
  · exact absurd heq (h.start_lt hlt hi).ne'

theorem stop_le (h : IsStream tokens) {i j : Nat} (hij : i ≤ j) (hj : j + 1 < tokens.size) :
    (spanAt tokens i).stop ≤ (spanAt tokens j).stop := by
  rcases hij.eq_or_lt with rfl | hlt
  · exact Nat.le_refl _
  · calc (spanAt tokens i).stop
        ≤ (spanAt tokens (i + 1)).start := h.ordered i (by omega)
      _ ≤ (spanAt tokens j).start := h.start_le hlt (by omega)
      _ ≤ (spanAt tokens j).stop := (h.proper j hj).le

theorem endsOnce (h : IsStream tokens) : EndsOnce tokens := ⟨h.nonempty, h.endOfFile⟩

theorem succ_lt (h : IsStream tokens) {i : Nat} (hi : i < tokens.size)
    (hreal : kindAt tokens i ≠ .endOfFile) : i + 1 < tokens.size :=
  h.endsOnce.succ_lt hi hreal

theorem real (h : IsStream tokens) {i : Nat} (hi : i + 1 < tokens.size) :
    kindAt tokens i ≠ .endOfFile := by
  intro heof
  have := (h.endOfFile i (by omega)).mp heof
  omega

end IsStream

/-! ### What tokens are read as -/

/-- Whether a token is a leaf under its own symbol. -/
def isWhole : TokenKind → Bool
  | .string .. | .regex .. | .endOfFile => false
  | _ => true

/-- The kinds of leaves that an identifier may become. -/
def nameKinds : List NodeKind :=
  [.identifier, .typeIdentifier, .propertyIdentifier, .shorthandPropertyIdentifier,
    .shorthandPropertyIdentifierPattern]

/-- Whether a token may become a leaf with a symbol: its own, or one that says more about its place
in the grammar. -/
def readsAs : TokenKind → Symbol → Bool
  | .identifier _, .named kind => nameKinds.contains kind
  | .identifier _, .keyword word => word.isPrimitiveType
  | .keyword .constWord, .named kind => kind == .constMark
  | .keyword .letWord, .named kind => kind == .letMark
  | .keyword .trueWord, .named kind => kind == .trueLiteral
  | .keyword .falseWord, .named kind => kind == .falseLiteral
  | .keyword .undefinedWord, .named kind => kind == .undefinedLiteral
  | .punctuation .questionDot, .named kind => kind == .optionalChain
  | kind, symbol => isWhole kind && symbolOf kind == symbol

theorem eq_of_symbolOf {kind : TokenKind} {mark : Punctuation}
    (h : symbolOf kind = .punctuation mark) : kind = .punctuation mark := by
  cases kind <;> cases h
  rfl

theorem readsAs_symbolOf {kind : TokenKind} (h : isWhole kind = true) :
    readsAs kind (symbolOf kind) = true := by
  unfold readsAs
  split <;> simp_all [symbolOf, nameKinds]

section ReadsAs
variable {kind : TokenKind} {symbol : Symbol}

theorem real_of_readsAs (h : readsAs kind symbol = true) : kind ≠ .endOfFile := by
  rintro rfl
  cases symbol <;> cases h

theorem kind_of_readsAs {mark : Punctuation} (h : readsAs kind (.punctuation mark) = true) :
    kind = .punctuation mark := by
  cases kind with
  | punctuation m => cases m <;> simp_all [readsAs, isWhole, symbolOf]
  | keyword w => cases w <;> simp_all [readsAs, isWhole, symbolOf]
  | _ => simp_all [readsAs, isWhole, symbolOf]

theorem row_symbolOf (h : isWhole kind = true) :
    Matches (symbolOf kind).row [] ∧ symbolOf kind ≠ .named .error := by
  cases kind <;> first | (cases h; done) | exact ⟨.nil, nofun⟩

/-- Leaves are of kinds without children. -/
theorem row_of_readsAs (h : readsAs kind symbol = true) :
    Matches symbol.row [] ∧ symbol ≠ .named .error := by
  have hnames : ∀ kind ∈ nameKinds, Matches kind.row [] ∧ kind ≠ .error := by
    simp only [nameKinds, List.forall_mem_cons]
    exact ⟨⟨.nil, nofun⟩, ⟨.nil, nofun⟩, ⟨.nil, nofun⟩, ⟨.nil, nofun⟩, ⟨.absent .nil, nofun⟩, nofun⟩
  unfold readsAs at h
  split at h
  · obtain ⟨hrow, hsound⟩ := hnames _ (List.contains_iff_mem.mp h)
    exact ⟨hrow, fun heq => hsound (Symbol.named.inj heq)⟩
  · exact ⟨.nil, nofun⟩
  all_goals
    first
    | obtain rfl := beq_iff_eq.mp h
      exact ⟨.nil, nofun⟩
    | obtain ⟨hwhole, heq⟩ := Bool.and_eq_true_iff.mp h
      exact beq_iff_eq.mp heq ▸ row_symbolOf hwhole

end ReadsAs

end ScriptTree.Parsing
