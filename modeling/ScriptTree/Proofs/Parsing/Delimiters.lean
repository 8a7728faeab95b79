import Mathlib
import ScriptTree.Proofs.Highlight.Coverage
import ScriptTree.Proofs.Token.Strings

/-! Strings and regular expressions between their marks.

The parser judges for itself whether a string or regular expression has its closing mark: a string has one
if something is left behind its parts and the source ends with the quote there, which is the one that the
source has where the token starts. The lexer reports the ones that have none. The two agree, for what is
made of a token (`literal_delimited`) and for what the productions make in the arena (`buildsLiterals`). In
a tree the node of such a token holds what the token is taken apart into and no comment; only where the
token was skipped it is a leaf of damage (`parse_delimited`). -/
namespace ScriptTree

open Parsing

/-- The mark around a token that is taken apart, and what is reported where it does not end with one. -/
def TokenKind.delimiter? : TokenKind → Option (Symbol × Cause)
  | .string quote _ => some (.punctuation quote, .unterminatedString)
  | .regex .. => some (.operator .divide, .unterminatedRegex)
  | _ => none

/-- Whether leaves are what a string or regular expression token is taken apart into. -/
structure Delimited (source : String) (t : Token) (leaves : List Node) : Prop where
  tiles : Tiles t.span.start leaves t.span.stop
  /-- Of two marks the second one is made up if and only if it has been reported. -/
  marks : ∃ mark cause opening content closing flags,
    t.kind.delimiter? = some (mark, cause) ∧ leaves = opening :: content ++ closing :: flags ∧
    opening.symbol = mark ∧ opening.missing = false ∧
    (∀ m ∈ content ++ flags, m.symbol ≠ mark ∧ m.missing = false) ∧
    closing.symbol = mark ∧
      (closing.missing = true ↔ ⟨cause, t.span⟩ ∈ (lex source).problems.toList)

theorem Parsing.tokenAt_mem {tokens : Array Token} {i : Nat} (h : i < tokens.size) :
    tokenAt tokens i ∈ tokens.toList := by
  simp [tokenAt, Array.getD, h]

section Literals
variable {source : String} {t : Token}

/-! ### What is made of a token -/

theorem symbol_closingNode (symbol : Symbol) (closed : Bool) (offset : Nat) :
    (closingNode symbol closed offset).symbol = symbol := by
  cases closed <;> rfl

theorem ReadFrom.string_delimited {quote : Punctuation} {ps : List Piece} {closed : Bool}
    (h : ReadFrom source t (.string quote ps closed))
    (htiles : Tiles t.span.start
      (stringPieces t.span quote (Lexeme.placePieces (t.span.start + 1) ps)) t.span.stop) :
    Delimited source t (stringPieces t.span quote (Lexeme.placePieces (t.span.start + 1) ps)) := by
  obtain ⟨mark, behind, -, hmark, -⟩ := h.scanned
  have hkind : t.kind = .string quote (Lexeme.placePieces (t.span.start + 1) ps) :=
    (Option.some.inj h.kind_eq).symm
  have hclosed : decide (contentStop t.span.start (Lexeme.placePieces (t.span.start + 1) ps) <
      t.span.stop) = closed := by
    rw [h.stop_string hmark, contentStop, getLast?_placePieces]
    cases closed <;> simp
  refine ⟨htiles, .punctuation quote, .unterminatedString, _, _, _, [], by rw [hkind]; rfl, rfl, rfl,
    rfl, fun m hm => ?_, symbol_closingNode .., ?_⟩
  · rw [List.append_nil] at hm
    obtain ⟨part, -, rfl⟩ := List.mem_map.mp hm
    cases part <;> exact ⟨by rintro ⟨⟩, rfl⟩
  · rw [missing_closingNode, hclosed, h.unterminated_iff, Bool.not_eq_true']

theorem ReadFrom.regex_delimited {pattern flags : List Char} {closed : Bool}
    (h : ReadFrom source t (.regex pattern flags closed)) {span : Span} {flagsSpan : Option Span}
    (hkind : t.kind = .regex span flagsSpan)
    (htiles : Tiles t.span.start (regexPieces t.span span flagsSpan) t.span.stop) :
    Delimited source t (regexPieces t.span span flagsSpan) := by
  have hproper : t.span.start < t.span.stop := by
    rw [h.span_eq]
    exact h.stands.proper
  have hclosed : decide (span.stop < t.span.stop) = closed := by
    have hspan := h.kind_eq
    rw [hkind] at hspan
    cases hspan
    have hstop : t.span.stop = t.span.start + byteLength (Lexeme.regex pattern flags closed).text :=
      congrArg Span.stop h.span_eq
    have hslash : '/'.utf8Size = 1 := rfl
    rw [hstop, Lexeme.text, byteLength_append, byteLength_cons, hslash]
    cases closed with
    | false => simp [byteLength, ← Nat.add_assoc]
    | true =>
      rw [if_pos rfl, byteLength_cons, hslash, decide_eq_true_eq]
      dsimp only
      omega
  refine ⟨htiles, .operator .divide, .unterminatedRegex, _, [_], _, _, by rw [hkind]; rfl, rfl, rfl,
    rfl, fun m hm => ?_, symbol_closingNode .., ?_⟩
  · rcases List.mem_cons.mp hm with rfl | hm
    · exact ⟨by rintro ⟨⟩, rfl⟩
    · obtain ⟨flags, -, rfl⟩ := List.mem_map.mp hm
      exact ⟨by rintro ⟨⟩, rfl⟩
  · rw [missing_closingNode, hclosed, h.mem_problems le_rfl hproper]
    have hspan : (Lexeme.regex pattern flags closed).span t.span.start = t.span := h.span_eq.symm
    cases closed <;> simp [Lexeme.problems, hspan]

/-- What is made of a string or regular expression stands between marks. -/
theorem literal_delimited {i : Nat} {n : Node}
    (hn : literalNode? (tokenAt (lex source).tokens i) = some n) :
    Delimited source (tokenAt (lex source).tokens i) n.children := by
  have htiles := (lex_isStream source).tiled i n hn
  obtain ⟨l, hread⟩ := exists_readFrom (tokenAt_mem (lt_size_of_real (literal_real hn))) (literal_real hn)
  have hl := hread.kind_eq
  rw [spanAt] at htiles
  generalize tokenAt (lex source).tokens i = t at *
  rw [literalNode?] at hn
  split at hn <;> cases hn
  · rename_i quote parts hkind
    rw [hkind] at hl
    cases l with
    | string quote ps closed =>
      cases hl
      exact hread.string_delimited htiles
    | regex => cases hl
    | _ => cases hl
  · rename_i pattern flags hkind
    rw [hkind] at hl
    cases l with
    | string => cases hl
    | regex pattern flags closed => exact hread.regex_delimited hkind htiles
    | _ => cases hl

/-! ### Productions -/

/-- Whether a production gives a node between marks that covers the next token, with its leaves in the
arena. -/
def Builds (source : String) (scope : Building.Scope) (s : State) (m : Build NodeId) : Prop :=
  ∃ id s' b leaves, m scope s = .ok id s' ∧ s'.made[id.index]? = some b ∧
    b.symbol = symbolOf (kindAt scope.tokens s.position) ∧ b.span = spanAt scope.tokens s.position ∧
    List.Forall₂ (fun place (n : Node) =>
      s'.made[place]? = some ⟨n.symbol, n.span, n.field, n.missing, n.extra, []⟩) b.children leaves ∧
    Delimited source (tokenAt scope.tokens s.position) leaves

theorem symbol_literal {token : Token} {n : Node} (h : literalNode? token = some n) :
    n.symbol = symbolOf token.kind := by
  rw [literalNode?] at h
  split at h <;> cases h <;> rename_i hkind <;> rw [hkind] <;> rfl

/-- What reads a string or regular expression gives what is made of its token. -/
theorem Parsing.Reads.dissected {scope : Scope} {s : State} {m : Parse Node}
    (h : Reads scope none m s (Dissects scope.tokens s))
    (hreal : kindAt scope.tokens s.position ≠ .endOfFile) : ∃ n s', m scope s = .ok n s' ∧
      literalNode? (tokenAt scope.tokens s.position) = some n := by
  have hrun := h nofun (lt_size_of_real hreal)
  cases hm : m scope s with
  | ok n s' =>
    rw [hm] at hrun
    exact ⟨n, s', rfl, hrun.2.made⟩
  | error e s' =>
    rw [hm] at hrun
    obtain ⟨-, b, hb, -⟩ := hrun
    cases hb

/-- Leaves stand in the arena as they are. -/
theorem Building.Grove.leaves {made : Array Built} {lo hi : Nat} {ids : List Nat} {ns : List Node}
    (h : Grove made lo hi ids ns) (hleaves : ∀ n ∈ ns, n.children = []) :
    List.Forall₂ (fun place (n : Node) =>
      made[place]? = some ⟨n.symbol, n.span, n.field, n.missing, n.extra, []⟩) ids ns := by
  induction h with
  | nil => exact .nil
  | @cons lo id mid hi b n ids ns kept shows field below _ _ _ _ ih =>
    obtain ⟨hn, hns⟩ := List.forall_mem_cons.mp hleaves
    refine .cons ?_ (ih hns)
    rw [hn] at below
    rw [kept, ← shows.symbol, ← shows.span, ← field, ← shows.missing, ← shows.extra]
    cases b
    cases below
    rfl

section Levels
variable {maxDepth levels : Nat} {s : State}

/-- What is made of a token by nodes is made of it in the arena. -/
theorem Building.FollowsAt.builds {m : Build NodeId} {m' : Parse Node}
    (h : Building.FollowsAt .nothing (kindAt (lex source).tokens s.position) m m')
    (hreads : Reads ⟨(lex source).tokens, Parsing.level (lex source).tokens maxDepth levels⟩ none m' s
      (Dissects (lex source).tokens s))
    (hreal : kindAt (lex source).tokens s.position ≠ .endOfFile) :
    Builds source ⟨source, (lex source).tokens,
      Building.level source (lex source).tokens maxDepth levels⟩ s m := by
  obtain ⟨n, s', hrun, hmade⟩ := hreads.dissected hreal
  have hagrees := h _ _ (Building.level_fits (lex_stringsStand source) maxDepth levels) s.made.size s rfl rfl
  rw [hrun] at hagrees
  generalize hm : m _ s = result at hagrees
  cases hagrees with
  | ok _ stand =>
    obtain ⟨b, hkept, hshows, hbelow⟩ := stand.one.stands.kept
    exact ⟨_, s', b, n.children, hm, hkept, hshows.symbol.trans (symbol_literal hmade),
      hshows.span.trans (literal_span (lex_isStream source) hmade),
      hbelow.leaves fun c hc => (literal_leaves hmade c hc).1, literal_delimited hmade⟩

end Levels

/-- Whether the productions of strings and regular expressions give nodes between marks, at any depth and
whatever has been read and made before. -/
structure BuildsLiterals (source : String) : Prop where
  string : ∀ maxDepth levels (s : State) quote parts,
    kindAt (lex source).tokens s.position = .string quote parts →
      Builds source ⟨source, (lex source).tokens,
        Building.level source (lex source).tokens maxDepth levels⟩ s (Building.stringLiteral parts)
  regex : ∀ maxDepth levels (s : State) pattern flags,
    kindAt (lex source).tokens s.position = .regex pattern flags →
      Builds source ⟨source, (lex source).tokens,
        Building.level source (lex source).tokens maxDepth levels⟩ s (Building.regexLiteral pattern flags)

theorem buildsLiterals (source : String) : BuildsLiterals source where
  string maxDepth levels s quote parts hkind := by
    have hfollows : Building.FollowsAt .nothing (kindAt (lex source).tokens s.position)
        (Building.stringLiteral parts) (Parsing.stringLiteral quote parts) := by
      rw [hkind]
      exact .string inferInstance
    exact hfollows.builds (stringLiteral_dissects (lex_isStream source) hkind) (by rw [hkind]; nofun)
  regex maxDepth levels s pattern flags hkind := by
    have hfollows : Building.FollowsAt .nothing (kindAt (lex source).tokens s.position)
        (Building.regexLiteral pattern flags) (Parsing.regexLiteral pattern flags) := .of inferInstance
    exact hfollows.builds (regexLiteral_dissects (lex_isStream source) hkind) (by rw [hkind]; nofun)

end Literals

/-! ### Nodes of a tree -/

/-- The marks of strings and the kind of a pattern, which no token is read as on its own. -/
def innerSymbols : List Symbol :=
  [.punctuation .doubleQuote, .punctuation .singleQuote, .named .regexPattern]

/-- No token of a source is a quote. -/
theorem lex_unquoted {source : String} {i : Nat} {mark : Punctuation}
    (hkind : kindAt (lex source).tokens i = .punctuation mark) :
    mark ≠ .doubleQuote ∧ mark ≠ .singleQuote := by
  have hreal : kindAt (lex source).tokens i ≠ .endOfFile := by
    simp [hkind]
  obtain ⟨l, hread⟩ := exists_readFrom (tokenAt_mem (lt_size_of_real hreal)) hreal
  have hl := hread.kind_eq
  obtain ⟨c, behind, -, hscanned⟩ := hread.scanned
  rw [show (tokenAt (lex source).tokens i).kind = _ from hkind] at hl
  cases l with
  | punctuation => cases hl; exact hscanned
  | _ => cases hl

theorem readsAs_innerSymbols {kind : TokenKind} {symbol : Symbol} (h : readsAs kind symbol = true)
    (hmark : ∀ mark, kind = .punctuation mark → mark ≠ .doubleQuote ∧ mark ≠ .singleQuote) :
    symbol ∉ innerSymbols := by
  have hpattern (kind : TokenKind) : symbolOf kind ≠ .named .regexPattern := by
    cases kind <;> nofun
  intro hmem
  simp only [innerSymbols, List.mem_cons, List.not_mem_nil, or_false] at hmem
  rcases hmem with rfl | rfl | rfl
  · cases kind <;> simp_all [readsAs, symbolOf]
  · cases kind <;> simp_all [readsAs, symbolOf]
  · unfold readsAs at h
    split at h
    case h_9 => exact hpattern _ (beq_iff_eq.mp (Bool.and_eq_true_iff.mp h).2)
    all_goals first
      | exact absurd h (by decide)
      | (rename_i heq; cases heq; exact absurd h (by decide))
      | (rename_i heq; cases heq)

section Forests
variable {source : String} {p q : Nat} {ps : List Problem} {ns : List Node}

theorem Parsing.Forest.not_innerSymbols (h : Forest (lex source).tokens p q ps ns) :
    ∀ n ∈ ns, n.symbol ∉ innerSymbols := by
  induction h with
  | nil => exact List.forall_mem_nil _
  | token field reads _ ih =>
    exact List.forall_mem_cons.mpr ⟨readsAs_innerSymbols reads fun _ h => lex_unquoted h, ih⟩
  | signed _ _ _ _ _ _ ih => exact List.forall_mem_cons.mpr ⟨(show Symbol.named .number ∉ innerSymbols by decide), ih⟩
  | literal field made _ ih =>
    obtain ⟨kind, hkind, hsymbol⟩ := literal_kind made
    refine List.forall_mem_cons.mpr ⟨?_, ih⟩
    show _ ∉ _
    rw [hsymbol]
    rcases List.mem_pair.mp hkind with rfl | rfl <;> decide
  | absent field closing _ ih =>
    refine List.forall_mem_cons.mpr ⟨?_, ih⟩
    rcases closing with rfl | ⟨rfl, -⟩
    · exact (show Symbol.punctuation .semicolon ∉ innerSymbols by decide)
    · exact (show Symbol.punctuation .rightBrace ∉ innerSymbols by decide)
  | @inner _ _ _ _ _ kind cs _ field _ row nonempty _ _ _ ih =>
    refine List.forall_mem_cons.mpr ⟨fun hmem => ?_, ih⟩
    obtain rfl : kind = .regexPattern := by simpa [innerSymbols, Node.ofChildren] using hmem
    cases row
    exact nonempty rfl
  | damage _ _ _ _ _ ih =>
    exact List.forall_mem_cons.mpr ⟨(show Symbol.named .error ∉ innerSymbols by decide), ih⟩

/-- The children of a string or regular expression are never tokens on their own. -/
theorem Parsing.Forest.not_literal (h : Forest (lex source).tokens p q ps ns) {kind : NodeKind}
    (hrow : Matches kind.row ns) : (Symbol.named kind).isLiteral = false := by
  have hnone := h.not_innerSymbols
  rw [Bool.eq_false_iff]
  intro hliteral
  have hkind : kind = .string ∨ kind = .regex := by simpa [Symbol.isLiteral] using hliteral
  rcases hkind with rfl | rfl
  · cases hrow with
    | one hrole =>
      refine hnone _ List.mem_cons_self ?_
      have hmarks : ∀ role ∈ Role.mark .doubleQuote ++ Role.mark .singleQuote,
          role.2 ∈ innerSymbols := by decide
      exact hmarks _ hrole
  · cases hrow with
    | one _ hrow =>
      cases hrow with
      | one hrole =>
        refine hnone _ (List.mem_cons_of_mem _ List.mem_cons_self) ?_
        have hpattern : ∀ role ∈ Role.labelled .pattern (Role.plain [.regexPattern]),
            role.2 ∈ innerSymbols := by decide
        exact hpattern _ hrole

/-- A string or regular expression with children is what a token is taken apart into. -/
theorem Parsing.Forest.literal_eq (h : Forest (lex source).tokens p q ps ns) : ∀ m ∈ Node.preorderAll ns,
    m.symbol.isLiteral = true → m.children ≠ [] →
      ∃ i n field, literalNode? (tokenAt (lex source).tokens i) = some n ∧ m = { n with field } := by
  induction h with
  | nil => exact List.forall_mem_nil _
  | token _ _ _ ih | signed _ _ _ _ _ _ ih | absent _ _ _ ih =>
    intro m hm hliteral hnonempty
    rcases Node.mem_preorderAll_cons.mp hm with rfl | hm | hm
    · exact absurd rfl hnonempty
    · cases hm
    · exact ih m hm hliteral hnonempty
  | literal field made _ ih =>
    intro m hm hliteral hnonempty
    rcases Node.mem_preorderAll_cons.mp hm with rfl | hm | hm
    · exact ⟨_, _, field, made, rfl⟩
    · have hleaves := literal_leaves made
      rw [Node.mem_preorderAll_leaves fun n hn => (hleaves n hn).1] at hm
      exact absurd (hleaves m hm).1 hnonempty
    · exact ih m hm hliteral hnonempty
  | inner field children row nonempty _ _ ihc ih =>
    intro m hm hliteral hnonempty
    rcases Node.mem_preorderAll_cons.mp hm with rfl | hm | hm
    · exact absurd hliteral (Bool.eq_false_iff.mp (children.not_literal row))
    · exact ihc m hm hliteral hnonempty
    · exact ih m hm hliteral hnonempty
  | @damage first behind _ _ _ _ _ field lt real _ _ ih =>
    intro m hm hliteral hnonempty
    rcases Node.mem_preorderAll_cons.mp hm with rfl | hm | hm
    · cases hliteral
    · have hleaf : ∀ n ∈ ((lex source).tokens.extract first behind).toList.map skippedLeaf,
          n.children = [] := by
        intro n hn
        obtain ⟨_, _, rfl⟩ := List.mem_map.mp hn
        rfl
      have hm := (Node.mem_preorderAll_leaves hleaf).mp hm
      exact absurd (hleaf m hm) hnonempty
    · exact ih m hm hliteral hnonempty

end Forests

/-- Whether the strings and regular expressions of a tree stand between marks. -/
structure Delimiting (source : String) (tree : Tree) : Prop where
  /-- With what its token is taken apart into, or without children, where the token was skipped. -/
  nodes : ∀ id < tree.nodeCount, (tree.node id).symbol.isLiteral = true →
    ∃ t ∈ (lex source).tokens.toList, symbolOf t.kind = (tree.node id).symbol ∧
      t.span = (tree.node id).span ∧
      (Delimited source t ((tree.children id).toList.map tree.node) ∨
        tree.children id = #[] ∧ tree.parentKind? id = some .error)

section Dressed
variable {source : String} {maxDepth : Nat} {id : Nat} {parent : Option Nat} {n : Node}

/-- No comment stands in a node that covers a token and nothing else. -/
theorem Sits.uncommented (h : Sits (dressedRoot source maxDepth) id parent n) (hid : id ≠ 0) {i : Nat}
    (hreal : kindAt (lex source).tokens i ≠ .endOfFile) (hspan : n.span = spanAt (lex source).tokens i) :
    ∀ c ∈ n.children, c.extra = false := by
  intro c hc
  rcases dressed_cases (h.child_below hc) with ⟨comment, hcomment, rfl⟩ | ⟨hplain, -⟩
  swap
  · exact hplain
  obtain ⟨hproper, hspan'⟩ := isComment_commentNode hcomment
  have hproper := hproper.proper
  have hclear := comment_clear hcomment (tokenAt_mem (lt_size_of_real hreal))
  cases dressed_framed (h.mem_below hid) with
  | leaf hchildren =>
    rw [hchildren] at hc
    cases hc
  | inner _ _ _ _ _ laid =>
    have hwithin := laid.mem hc
    rw [hspan] at hwithin
    rw [hspan'] at hwithin hproper
    rw [spanAt] at hwithin
    omega

/-- A string or regular expression with children has those that its token is taken apart into. -/
theorem Sits.literal_eq (h : Sits (dressedRoot source maxDepth) id parent n) (hid : id ≠ 0)
    (hliteral : n.symbol.isLiteral = true) (hnonempty : n.children ≠ []) :
    ∃ i made, literalNode? (tokenAt (lex source).tokens i) = some made ∧ n.symbol = made.symbol ∧
      n.span = made.span ∧ n.children = made.children := by
  have hframed := dressed_framed (h.mem_below hid)
  rcases dressed_cases (h.mem_below hid) with ⟨comment, -, rfl⟩ | ⟨-, hbare⟩
  · rw [(commentNode_classified comment).2] at hliteral
    cases hliteral
  obtain ⟨i, made, field, hmade, heq⟩ := (bareRoot_forest source maxDepth).1.literal_eq _ hbare
    (by rwa [Node.strip_eq]) fun hnone => hnonempty (hframed.children_of_strip hnone)
  have hsymbol : n.symbol = made.symbol := by
    have := congrArg Node.symbol heq
    rwa [Node.strip_eq] at this
  have hspan : n.span = made.span := by
    have := congrArg Node.span heq
    rwa [Node.strip_eq] at this
  refine ⟨i, made, hmade, hsymbol, hspan, ?_⟩
  have hplain := h.uncommented hid (literal_real hmade)
    (hspan.trans (literal_span (lex_isStream source) hmade))
  have hchildren : Node.stripAll n.children = made.children := by
    have := congrArg Node.children heq
    rwa [Node.strip_eq] at this
  have hleaves : ∀ c ∈ n.children, c.children = [] := by
    intro c hc
    have hmem : c.strip ∈ made.children := by
      rw [← hchildren, Node.stripAll_eq]
      exact List.mem_map_of_mem (List.mem_filter.mpr ⟨hc, by simp [hplain c hc]⟩)
    exact (dressed_framed (h.child_below hc)).children_of_strip (literal_leaves hmade _ hmem).1
  rw [← hchildren]
  exact (Node.stripAll_of_plain fun m hm =>
    hplain m ((Node.mem_preorderAll_leaves hleaves).mp hm)).symm

/-- One without children is a token that was skipped. -/
theorem Sits.literal_skipped (h : Sits (dressedRoot source maxDepth) id parent n) (hid : id ≠ 0)
    (hliteral : n.symbol.isLiteral = true) (hnone : n.children = []) :
    ∃ t ∈ (lex source).tokens.toList, n = skippedLeaf t ∧
      ∃ above grand m, parent = some above ∧ Sits (dressedRoot source maxDepth) above grand m ∧
        m.symbol = .named .error := by
  obtain ⟨above, grand, m, rfl, hm, herror⟩ := (h.classified hid hnone).2 hliteral
  obtain ⟨_, _, m', before, after, ⟨⟩, hm', hchildren, -⟩ := h.parent_of_ne_zero hid
  obtain rfl : m' = m := (@Sits.node_eq _ _ _ _ source [] hm').symm.trans hm.node_eq
  have hplain : n.extra = false := by
    rcases dressed_cases (h.mem_below hid) with ⟨comment, -, rfl⟩ | ⟨hplain, -⟩
    · rw [(commentNode_classified comment).2] at hliteral
      cases hliteral
    · exact hplain
  obtain ⟨p, q, hlt, hq, hskipped, -⟩ := hm.skipped herror
  have hmem : n ∈ m'.children.filter (!·.extra) :=
    List.mem_filter.mpr ⟨by simp [hchildren], by simp [hplain]⟩
  rw [hskipped] at hmem
  obtain ⟨t, ht, rfl⟩ := List.mem_map.mp hmem
  obtain ⟨i, -, hi, rfl⟩ := mem_extract ht
  exact ⟨_, tokenAt_mem (hi.trans hq), rfl, above, grand, m', rfl, hm, herror⟩

theorem dressed_delimiting (source : String) (maxDepth : Nat) (problems : List Problem) :
    Delimiting source (.ofRoot source (dressedRoot source maxDepth) problems) := by
  refine ⟨fun id hid hliteral => ?_⟩
  rw [nodeCount_ofRoot] at hid
  obtain ⟨parent, n, hn⟩ := Sits.exists_of_lt hid
  rw [hn.node_eq] at hliteral ⊢
  rw [hn.map_children]
  have hne : id ≠ 0 := by
    rintro rfl
    obtain ⟨_, hsame⟩ := (dressedRoot_dressed source maxDepth).same
    rw [hn.eq_root, hsame] at hliteral
    cases hliteral
  by_cases hnone : n.children = []
  · obtain ⟨t, ht, rfl, above, grand, m, rfl, hm, herror⟩ := hn.literal_skipped hne hliteral hnone
    refine ⟨t, ht, rfl, rfl, .inr ⟨?_, ?_⟩⟩
    · exact Array.toList_eq_nil_iff.mp (List.map_eq_nil_iff.mp (hn.map_children.trans hnone))
    · rw [Tree.parentKind?, hn.parent_eq, Option.bind_some, hm.node_eq, Node.kind?, herror]
      rfl
  · obtain ⟨i, made, hmade, hsymbol, hspan, hchildren⟩ := hn.literal_eq hne hliteral hnone
    refine ⟨tokenAt (lex source).tokens i, tokenAt_mem (lt_size_of_real (literal_real hmade)), ?_, ?_, .inl ?_⟩
    · rw [hsymbol, symbol_literal hmade]
    · rw [hspan, literal_span (lex_isStream source) hmade, spanAt]
    · rw [hchildren]
      exact literal_delimited hmade

end Dressed

/-- **Strings and regular expressions stand between marks.** The lexer takes a string apart without gaps,
every production of such a token gives a node that the leaves fill, whose closing mark is made up if and
only if the lexer has reported that it is not there, and so are the nodes of every parse. -/
theorem parse_delimited (source : String) (options : ParseOptions) :
    (∀ t ∈ (lex source).tokens.toList, ∀ quote parts, t.kind = .string quote parts →
      Quoted source t.span quote parts) ∧
    BuildsLiterals source ∧ Delimiting source (parse source options) := by
  refine ⟨fun t ht quote parts hkind => lex_strings ht hkind, buildsLiterals source, ?_⟩
  rcases parse_cases source options with h | ⟨problems, h⟩
  · rw [h]
    exact dressed_delimiting ..
  · rw [h]
    refine ⟨fun id hid hliteral => ?_⟩
    rw [nodeCount_ofRoot] at hid
    obtain rfl := Nat.lt_one_iff.mp hid
    have hroot : Sits (rootNode source.utf8ByteSize []) 0 none _ := .root
    rw [hroot.node_eq] at hliteral
    cases hliteral

/-- A string that was skipped has no leaves that fill it. -/
theorem skipped_string_unfilled : ¬∀ id < (parse "\"s\";").nodeCount,
    ((parse "\"s\";").node id).symbol.isLiteral = true →
      Tiles ((parse "\"s\";").node id).span.start
        (((parse "\"s\";").children id).toList.map (parse "\"s\";").node)
        ((parse "\"s\";").node id).span.stop := by
  intro h
  have htiles := h 2 (by decide +kernel) (by decide +kernel)
  have hnone : (parse "\"s\";").children 2 = #[] := by decide +kernel
  have hproper : ((parse "\"s\";").node 2).span.start < ((parse "\"s\";").node 2).span.stop := by
    decide +kernel
  rw [hnone] at htiles
  generalize ((parse "\"s\";").node 2).span = span at htiles hproper
  rcases span with ⟨start, stop⟩
  cases htiles
  exact absurd hproper (Nat.lt_irrefl _)

end ScriptTree
