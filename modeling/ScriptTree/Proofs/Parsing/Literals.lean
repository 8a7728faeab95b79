import Mathlib
import ScriptTree.Proofs.Parsing.Primitives

/-! What the productions of literals and names give.

A string or regular expression is one token whose leaves tile it, which the forest knows as a
literal; the other productions here read their tokens one by one. -/
namespace ScriptTree.Parsing

variable {scope : Scope} {entry : Option Nat} {b : Nat} {s : State}

/-! ### Strings and regular expressions -/

theorem closingLeaf_reads {symbol : Symbol} {closed : Bool} {offset : Nat} :
    Reads scope entry (closingLeaf symbol closed offset) s fun n s' =>
      n = closingNode symbol closed offset ∧ Same s s' := by
  unfold closingLeaf closingNode
  cases closed <;> exact make_reads

theorem partLeaf_reads (part : StringPart) :
    Reads scope entry (partLeaf part) s fun n s' => n = partNode part ∧ Same s s' := by
  cases part <;> exact leaf_reads

/-- Making a node for each element of a list. -/
theorem mapM_reads {α : Type} {f : α → Parse Node} {g : α → Node}
    (hf : ∀ a s, Reads scope entry (f a) s fun n s' => n = g a ∧ Same s s') (l : List α) :
    ∀ s, Reads scope entry (l.mapM f) s fun ns s' => ns = l.map g ∧ Same s s' := by
  induction l with
  | nil => exact fun s => .pure ⟨rfl, rfl, rfl⟩
  | cons a l ih =>
    intro s
    rw [List.mapM_cons]
    refine (hf a s).bind fun n s₁ ⟨hn, hs₁⟩ => (ih s₁).bind fun ns s₂ ⟨hns, hs₂⟩ => ?_
    exact .pure ⟨by rw [hn, hns, List.map_cons], hs₁.trans hs₂⟩

/-- A token with parts of its own has been made into its node. -/
structure Dissects (tokens : Array Token) (s : State) (n : Node) (s' : State) : Prop where
  made : literalNode? (tokenAt tokens s.position) = some n
  same : Same { s with position := s.position + 1 } s'

theorem Dissects.gives {tokens : Array Token} {roles : List Role} {s s' : State} {n : Node}
    (h : Dissects tokens s n s') (hrole : n.role ∈ roles) (hpresent : n.missing = false) :
    Gives tokens roles s n s' := by
  refine ⟨fun field => ⟨[], ?_, ?_⟩, hrole, hpresent⟩
  · rw [h.same.2, List.append_nil]
  · rw [h.same.1]
    exact .literal field h.made .nil

theorem stringLiteral_dissects (hs : IsStream scope.tokens) {quote : Punctuation}
    {parts : List StringPart} (hkind : kindAt scope.tokens s.position = .string quote parts) :
    Reads scope entry (stringLiteral quote parts) s (Dissects scope.tokens s) := by
  unfold stringLiteral
  refine (advance_reads hs (by rw [hkind]; exact nofun)).bind
    fun token s₁ ⟨htoken, hposition, hproblems⟩ => ?_
  subst htoken
  refine leaf_reads.bind fun opening s₂ ⟨hopening, hs₂⟩ => ?_
  refine (mapM_reads (fun part s => partLeaf_reads part) parts s₂).bind
    fun content s₃ ⟨hcontent, hs₃⟩ => ?_
  refine closingLeaf_reads.bind fun closing s₄ ⟨hclosing, hs₄⟩ => ?_
  refine make_reads.mono fun n s' ⟨hn, hs'⟩ => ?_
  have hsame := ((hs₂.trans hs₃).trans hs₄).trans hs'
  subst hopening hcontent hclosing hn
  refine ⟨?_, hsame.1.trans hposition, hsame.2.trans hproblems⟩
  have : (tokenAt scope.tokens s.position).kind = .string quote parts := hkind
  simp [literalNode?, this, stringPieces]

theorem stringLiteral_reads (hs : IsStream scope.tokens) {quote : Punctuation}
    {parts : List StringPart} (hkind : kindAt scope.tokens s.position = .string quote parts) :
    Reads scope entry (stringLiteral quote parts) s
      (Gives scope.tokens (Role.plain [.string]) s) := by
  refine (stringLiteral_dissects hs hkind).mono fun n s' h => ?_
  have hmade := h.made
  rw [literalNode?, show (tokenAt scope.tokens s.position).kind = _ from hkind] at hmade
  cases hmade
  exact h.gives (List.mem_singleton.mpr rfl) rfl

theorem regexLiteral_dissects (hs : IsStream scope.tokens) {pattern : Span} {flags : Option Span}
    (hkind : kindAt scope.tokens s.position = .regex pattern flags) :
    Reads scope entry (regexLiteral pattern flags) s (Dissects scope.tokens s) := by
  unfold regexLiteral
  refine (advance_reads hs (by simp [hkind])).bind fun token s₁ htoken => ?_
  obtain ⟨rfl, hposition, hproblems⟩ := htoken
  refine leaf_reads.bind fun opening s₂ hopening => ?_
  obtain ⟨hopening, hs₂⟩ := hopening
  refine leaf_reads.bind fun patternLeaf s₃ hpattern => ?_
  obtain ⟨hpattern, hs₃⟩ := hpattern
  refine closingLeaf_reads.bind fun closing s₄ hclosing => ?_
  obtain ⟨hclosing, hs₄⟩ := hclosing
  have hsame := (hs₂.trans hs₃).trans hs₄
  have hkind' : (tokenAt scope.tokens s.position).kind = .regex pattern flags := hkind
  subst hopening hpattern hclosing
  cases flags with
  | none =>
    refine make_reads.mono fun n s' hn => ?_
    obtain ⟨rfl, hs'⟩ := hn
    refine ⟨?_, (hsame.trans hs').1.trans hposition, (hsame.trans hs').2.trans hproblems⟩
    simp [literalNode?, hkind', regexPieces]
  | some flags =>
    refine leaf_reads.bind fun flagsLeaf s₅ hflags => ?_
    obtain ⟨rfl, hs₅⟩ := hflags
    refine make_reads.mono fun n s' hn => ?_
    obtain ⟨rfl, hs'⟩ := hn
    have hsame := (hsame.trans hs₅).trans hs'
    refine ⟨?_, hsame.1.trans hposition, hsame.2.trans hproblems⟩
    simp [literalNode?, hkind', regexPieces]

theorem regexLiteral_reads (hs : IsStream scope.tokens) {pattern : Span} {flags : Option Span}
    (hkind : kindAt scope.tokens s.position = .regex pattern flags) :
    Reads scope entry (regexLiteral pattern flags) s
      (Gives scope.tokens (Role.plain [.regex]) s) := by
  refine (regexLiteral_dissects hs hkind).mono fun n s' h => ?_
  have hmade := h.made
  rw [literalNode?, show (tokenAt scope.tokens s.position).kind = _ from hkind] at hmade
  cases hmade
  exact h.gives (List.mem_singleton.mpr rfl) rfl

/-! ### Templates -/

theorem templateSubstitution_reads (hs : Sound scope)
    (hkind : kindAt scope.tokens s.position = .punctuation .dollarBrace) :
    Reads scope (some b) templateSubstitution s
      (Gives scope.tokens (Role.plain [.templateSubstitution]) s) := by
  unfold templateSubstitution
  refine (bump_reads hs.stream hkind rfl).bind fun opening s₁ hopening => ?_
  refine (expression_reads hs).bind fun value s₂ hvalue => ?_
  refine (expect_reads hs.stream .rightBrace).bind fun closing s₃ hclosing => ?_
  exact node_reads ((hopening.plain.append hvalue.plain).append hclosing.plain)
    (.one hopening.role (.one hvalue.role (.one hclosing.role .nil))) (by simp)
    (.plain rfl fun _ => by simp [hclosing.present])

theorem templateString_reads (hs : Sound scope)
    (hkind : kindAt scope.tokens s.position = .punctuation .backtick) :
    Reads scope (some b) templateString s
      (Gives scope.tokens (Role.plain [.templateString]) s) := by
  unfold templateString
  refine (bump_reads hs.stream hkind rfl).bind fun opening s₁ hopening => ?_
  refine (Reads.gather (Role.plain [.stringFragment, .escapeSequence, .templateSubstitution])
    hopening.plain fun children s₂ hchildren => ?_).bind fun children s₂ hchildren => ?_
  · rw [reads_peekKind_bind]
    split
    · exact (bump_reads hs.stream ‹_› rfl).bind fun n s₃ hn => .pure (hchildren.more hn (by decide))
    · exact (bump_reads hs.stream ‹_› rfl).bind fun n s₃ hn => .pure (hchildren.more hn (by decide))
    · exact (templateSubstitution_reads hs ‹_›).bind fun n s₃ hn =>
        .pure (hchildren.more hn (by decide))
    · exact .pure hchildren
  · refine closing_reads hs.stream hchildren (fun items last hitems hlast => ?_) rfl
    show Matches _ (opening :: (items ++ [last]))
    exact .one hopening.role (.many hitems (.one hlast .nil))

/-! ### Arrays and objects -/

theorem arrayLiteral_reads (hs : Sound scope)
    (hkind : kindAt scope.tokens s.position = .punctuation .leftBracket) :
    Reads scope (some b) arrayLiteral s (Gives scope.tokens (Role.plain [.arrayLiteral]) s) := by
  unfold arrayLiteral
  refine (bump_reads hs.stream hkind rfl).bind fun opening s₁ hopening => ?_
  refine (expression_reads hs).bind fun first s₂ hfirst => ?_
  refine (Reads.gather (Role.expressions ++ Role.mark .comma) (hopening.plain.append hfirst.plain)
    fun children s₃ hchildren => ?_).bind fun children s₃ hchildren => ?_
  · rw [reads_sees_bind]
    refine .ite (fun hcomma => ?_) fun _ => .pure hchildren
    refine (bump_reads hs.stream (isPunctuation_iff.mp hcomma) rfl).bind fun comma s₄ hcomma => ?_
    refine (expression_reads hs).bind fun value s₅ hvalue => ?_
    have hpush := hchildren.push hcomma (List.subset_append_right _ _)
    exact .pure ⟨hpush.push hvalue (List.subset_append_left _ _), hcomma.lt.trans hvalue.lt⟩
  · refine closing_reads hs.stream hchildren (fun items last hitems hlast => ?_) rfl
    show Matches _ (opening :: first :: (items ++ [last]))
    exact .one hopening.role (.one hfirst.role (.many hitems (.one hlast .nil)))

/-- The children of an object between its braces. -/
def memberRoles : List Role :=
  Role.labelled .key (Role.plain [.identifier]) ++ Role.mark .colon ++
    Role.labelled .value Role.expressions ++
    Role.labelled .member (Role.plain [.shorthandPropertyIdentifier]) ++ Role.mark .comma

theorem objectMember_reads (hs : Sound scope) {s₀ : State} {head : List Node}
    {children : Array Node} (hchildren : Gathers scope.tokens s₀ head memberRoles children s)
    (hkeyed : Keyed children.toList) :
    Reads scope (some b) (objectMember children) s fun children s' =>
      Gathers scope.tokens s₀ head memberRoles children s' ∧ Keyed children.toList ∧
        s.position < s'.position := by
  unfold objectMember
  rw [reads_seesIdentifier_bind]
  refine (demand_reads hs.stream).bind ?_
  rintro _ s' ⟨hidentifier, rfl⟩
  obtain ⟨name, hname⟩ := isIdentifier_iff.mp hidentifier
  rw [reads_kindAhead_bind]
  refine .ite (fun hcolon => ?_) fun _ => ?_
  · refine (bumpSymbol_next hs.stream hname rfl).bind
      fun key s₁ ⟨hkey, hnext⟩ => ?_
    refine (bump_reads hs.stream (hnext ▸ isPunctuation_iff.mp hcolon) rfl).bind
      fun colon s₂ hcolon => ?_
    refine (expression_reads hs).bind fun value s₃ hvalue => ?_
    have hpush := ((hchildren.push (hkey.label .key) (by decide)).push hcolon (by decide)).push
      (hvalue.label .value) (by decide)
    refine .pure ⟨hpush, ?_, (hkey.lt.trans hcolon.lt).trans hvalue.lt⟩
    have hplain : key.symbol ≠ .punctuation .colon ∧ value.symbol ≠ .punctuation .colon := by
      have hnone : ∀ role ∈ Role.expressions, role.2 ≠ .punctuation .colon := by decide
      refine ⟨?_, hnone _ hvalue.role⟩
      rw [show key.symbol = _ from congrArg Prod.snd (List.mem_singleton.mp hkey.role)]
      exact nofun
    rw [Array.toList_append]
    refine hkeyed.append ?_ (by simpa [Node.withField] using hplain.1)
    exact .cons_cons (fun _ => rfl) (.cons_cons (fun h => absurd h hplain.2) (.singleton _))
  · refine (bumpAs_reads hs.stream hname rfl).bind fun n s₁ hn => .pure ?_
    have hmore := hchildren.more (hn.label .member) (by decide)
    refine ⟨hmore.1, ?_, hmore.2⟩
    rw [Array.toList_push]
    refine hkeyed.push ?_
    rw [show (n.withField .member).symbol = _ from congrArg Prod.snd (List.mem_singleton.mp hn.role)]
    exact nofun

theorem objectLiteral_reads (hs : Sound scope)
    (hkind : kindAt scope.tokens s.position = .punctuation .leftBrace) :
    Reads scope (some b) objectLiteral s (Gives scope.tokens (Role.plain [.objectLiteral]) s) := by
  unfold objectLiteral
  refine (bump_reads hs.stream hkind rfl).bind fun opening s₁ hopening => ?_
  let inv (children : Array Node) (s' : State) : Prop :=
    Gathers scope.tokens s [opening] memberRoles children s' ∧ Keyed children.toList
  have hstart : inv #[opening] s₁ := ⟨.start memberRoles hopening.plain, .singleton _⟩
  refine (Reads.loop inv hstart fun children s₂ ⟨hchildren, hkeyed⟩ => ?_).bind
    fun children s₂ ⟨hchildren, hkeyed⟩ => ?_
  · refine (objectMember_reads hs hchildren hkeyed).bind
      fun children s₃ ⟨hchildren, hkeyed, hlt⟩ => ?_
    rw [reads_sees_bind]
    refine .ite (fun hcomma => ?_) fun _ => .pure ⟨hchildren, hkeyed⟩
    refine (bump_reads hs.stream (isPunctuation_iff.mp hcomma) rfl).bind fun comma s₄ hcomma => ?_
    have hpush : inv (children.push comma) s₄ := by
      refine ⟨hchildren.push hcomma (by decide), ?_⟩
      rw [Array.toList_push]
      refine hkeyed.push ?_
      rw [show comma.symbol = _ from congrArg Prod.snd (List.mem_singleton.mp hcomma.role)]
      exact nofun
    simp only
    rw [reads_sees_bind]
    refine .pure ?_
    split
    · exact hpush
    · exact ⟨hpush, hlt.trans hcomma.lt⟩
  · refine (expect_reads hs.stream .rightBrace).bind fun last s₃ hlast => ?_
    obtain ⟨hmade, items, hlist, hroles⟩ := hchildren.close hlast.plain
    refine node_reads hmade ?_ (by simp)
      ⟨trivial, nofun, fun _ => by simp [hlast.present], fun _ => ?_, nofun, nofun⟩
    · rw [hlist]
      show Matches _ (opening :: (items ++ [last]))
      exact .one hopening.role (.many hroles (.one hlast.role .nil))
    · rw [Array.toList_push]
      refine hkeyed.push ?_
      rw [show last.symbol = _ from congrArg Prod.snd (List.mem_singleton.mp hlast.role)]
      exact nofun

/-! ### Names -/

theorem comptimeIdentifier_reads (hs : IsStream scope.tokens)
    (hkind : kindAt scope.tokens s.position = .punctuation .atSign) :
    Reads scope (some b) comptimeIdentifier s
      (Gives scope.tokens (Role.plain [.comptimeIdentifier]) s) := by
  unfold comptimeIdentifier
  refine (bump_reads hs hkind rfl).bind fun mark s₁ hmark => ?_
  refine (expectIdentifier_reads hs rfl).bind fun name s₂ hname => ?_
  exact node_reads (hmark.plain.append hname.plain) (.one hmark.role (.one hname.role .nil))
    (by simp) (.free rfl)

theorem privateName_reads (hs : IsStream scope.tokens) :
    Reads scope (some b) privateName s
      (Gives scope.tokens (Role.plain [.privatePropertyIdentifier]) s) := by
  unfold privateName
  refine (expect_reads hs .hash).bind fun mark s₁ hmark => ?_
  refine (expectIdentifier_reads hs rfl).bind fun name s₂ hname => ?_
  exact node_reads (hmark.plain.append hname.plain) (.one hmark.role (.one hname.role .nil))
    (by simp) (.free rfl)

end ScriptTree.Parsing
