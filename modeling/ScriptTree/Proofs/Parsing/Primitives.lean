import Mathlib
import ScriptTree.Proofs.Parsing.Reading

/-! What the parts of productions do: reading tokens, requiring them, making nodes.

`Made` is the forest between two states of a parse, `Gives` what a production gives that makes one
node, and `Gathers` what a loop has collected. -/
namespace ScriptTree

/-- What a goal needs to see ahead. -/
def Goal.Ready : Goal → TokenKind → Prop
  | .ifStatement, kind => kind = .keyword .ifWord
  | _, _ => True

/-- The roles of what parsing a goal gives. -/
def Goal.roles : Goal → List Role
  | .statement => Role.statements
  | .ifStatement => Role.plain [.ifStatement]
  | .binary _ | .unary => Role.expressions
  | .type => Role.types
  | .pattern => Role.plain [.pattern]
  | .objectPattern => Role.plain [.objectPattern]
  | .arrayPattern => Role.plain [.arrayPattern]

namespace Parsing

/-- How what parsing a goal gives ends in front of an index. -/
def Ends (tokens : Array Token) : Goal → Node → Nat → Prop
  | .binary least, n, q => Stops tokens least n q ∧ Heads least n
  | .unary, n, q =>
    Operand tokens n q ∧ (n.kind? = some .binaryExpression → n.testsPrivate = true)
  | _, _, _ => True

/-- The nodes that were made of what was read between two states. -/
def Made (tokens : Array Token) (s s' : State) (ns : List Node) : Prop :=
  ∃ ps, s'.problems.toList = s.problems.toList ++ ps ∧
    Forest tokens s.position s'.position ps ns

/-- States that differ in the nodes kept track of at most. -/
def Same (s s' : State) : Prop := s'.position = s.position ∧ s'.problems = s.problems

theorem Same.trans {s s' s'' : State} (h : Same s s') (h' : Same s' s'') : Same s s'' :=
  ⟨h'.1.trans h.1, h'.2.trans h.2⟩

namespace Made
variable {tokens : Array Token} {s s' s'' : State} {a b : List Node}

theorem refl : Made tokens s s [] := ⟨[], (List.append_nil _).symm, .nil⟩

theorem append (h : Made tokens s s' a) (h' : Made tokens s' s'' b) :
    Made tokens s s'' (a ++ b) := by
  obtain ⟨ps, hps, hf⟩ := h
  obtain ⟨ps', hps', hf'⟩ := h'
  exact ⟨ps ++ ps', by rw [hps', hps, List.append_assoc], hf.append hf'⟩

theorem same (h : Made tokens s s' a) (hsame : Same s' s'') : Made tokens s s'' a := by
  obtain ⟨ps, hps, hf⟩ := h
  exact ⟨ps, by rw [hsame.2, hps], by rwa [hsame.1]⟩

/-- The node of a kind in place of its children. -/
theorem wrap {kind : NodeKind} (h : Made tokens s s' a) (row : Matches kind.row a)
    (nonempty : a ≠ []) (orderly : Orderly tokens s'.position kind a) (field : Option Field) :
    Made tokens s s' [{ Node.ofChildren kind a with field }] := by
  obtain ⟨ps, hps, hf⟩ := h
  exact ⟨ps, hps, hf.wrap row nonempty orderly field⟩

end Made

/-- A node made from the state `s` on, in one of the given roles. -/
structure Gives (tokens : Array Token) (roles : List Role) (s : State) (n : Node) (s' : State) :
    Prop where
  made : ∀ field, Made tokens s s' [{ n with field }]
  role : n.role ∈ roles
  present : n.missing = false

namespace Gives
variable {tokens : Array Token} {roles roles' : List Role} {s s' : State} {n : Node}

theorem plain (h : Gives tokens roles s n s') : Made tokens s s' [n] := by
  have := h.made n.field
  cases n
  exact this

theorem label (h : Gives tokens roles s n s') (field : Field) :
    Gives tokens (Role.labelled field roles) s (n.withField field) s' :=
  ⟨h.made, List.mem_map_of_mem (f := fun role : Role => (some field, role.2)) h.role, h.present⟩

theorem mono (h : Gives tokens roles s n s') (hsub : roles ⊆ roles') :
    Gives tokens roles' s n s' :=
  ⟨h.made, hsub h.role, h.present⟩

theorem kind_mem {kinds : List NodeKind} (h : Gives tokens (Role.plain kinds) s n s') :
    ∃ kind ∈ kinds, n.role = (none, .named kind) ∧ n.kind? = some kind := by
  obtain ⟨kind, hmem, hrole⟩ := List.mem_map.mp h.role
  have hsymbol : Symbol.named kind = n.symbol := congrArg Prod.snd hrole
  exact ⟨kind, hmem, hrole.symm, by rw [Node.kind?, ← hsymbol]; rfl⟩

/-- A node in one of several roles without a field, of which its kind leaves one. -/
theorem of_kind {kinds : List NodeKind} {kind : NodeKind}
    (h : Gives tokens (Role.plain kinds) s n s') (hkind : n.kind? = some kind) :
    Gives tokens (Role.plain [kind]) s n s' := by
  obtain ⟨kind', _, hrole, hkind'⟩ := h.kind_mem
  cases hkind.symm.trans hkind'
  exact ⟨h.made, List.mem_singleton.mpr hrole, h.present⟩

/-- Something has been read. -/
theorem lt (h : Gives tokens roles s n s') : s.position < s'.position := by
  obtain ⟨ps, _, hf⟩ := h.plain
  exact hf.first_lt h.present

theorem span_eq (hs : IsStream tokens) (h : Gives tokens roles s n s') :
    n.span = ⟨(spanAt tokens s.position).start, stopBefore tokens s'.position⟩ := by
  obtain ⟨ps, _, hf⟩ := h.plain
  rw [← hf.start_eq hs h.present, ← (hf.laid hs).stop_eq]

/-- A node that is no number. -/
theorem integral (h : Gives tokens roles s n s')
    (hother : Symbol.named .number ∉ roles.map Prod.snd) : Integral tokens [n] :=
  .of_role h.role hother

theorem isStretch (hs : IsStream tokens) (h : Gives tokens roles s n s')
    (hlt : s'.position < tokens.size) : IsStretch tokens n.span := by
  have hread := h.lt
  refine ⟨s.position, s'.position - 1, by omega, by omega, ?_⟩
  rw [h.span_eq hs, stopBefore, if_neg (by omega)]

/-- The statement can be blamed for what was read last but cannot stay as it is. -/
theorem blamed (hs : IsStream tokens) (h : Gives tokens roles s n s')
    (hroles : ∀ role ∈ roles, role.2 ∉ startable) {cause : Cause} (hcause : cause.kind = .grammar) {b : Nat}
    (hb : b ≤ s.position) (hlt : s'.position < tokens.size) :
    Blames tokens b s'.position ⟨cause, n.span⟩ := by
  have hspan := h.span_eq hs
  have hstart : n.span.start = _ := congrArg Span.start hspan
  have hstop : n.span.stop = _ := congrArg Span.stop hspan
  refine ⟨.inl hcause, ?_, .inl ?_, h.isStretch hs hlt, .inr hstop.ge, fun i hi hhead => ?_⟩
  · rw [hstart]
    exact hs.start_le hb (h.lt.trans hlt)
  · rw [hstart]
    exact hs.start_le h.lt.le hlt
  · obtain rfl := hs.start_inj (h.lt.trans hlt) (hi.trans hlt) (hstart.symm.trans hhead)
    obtain ⟨ps, _, hforest⟩ := h.plain
    exact hforest.first_ne_semicolon h.present (hroles _ h.role)

end Gives

/-- What a loop has collected since the state `s₀`: first `head`, then items in the given roles. -/
structure Gathers (tokens : Array Token) (s₀ : State) (head : List Node) (roles : List Role)
    (children : Array Node) (s : State) : Prop where
  made : Made tokens s₀ s children.toList
  items : ∃ items, children.toList = head ++ items ∧ ∀ c ∈ items, c.role ∈ roles

namespace Gathers
variable {tokens : Array Token} {s₀ s s' : State} {head : List Node} {roles : List Role}
  {children : Array Node} {n : Node}

theorem start (roles : List Role) (h : Made tokens s₀ s children.toList) :
    Gathers tokens s₀ children.toList roles children s :=
  ⟨h, [], (List.append_nil _).symm, List.forall_mem_nil _⟩

/-- One more item. -/
theorem add (h : Gathers tokens s₀ head roles children s) (hn : Made tokens s s' [n])
    (hrole : n.role ∈ roles) : Gathers tokens s₀ head roles (children.push n) s' := by
  obtain ⟨items, hitems, hroles⟩ := h.items
  refine ⟨?_, items ++ [n], ?_, fun c hc => ?_⟩
  · rw [Array.toList_push]
    exact h.made.append hn
  · rw [Array.toList_push, hitems, List.append_assoc]
  · rcases List.mem_append.mp hc with hc | hc
    · exact hroles c hc
    · rw [List.mem_singleton.mp hc]
      exact hrole

theorem push {roles' : List Role} (h : Gathers tokens s₀ head roles children s)
    (hn : Gives tokens roles' s n s') (hsub : roles' ⊆ roles) :
    Gathers tokens s₀ head roles (children.push n) s' :=
  h.add hn.plain (hsub hn.role)

/-- A round that adds a node and goes on. -/
theorem more {roles' : List Role} (h : Gathers tokens s₀ head roles children s)
    (hn : Gives tokens roles' s n s') (hsub : roles' ⊆ roles) :
    Keeps (Gathers tokens s₀ head roles) (Gathers tokens s₀ head roles) s
      (.more (children.push n)) s' :=
  ⟨h.push hn hsub, hn.lt⟩

/-- What was collected on top of what had been collected before. -/
theorem through {more : Array Node} (h : Gathers tokens s₀ head roles children s)
    (hn : n.role ∈ roles) (h' : Gathers tokens s₀ (children.toList ++ [n]) roles more s') :
    Gathers tokens s₀ head roles more s' := by
  obtain ⟨items, hitems, hroles⟩ := h.items
  obtain ⟨items', hitems', hroles'⟩ := h'.items
  refine ⟨h'.made, items ++ n :: items', by simp [hitems', hitems], fun c hc => ?_⟩
  rcases List.mem_append.mp hc with hc | hc
  · exact hroles c hc
  · rcases List.mem_cons.mp hc with rfl | hc
    · exact hn
    · exact hroles' c hc

/-- What was collected, with one more node behind it. -/
theorem close (h : Gathers tokens s₀ head roles children s) (hn : Made tokens s s' [n]) :
    Made tokens s₀ s' (children.push n).toList ∧
      ∃ items, (children.push n).toList = head ++ (items ++ [n]) ∧ ∀ c ∈ items, c.role ∈ roles := by
  obtain ⟨items, hitems, hroles⟩ := h.items
  rw [Array.toList_push]
  exact ⟨h.made.append hn, items, by rw [hitems, List.append_assoc], hroles⟩

end Gathers

/-- A stretch of children for these items of a row. -/
structure Fills (tokens : Array Token) (items : List Item) (s : State) (part : Array Node)
    (s' : State) : Prop where
  made : Made tokens s s' part.toList
  row : ∀ row cs, Matches row cs → Matches (items ++ row) (part.toList ++ cs)

/-! ### Scopes -/

/-- A token list with a next level that keeps to the goals. -/
structure Sound (scope : Scope) : Prop where
  stream : IsStream scope.tokens
  deeper : ∀ goal b s, goal.Ready (kindAt scope.tokens s.position) →
    Reads scope (some b) (descend goal) s fun n s' =>
      Gives scope.tokens goal.roles s n s' ∧ Ends scope.tokens goal n s'.position
  /-- A statement that fails has closed no brace that it had not opened. -/
  failing : ∀ s problem s', scope.deeper .statement s = .error problem s' →
    Affords scope.tokens 0 s.position 0 s'.position

section Parts
variable {scope : Scope} {entry : Option Nat} {b : Nat} {s s₀ : State}

/-! ### Making nodes -/

theorem modify_reads {g : State → State} (h : Advances scope.tokens s (g s)) :
    Reads scope entry (modify g) s fun _ s' => s' = g s :=
  fun _ _ => ⟨h, rfl⟩

theorem make_reads {n : Node} :
    Reads scope entry (make n) s fun n' s' => n' = n ∧ Same s s' :=
  fun _ hlt => ⟨⟨Nat.le_refl _, hlt, List.prefix_rfl⟩, rfl, rfl, rfl⟩

/-- Making the node of a kind over what was read since the state `s₀`. -/
theorem node_next {kind : NodeKind} {children : Array Node}
    (h : Made scope.tokens s₀ s children.toList) (row : Matches kind.row children.toList)
    (nonempty : children.toList ≠ [])
    (orderly : Orderly scope.tokens s.position kind children.toList) :
    Reads scope entry (node kind children) s fun n s' =>
      Gives scope.tokens (Role.plain [kind]) s₀ n s' ∧ n = .ofChildren kind children.toList ∧
        s'.position = s.position := by
  refine make_reads.mono fun n s' ⟨hn, hsame⟩ => ⟨?_, hn, hsame.1⟩
  subst hn
  rw [← hsame.1] at orderly
  exact ⟨(h.same hsame).wrap row nonempty orderly, List.mem_singleton.mpr rfl, rfl⟩

theorem node_reads {kind : NodeKind} {children : Array Node}
    (h : Made scope.tokens s₀ s children.toList) (row : Matches kind.row children.toList)
    (nonempty : children.toList ≠ [])
    (orderly : Orderly scope.tokens s.position kind children.toList) :
    Reads scope entry (node kind children) s (Gives scope.tokens (Role.plain [kind]) s₀) :=
  (node_next h row nonempty orderly).mono fun _ _ hn => hn.1

/-- The same, in a role that the caller asks for. -/
theorem node_reads_as {kind : NodeKind} {children : Array Node} {roles : List Role}
    (h : Made scope.tokens s₀ s children.toList) (row : Matches kind.row children.toList)
    (nonempty : children.toList ≠ [])
    (orderly : Orderly scope.tokens s.position kind children.toList)
    (hrole : (none, Symbol.named kind) ∈ roles) :
    Reads scope entry (node kind children) s (Gives scope.tokens roles s₀) :=
  (node_reads h row nonempty orderly).mono fun _ _ hn =>
    ⟨hn.made, List.mem_singleton.mp hn.role ▸ hrole, hn.present⟩

/-! ### Reading tokens -/

theorem advance_reads (hs : IsStream scope.tokens)
    (hreal : kindAt scope.tokens s.position ≠ .endOfFile) :
    Reads scope entry advance s fun token s' =>
      token = tokenAt scope.tokens s.position ∧ s'.position = s.position + 1 ∧
        s'.problems = s.problems := by
  have hbne : ((tokenAt scope.tokens s.position).kind != .endOfFile) = true := bne_iff_ne.mpr hreal
  refine .of_lt fun hlt _ => ?_
  unfold advance
  rw [reads_peek_bind]
  simp only [hbne, if_true]
  refine (modify_reads ⟨Nat.le_succ _, hs.succ_lt hlt hreal, List.prefix_rfl⟩).bind ?_
  rintro _ s' rfl
  exact .pure ⟨rfl, rfl, rfl⟩

theorem leaf_reads {symbol : Symbol} {span : Span} :
    Reads scope entry (leaf symbol span) s fun n s' => n = .leaf symbol span ∧ Same s s' :=
  make_reads

/-- Reading a token as a leaf with a symbol that it may be read as. -/
theorem bumpSymbol_next (hs : IsStream scope.tokens) {kind : TokenKind} {symbol : Symbol}
    (hkind : kindAt scope.tokens s.position = kind) (hread : readsAs kind symbol = true) :
    Reads scope entry (bumpSymbol symbol) s fun n s' =>
      Gives scope.tokens [(none, symbol)] s n s' ∧ s'.position = s.position + 1 := by
  rw [← hkind] at hread
  refine (advance_reads hs (real_of_readsAs hread)).bind
    fun token s₁ ⟨htoken, hposition, hproblems⟩ => ?_
  subst htoken
  refine leaf_reads.mono fun n s' ⟨hn, hsame⟩ => ?_
  subst hn
  have hnext : s'.position = s.position + 1 := hsame.1.trans hposition
  refine ⟨⟨fun field => ⟨[], ?_, ?_⟩, List.mem_singleton.mpr rfl, rfl⟩, hnext⟩
  · rw [hsame.2, hproblems, List.append_nil]
  · rw [hnext]
    exact .token field hread .nil

theorem bumpSymbol_reads (hs : IsStream scope.tokens) {kind : TokenKind} {symbol : Symbol}
    (hkind : kindAt scope.tokens s.position = kind) (hread : readsAs kind symbol = true) :
    Reads scope entry (bumpSymbol symbol) s (Gives scope.tokens [(none, symbol)] s) :=
  (bumpSymbol_next hs hkind hread).mono fun _ _ hn => hn.1

theorem bumpAs_reads (hs : IsStream scope.tokens) {kind : TokenKind} {leafKind : NodeKind}
    (hkind : kindAt scope.tokens s.position = kind)
    (hread : readsAs kind (.named leafKind) = true) :
    Reads scope entry (bumpAs leafKind) s (Gives scope.tokens (Role.plain [leafKind]) s) :=
  bumpSymbol_reads hs hkind hread

theorem bump_next (hs : IsStream scope.tokens) {kind : TokenKind}
    (hkind : kindAt scope.tokens s.position = kind) (hwhole : isWhole kind = true) :
    Reads scope entry bump s fun n s' =>
      Gives scope.tokens [(none, symbolOf kind)] s n s' ∧ s'.position = s.position + 1 := by
  unfold bump
  rw [reads_peekKind_bind, hkind]
  exact bumpSymbol_next hs hkind (readsAs_symbolOf hwhole)

theorem bump_reads (hs : IsStream scope.tokens) {kind : TokenKind}
    (hkind : kindAt scope.tokens s.position = kind) (hwhole : isWhole kind = true) :
    Reads scope entry bump s (Gives scope.tokens [(none, symbolOf kind)] s) :=
  (bump_next hs hkind hwhole).mono fun _ _ hn => hn.1

/-! ### Requiring tokens -/

theorem throw_reads {α : Type} {post : α → State → Prop} {problem : Problem}
    (h : ∀ b, entry = some b → b ≤ s.position → s.position < scope.tokens.size →
      Blames scope.tokens b s.position problem) (hentry : entry.isSome = true) :
    Reads scope entry (throw problem) s post := by
  intro hle hlt
  obtain ⟨b, rfl⟩ := Option.isSome_iff_exists.mp hentry
  exact ⟨.refl hlt, b, rfl, h b rfl (hle b rfl) hlt⟩

/-- A statement can be blamed for a token that has not been read. -/
theorem Blames.ahead {tokens : Array Token} (hs : IsStream tokens) {cause : Cause} {position i : Nat}
    (hcause : cause.kind = .grammar ∨ cause.kind = .limit) (hb : b ≤ position) (hle : position ≤ i)
    (hi : i < tokens.size) (hbefore : (spanAt tokens i).start ≤ (spanAt tokens position).start ∨
      isSign (kindAt tokens position) = true ∧
        (spanAt tokens i).start ≤ (spanAt tokens (position + 1)).start) :
    Blames tokens b position ⟨cause, spanAt tokens i⟩ where
  kind := hcause
  after := hs.start_le (hb.trans hle) hi
  before := hbefore
  stretch := isStretch_spanAt hi
  reach := .inl ((hs.stopBefore_le (hle.trans_lt hi)).trans (hs.start_le hle hi))
  head _ hj hhead := absurd hhead (hs.start_lt (hj.trans_le hle) hi).ne'

/-- Failing at the next token. -/
theorem throwHere_reads (hs : IsStream scope.tokens) {α : Type} {post : α → State → Prop}
    {cause : Cause} (hcause : cause.kind = .grammar ∨ cause.kind = .limit) :
    Reads scope (some b) (throw ⟨cause, spanAt scope.tokens s.position⟩) s post := by
  refine throw_reads (fun b' hb' hle hlt => ?_) rfl
  cases hb'
  exact .ahead hs hcause hle (Nat.le_refl _) hlt (.inl (Nat.le_refl _))

theorem unexpected_reads (hs : IsStream scope.tokens) {α : Type} {post : α → State → Prop}
    {what : Expected} : Reads scope (some b) (unexpected what : Parse α) s post := by
  unfold unexpected
  rw [reads_peek_bind]
  exact throwHere_reads hs (.inl rfl)

theorem demand_reads (hs : IsStream scope.tokens) {holds : Bool} {what : Expected} :
    Reads scope (some b) (demand holds what) s fun _ s' => holds = true ∧ s' = s := by
  unfold demand
  refine .ite (fun h => .pure ⟨h, rfl⟩) fun _ => unexpected_reads hs

theorem isPunctuation_iff {kind : TokenKind} {mark : Punctuation} :
    kind.isPunctuation mark = true ↔ kind = .punctuation mark := beq_iff_eq

theorem isOperator_iff {kind : TokenKind} {o : Operator} :
    kind.isOperator o = true ↔ kind = .operator o := beq_iff_eq

theorem isKeyword_iff {kind : TokenKind} {word : Keyword} :
    kind.isKeyword word = true ↔ kind = .keyword word := beq_iff_eq

theorem isIdentifier_iff {kind : TokenKind} :
    kind.isIdentifier = true ↔ ∃ name, kind = .identifier name := by
  cases kind <;> simp [TokenKind.isIdentifier]

theorem expect_reads (hs : IsStream scope.tokens) (mark : Punctuation) :
    Reads scope (some b) (expect mark) s (Gives scope.tokens (Role.mark mark) s) := by
  unfold expect
  rw [reads_sees_bind]
  exact .ite (fun h => bump_reads hs (isPunctuation_iff.mp h) rfl) fun _ => unexpected_reads hs

theorem expectOperator_reads (hs : IsStream scope.tokens) (o : Operator) :
    Reads scope (some b) (expectOperator o) s (Gives scope.tokens (Role.sign o) s) := by
  unfold expectOperator
  rw [reads_seesOperator_bind]
  exact .ite (fun h => bump_reads hs (isOperator_iff.mp h) rfl) fun _ => unexpected_reads hs

theorem expectWord_reads (hs : IsStream scope.tokens) (word : Keyword) (what : Expected) :
    Reads scope (some b) (expectWord word what) s (Gives scope.tokens (Role.word word) s) := by
  unfold expectWord
  rw [reads_seesWord_bind]
  exact .ite (fun h => bump_reads hs (isKeyword_iff.mp h) rfl) fun _ => unexpected_reads hs

theorem expectIdentifier_reads (hs : IsStream scope.tokens) {kind : NodeKind} {what : Expected}
    (hname : nameKinds.contains kind = true) :
    Reads scope (some b) (expectIdentifier kind what) s
      (Gives scope.tokens (Role.plain [kind]) s) := by
  unfold expectIdentifier
  rw [reads_seesIdentifier_bind]
  refine .ite (fun h => ?_) fun _ => unexpected_reads hs
  obtain ⟨name, hidentifier⟩ := isIdentifier_iff.mp h
  exact bumpAs_reads hs hidentifier hname

/-- Whether a mark may be made up at an index if it is not there. -/
def MayClose (tokens : Array Token) (mark : Punctuation) (p : Nat) : Prop :=
  mark = .semicolon ∨ mark = .rightBrace ∧
    (kindAt tokens p = .endOfFile ∨ kindAt tokens p = .punctuation .rightBrace)

/-- A closing mark made up behind the last token, and the report of it. -/
theorem absent_made {tokens : Array Token} {mark : Punctuation} {found : String} {made : Array Built}
    (hclosing : mark = .semicolon ∨ mark = .rightBrace ∧ kindAt tokens s.position = .endOfFile) :
    Made tokens s
      ⟨s.position, s.problems.push ⟨.missingMark mark found, .empty (stopBefore tokens s.position)⟩,
        made⟩
      [.absent (.punctuation mark) (stopBefore tokens s.position)] :=
  ⟨[_], Array.toList_push, .absent none hclosing .nil⟩

/-- A closing mark, read or made up. -/
theorem expectOrMissing_reads (hs : IsStream scope.tokens) {mark : Punctuation}
    (hclosing : MayClose scope.tokens mark s.position) :
    Reads scope entry (expectOrMissing mark) s fun n s' =>
      Made scope.tokens s s' [n] ∧ n.role ∈ Role.mark mark ∧
        (kindAt scope.tokens s.position = .punctuation mark ∧ s'.position = s.position + 1 ∨
          s'.position = s.position) := by
  unfold expectOrMissing
  rw [reads_sees_bind]
  refine .ite (fun h => ?_) fun habsent => ?_
  · have hkind := isPunctuation_iff.mp h
    exact (bump_next hs hkind rfl).mono fun n s' hn => ⟨hn.1.plain, hn.1.role, .inl ⟨hkind, hn.2⟩⟩
  · rw [reads_lastStop_bind, reads_peekKind_bind]
    refine .of_lt fun hlt _ => ?_
    refine (modify_reads ⟨Nat.le_refl _, hlt, ?_⟩).bind ?_
    · simp only [Array.toList_push]
      exact List.prefix_append _ _
    rintro _ s' rfl
    refine make_reads.mono ?_
    rintro n s' ⟨rfl, hsame⟩
    have hother : kindAt scope.tokens s.position ≠ .punctuation mark :=
      fun h => habsent (isPunctuation_iff.mpr h)
    refine ⟨(absent_made (hclosing.imp_right ?_)).same hsame, List.mem_singleton.mpr rfl,
      .inr hsame.1⟩
    rintro ⟨rfl, hend⟩
    exact ⟨rfl, hend.resolve_right hother⟩

/-! ### Going deeper -/

theorem statement_reads (hs : Sound scope) :
    Reads scope (some b) statement s (Gives scope.tokens Role.statements s) :=
  (hs.deeper .statement b s trivial).mono fun _ _ h => h.1

/-- The right operand of an operator, or a whole expression. -/
theorem descend_binary_reads (hs : Sound scope) (least : Nat) :
    Reads scope (some b) (descend (.binary least)) s fun n s' =>
      Gives scope.tokens Role.expressions s n s' ∧ Stops scope.tokens least n s'.position ∧
        Heads least n :=
  hs.deeper (.binary least) b s trivial

theorem expression_ends (hs : Sound scope) :
    Reads scope (some b) expression s fun n s' =>
      Gives scope.tokens Role.expressions s n s' ∧ Stops scope.tokens 0 n s'.position :=
  (descend_binary_reads hs 0).mono fun _ _ h => ⟨h.1, h.2.1⟩

theorem expression_reads (hs : Sound scope) :
    Reads scope (some b) expression s (Gives scope.tokens Role.expressions s) :=
  (expression_ends hs).mono fun _ _ h => h.1

theorem type_reads (hs : Sound scope) :
    Reads scope (some b) type s (Gives scope.tokens Role.types s) :=
  (hs.deeper .type b s trivial).mono fun _ _ h => h.1

/-! ### Options and lists -/

/-- Rounds that collect children behind those with which the loop starts. -/
theorem Reads.gather {round : Array Node → Parse (Round (Array Node))} {children : Array Node}
    (roles : List Role) (h : Made scope.tokens s₀ s children.toList)
    (hround : ∀ c s, Gathers scope.tokens s₀ children.toList roles c s →
      Reads scope entry (round c) s (Keeps (Gathers scope.tokens s₀ children.toList roles)
        (Gathers scope.tokens s₀ children.toList roles) s)) :
    Reads scope entry (repeatFrom children round) s
      (Gathers scope.tokens s₀ children.toList roles) :=
  Reads.loop _ (Gathers.start roles h) hround

/-- A part that may be left out. -/
theorem optionally_reads (items : List Item) {there : Bool} {part : Parse (Array Node)}
    (hpart : there = true → Reads scope entry part s (Fills scope.tokens items s))
    (hnone : ∀ row cs, Matches row cs → Matches (items ++ row) cs) :
    Reads scope entry (optionally there part) s (Fills scope.tokens items s) := by
  unfold optionally
  exact .ite hpart fun _ => .pure ⟨.refl, hnone⟩

/-- What was collected becomes a node with the closing mark behind it. -/
theorem closing_reads (hs : IsStream scope.tokens) {kind : NodeKind} {mark : Punctuation}
    {head : List Node} {roles : List Role} {children : Array Node}
    (h : Gathers scope.tokens s₀ head roles children s)
    (row : ∀ items last, (∀ c ∈ items, c.role ∈ roles) → last.role ∈ Role.mark mark →
      Matches kind.row (head ++ (items ++ [last]))) (hplain : isPlain kind = true) :
    Reads scope (some b) (expect mark >>= fun last => node kind (children.push last)) s
      (Gives scope.tokens (Role.plain [kind]) s₀) := by
  refine (expect_reads hs mark).bind fun last s₁ hlast => ?_
  obtain ⟨hmade, items, hlist, hroles⟩ := h.close hlast.plain
  refine node_reads hmade ?_ (by simp) (.plain hplain fun _ => by simp [hlast.present])
  rw [hlist]
  exact row items last hroles hlast.role

/-- Items between two marks. -/
theorem listOf_reads (hs : IsStream scope.tokens) {kind : NodeKind} {opening closing : Punctuation}
    {item : Parse Node} {roles : List Role}
    (hitem : ∀ s, Reads scope (some b) item s (Gives scope.tokens roles s))
    (hrow : kind.row =
      [.one (Role.mark opening), .many (roles ++ Role.mark .comma), .one (Role.mark closing)])
    (hplain : isPlain kind = true) :
    Reads scope (some b) (listOf kind opening closing item) s
      (Gives scope.tokens (Role.plain [kind]) s) := by
  unfold listOf
  refine (expect_reads hs opening).bind fun first s₁ hfirst => ?_
  refine (Reads.gather (roles ++ Role.mark .comma) hfirst.plain
    fun children s₂ hchildren => ?_).bind fun children s₂ hchildren => ?_
  · rw [reads_sees_bind]
    refine .ite (fun _ => .pure hchildren) fun _ => ?_
    rw [reads_sees_bind]
    refine .ite (fun hcomma => ?_) fun _ => ?_
    · exact (bump_reads hs (isPunctuation_iff.mp hcomma) rfl).bind fun comma s₃ hcomma =>
        .pure (hchildren.more hcomma (List.subset_append_right _ _))
    · refine (hitem s₂).bind fun n s₃ hn => ?_
      have hpush := hchildren.push hn (List.subset_append_left _ _)
      simp only
      rw [reads_sees_bind]
      refine .ite (fun hcomma => ?_) fun _ => .pure hpush
      refine (bump_reads hs (isPunctuation_iff.mp hcomma) rfl).bind fun comma s₄ hcomma => ?_
      exact .pure ⟨hpush.push hcomma (List.subset_append_right _ _), hn.lt.trans hcomma.lt⟩
  · refine closing_reads hs hchildren (fun items last hitems hlast => ?_) hplain
    rw [hrow]
    show Matches _ (first :: (items ++ [last]))
    exact .one hfirst.role (.many hitems (.one hlast .nil))

end Parts

end Parsing

end ScriptTree
