import Mathlib
import ScriptTree.Building.Statement
import ScriptTree.Parsing.Program
import ScriptTree.Proofs.Building.Following
import ScriptTree.Proofs.Parsing.Progress

/-! Productions over the arena do what productions with nodes do. -/
namespace ScriptTree.Building

open Parsing

set_option synthInstance.maxSize 1024

section Productions
variable {given : Given}

/-! ### Types -/

instance : Follows .nothing tupleType Parsing.tupleType := by
  unfold tupleType Parsing.tupleType
  dsimp only
  infer_instance

instance : Follows .nothing typeAtom Parsing.typeAtom := by
  unfold typeAtom Parsing.typeAtom
  refine .look fun kind => ?_
  split
  case h_1 name => cases hword : primitiveType? name <;> (simp only [*]; infer_instance)
  case h_4 => cases hliteral : literalKind? kind <;> (simp only [*]; infer_instance)
  all_goals infer_instance

instance : Follows .nothing postfixType Parsing.postfixType := by
  unfold postfixType Parsing.postfixType
  infer_instance

instance : Follows .nothing firstOperand Parsing.firstOperand := by
  unfold firstOperand Parsing.firstOperand
  infer_instance

instance : Follows .nothing unionType Parsing.unionType := by
  unfold unionType Parsing.unionType
  infer_instance

instance : Follows .nothing typeAscription Parsing.typeAscription := by
  unfold typeAscription Parsing.typeAscription
  infer_instance

/-! ### Strings -/

/-- A string token whose quote is known, and which is closed if anything follows its parts. -/
def quotedLiteral (quote : Punctuation) (parts : List StringPart) : Build NodeId := do
  let span := (← advance).span
  let stop := contentStop span.start parts
  let opening ← leaf (.punctuation quote) ⟨span.start, span.start + 1⟩
  let content ← parts.mapM partLeaf
  let closing ← closingLeaf (.punctuation quote) (stop < span.stop) ⟨stop, stop + 1⟩ stop
  node .string (#[opening.plain] ++ content.toArray ++ #[closing.plain])

instance (part : StringPart) : Follows .nothing (partLeaf part) (Parsing.partLeaf part) := by
  cases part <;> (unfold partLeaf Parsing.partLeaf; infer_instance)

instance (symbol : Symbol) (closed : Bool) (offset : Nat) :
    Follows .nothing (closingLeaf symbol closed ⟨offset, offset + 1⟩ offset)
      (Parsing.closingLeaf symbol closed offset) := by
  unfold closingLeaf Parsing.closingLeaf
  infer_instance

instance (quote : Punctuation) (parts : List StringPart) :
    Follows .nothing (quotedLiteral quote parts) (Parsing.stringLiteral quote parts) := by
  unfold quotedLiteral Parsing.stringLiteral
  dsimp only
  infer_instance

section Strings
variable {scope : Scope} {s : State} {quote : Punctuation} {parts : List StringPart} {offset : Nat}

theorem cutAt_eq (h : (String.Pos.Raw.mk offset).isValid scope.source = true) :
    cutAt offset scope s = .ok () s := by
  show (if (String.Pos.Raw.mk offset).isValid scope.source = true then _ else _ : Build Unit) scope s = _
  rw [if_pos h]
  rfl

/-- The quote is read off the source where the token starts. -/
theorem quoteAt_eq (hvalid : (String.Pos.Raw.mk offset).isValid scope.source = true)
    (hquote : quote = .singleQuote ∨ quote = .doubleQuote)
    (hslice : (⟨offset, offset + 1⟩ : Span).slice scope.source = quote.spelling) :
    quoteAt offset scope s = .ok quote s := by
  have hstarts : startsWith offset "'" scope s = .ok (quote.spelling == "'") s := by
    rw [startsWith, run_bind_ok (cutAt_eq hvalid), ← hslice]
    rfl
  rw [quoteAt, run_bind_ok hstarts]
  rcases hquote with rfl | rfl <;> rfl

theorem endsWith_eq {text : String} (h : (String.Pos.Raw.mk offset).isValid scope.source = true) :
    endsWith offset text scope s =
      .ok ((⟨offset - text.utf8ByteSize, offset⟩ : Span).slice scope.source == text) s := by
  rw [endsWith, run_bind_ok (cutAt_eq h)]
  rfl

/-- What is left behind the parts of a string token is its closing quote. -/
theorem isClosed_eq {span : Span} (hvalid : (String.Pos.Raw.mk span.stop).isValid scope.source = true)
    (hquote : quote.spelling.utf8ByteSize = 1)
    (hstop : contentStop span.start parts = span.stop ∨
      (⟨span.stop - 1, span.stop⟩ : Span).slice scope.source = quote.spelling) :
    isClosed span quote parts scope s = .ok (contentStop span.start parts < span.stop) s := by
  rw [isClosed]
  split
  case isFalse hlt => simp [hlt]; rfl
  case isTrue hlt =>
    obtain hstop | hslice := hstop
    · omega
    · rw [endsWith_eq hvalid, hquote, hslice]
      simp [hlt]

theorem run_congr {α β : Type} {m : Build α} {f g : α → Build β} (h : ∀ a s, f a scope s = g a scope s) :
    (m >>= f) scope s = (m >>= g) scope s := by
  simp only [Bind.bind, ReaderT.bind, EStateM.bind, h]

/-- A string token whose quotes stand in the source. -/
theorem stringLiteral_eq (h : StringsStand scope.source scope.tokens)
    (hkind : kindAt scope.tokens s.position = .string quote parts) :
    stringLiteral parts scope s = quotedLiteral quote parts scope s := by
  obtain ⟨hstart, hstop, hquote, hopening, hclosing⟩ := h.quoted _ _ _ hkind
  have hwide : quote.spelling.utf8ByteSize = 1 := by
    rcases hquote with rfl | rfl <;> rfl
  have hadvance : (liftM Parsing.advance : Build Token) scope s =
      .ok (tokenAt scope.tokens s.position) { s with position := s.position + 1 } := by
    have hreal : kindAt scope.tokens s.position ≠ .endOfFile := by
      rw [hkind]
      nofun
    show lift Parsing.advance scope s = _
    rw [lift, run_advance hreal]
  rw [stringLiteral, quotedLiteral, run_bind_ok hadvance, run_bind_ok hadvance]
  have hspan : (tokenAt scope.tokens s.position).span = spanAt scope.tokens s.position := rfl
  rw [hspan]
  generalize spanAt scope.tokens s.position = span at *
  rw [run_bind_ok (quoteAt_eq hstart hquote hopening)]
  refine run_congr fun opening s => run_congr fun content s => ?_
  rw [run_bind_ok (isClosed_eq hstop hwide (hclosing.imp_right And.right))]
  obtain hstop | ⟨hstop, -⟩ := hclosing
  · rw [hstop]
    simp [closingLeaf]
  · have hlt : contentStop span.start parts < span.stop := by omega
    simp only [hlt, closingLeaf]
    simp [← hstop]

end Strings

/-- Whether a step does over the arena what one with nodes does where a token of this kind is ahead. -/
def FollowsAt {α β : Type} [Related α β] (given : Given) (kind : TokenKind) (m : Build α) (m' : Parse β) :
    Prop :=
  ∀ scope scope', Fits scope scope' → ∀ mark s, given.Stands s.made mark s.made.size →
    kindAt scope.tokens s.position = kind → Agrees mark s (m scope s) (m' scope' s)

section Ahead
variable {α β : Type} [Related α β] {kind : TokenKind} {m : Build α} {m' : Parse β}

theorem FollowsAt.of (h : Follows given m m') : FollowsAt given kind m m' :=
  fun scope scope' hfits mark s hstands _ => h.follows scope scope' hfits mark s hstands

theorem FollowsAt.of_eq (p : Parse β) (h : m' = p) [hp : Follows given m p] : FollowsAt given kind m m' :=
  .of (.of_eq p h hp)

/-- What the kind ahead decides. -/
theorem Follows.peekKind {f : TokenKind → Build α} {g : TokenKind → Parse β}
    (h : ∀ kind, FollowsAt given kind (f kind) (g kind)) :
    Follows given (liftM peekKind >>= f) (Parsing.peekKind >>= g) where
  follows scope scope' hfits mark s hstands := by
    show Agrees mark s (f (kindAt scope.tokens s.position) scope s)
      (g (kindAt scope'.tokens s.position) scope' s)
    rw [← hfits.tokens]
    exact h _ scope scope' hfits mark s hstands rfl

/-- A string token is ahead, so its quotes are known. -/
theorem FollowsAt.string {quote : Punctuation} {parts : List StringPart} {m' : Parse Node}
    (h : Follows given (quotedLiteral quote parts) m') :
    FollowsAt given (.string quote parts) (stringLiteral parts) m' := by
  intro scope scope' hfits mark s hstands hkind
  rw [stringLiteral_eq hfits.strings hkind]
  exact h.follows scope scope' hfits mark s hstands

/-- A string token is ahead of what goes on behind it. -/
theorem FollowsAt.string_bind {quote : Punctuation} {parts : List StringPart} {f : NodeId → Build α}
    (h : Follows given (quotedLiteral quote parts >>= f) m') :
    FollowsAt given (.string quote parts) (stringLiteral parts >>= f) m' := by
  intro scope scope' hfits mark s hstands hkind
  have hrun : (stringLiteral parts >>= f) scope s = (quotedLiteral quote parts >>= f) scope s := by
    simp only [Bind.bind, ReaderT.bind, EStateM.bind, stringLiteral_eq hfits.strings hkind]
  rw [hrun]
  exact h.follows scope scope' hfits mark s hstands

end Ahead

/-! ### Literals -/

instance (pattern : Span) (flags : Option Span) :
    Follows .nothing (regexLiteral pattern flags) (Parsing.regexLiteral pattern flags) := by
  unfold regexLiteral Parsing.regexLiteral
  cases flags <;> infer_instance

instance : Follows .nothing templateSubstitution Parsing.templateSubstitution := by
  unfold templateSubstitution Parsing.templateSubstitution
  infer_instance

instance : Follows .nothing templateString Parsing.templateString := by
  have (children : Array Child) (nodes : Array Node) (kind : TokenKind) :
      Follows (Given.nothing.also children nodes) (match kind with
        | .templateChars | .templateEscape => do return .more (children.push (← bump))
        | .punctuation .dollarBrace => do return .more (children.push (← templateSubstitution))
        | _ => Pure.pure (.done children) : Build (Round (Array Child))) (match kind with
        | .templateChars | .templateEscape => do return .more (nodes.push (← Parsing.bump))
        | .punctuation .dollarBrace => do return .more (nodes.push (← Parsing.templateSubstitution))
        | _ => Pure.pure (.done nodes) : Parse (Round (Array Node))) := by
    split <;> infer_instance
  unfold templateString Parsing.templateString
  infer_instance

instance : Follows .nothing arrayLiteral Parsing.arrayLiteral := by
  unfold arrayLiteral Parsing.arrayLiteral
  dsimp only
  infer_instance

instance (children : Array Child) (nodes : Array Node) [Takes given children nodes .nothing] :
    Follows given (objectMember children) (Parsing.objectMember nodes) := by
  unfold objectMember Parsing.objectMember
  infer_instance

instance : Follows .nothing objectLiteral Parsing.objectLiteral := by
  unfold objectLiteral Parsing.objectLiteral
  dsimp only
  infer_instance

instance : Follows .nothing comptimeIdentifier Parsing.comptimeIdentifier := by
  unfold comptimeIdentifier Parsing.comptimeIdentifier
  infer_instance

instance : Follows .nothing privateName Parsing.privateName := by
  unfold privateName Parsing.privateName
  infer_instance

/-! ### Statements that may fail -/

/-- What the tokens decide. -/
theorem Follows.reading {α β : Type} [Related α β] {f : Array Token → Build α} {g : Array Token → Parse β}
    (h : ∀ tokens, Follows given (f tokens) (g tokens)) :
    Follows given (read >>= fun scope => f scope.tokens) (read >>= fun scope => g scope.tokens) where
  follows scope scope' hfits mark s hstands := by
    show Agrees mark s (f scope.tokens scope s) (g scope'.tokens scope' s)
    rw [hfits.tokens]
    exact (h _).follows scope scope' hfits mark s hstands

instance (token : Token) :
    Follows .nothing (skippedLeaf token) (Parsing.leaf (symbolOf token.kind) token.span) := by
  unfold skippedLeaf
  infer_instance

instance (start stop : Nat) : Follows .nothing (errorNode? start stop) (Parsing.errorNode? start stop) := by
  have hdamage (tokens : Array Token) : Follows .nothing (do
      let leaves ← (tokens.extract start stop).toList.mapM skippedLeaf
      return some (← node .error leaves.toArray) : Build (Option NodeId)) (do
      let leaves ← (tokens.extract start stop).toList.mapM fun token =>
        Parsing.leaf (symbolOf token.kind) token.span
      return some (← Parsing.node .error leaves.toArray) : Parse (Option Node)) := inferInstance
  unfold errorNode? Parsing.errorNode?
  split
  · infer_instance
  · exact .reading hdamage

/-- A statement that may fail is that statement, or what is skipped in its place. -/
theorem statementOrError_eq (scope : Scope) (s : State) : statementOrError scope s =
    match scope.deeper .statement s with
    | .ok id s' => .ok (some id) s'
    | .error (.problem problem) s' =>
      errorNode? s.position (s.resumed scope.tokens s' problem).position scope
        (s.resumed scope.tokens s' problem)
    | .error .outOfRange s' => .error .outOfRange s' := by
  show tryCatch (some <$> statement) _ scope s = _
  rw [map_eq_pure_bind]
  simp only [tryCatch, tryCatchThe, MonadExceptOf.tryCatch, EStateM.tryCatch, Bind.bind,
    ReaderT.bind, EStateM.bind, statement, descend]
  cases scope.deeper .statement s with
  | ok id s' => rfl
  | error fault s' => cases fault <;> rfl

/-- Cutting off what was made behind the mark restores the arena. -/
theorem Spares.shrink {s s' : State} (h : Spares s.made.size s s') : s'.made.shrink s.made.size = s.made := by
  apply Array.ext_getElem?
  intro i
  rw [← Array.getElem?_toList, Array.toList_shrink, List.getElem?_take]
  split
  case isTrue hlt => rw [Array.getElem?_toList, h.below i hlt]
  case isFalse hge => rw [Array.getElem?_eq_none (Nat.not_lt.mp hge)]

instance : Follows .nothing statementOrError Parsing.statementOrError where
  follows scope scope' hfits mark s hstands := by
    obtain rfl : mark = s.made.size := hstands
    have hrun := hfits.deeper .statement s
    rw [statementOrError_eq, Parsing.statementOrError_eq, ← hfits.tokens]
    generalize scope.deeper .statement s = result at hrun ⊢
    generalize scope'.deeper .statement s = result' at hrun ⊢
    cases hrun with
    | ok spares stand => exact .ok spares ⟨rfl, stand.stack⟩
    | @error problem s' spares =>
      have hmade : (s.resumed scope.tokens s' problem).made = s.made := spares.shrink
      have hdamage (stop : Nat) :
          Follows .nothing (errorNode? s.position stop) (Parsing.errorNode? s.position stop) := inferInstance
      refine .trans (.of_made hmade ?_) ((hdamage _).follows scope scope' hfits s.made.size
        (s.resumed scope.tokens s' problem) (congrArg Array.size hmade).symm)
      show s.problems.toList <+: (s'.problems.push problem).toList
      rw [Array.toList_push]
      exact spares.reported.trans (List.prefix_append _ _)

instance (inBlock : Bool) (children : Array Child) (nodes : Array Node)
    [Takes given children nodes .nothing] :
    Follows given (statements inBlock children) (Parsing.statements inBlock nodes) := by
  have (children : Array Child) (nodes : Array Node) (id : Option NodeId) (n : Option Node) :
      Follows ((Given.nothing.also children nodes).also id n) (match id with
        | some id => Pure.pure (.more (children.push id))
        | none => Pure.pure (.more children) : Build (Round (Array Child))) (match n with
        | some n => Pure.pure (.more (nodes.push n))
        | none => Pure.pure (.more nodes) : Parse (Round (Array Node))) := by
    cases id with
    | none =>
      cases n with
      | none => exact .ofNone inferInstance
      | some n => exact .unlike fun hsame => by cases hsame
    | some id =>
      cases n with
      | none => exact .unlike fun hsame => by cases hsame
      | some n => exact .ofSome inferInstance
  unfold statements Parsing.statements
  infer_instance

instance : Follows .nothing block Parsing.block := by
  unfold block Parsing.block
  infer_instance

/-! ### Functions -/

instance : Follows .nothing parameter Parsing.parameter := by
  unfold parameter Parsing.parameter
  infer_instance

instance : Follows .nothing parameters Parsing.parameters := by
  unfold parameters Parsing.parameters
  infer_instance

instance : Follows .nothing returnType Parsing.returnType := by
  unfold returnType Parsing.returnType
  infer_instance

instance : Follows .nothing blockOrExpression Parsing.blockOrExpression := by
  unfold blockOrExpression Parsing.blockOrExpression
  infer_instance

instance : Follows .nothing functionDeclaration Parsing.functionDeclaration := by
  unfold functionDeclaration Parsing.functionDeclaration
  infer_instance

instance : Follows .nothing anonymousFunction Parsing.anonymousFunction := by
  unfold anonymousFunction Parsing.anonymousFunction
  infer_instance

instance : Follows .nothing arrowFunction Parsing.arrowFunction := by
  unfold arrowFunction Parsing.arrowFunction
  infer_instance

/-! ### Match expressions -/

instance : Follows .nothing parenthesized Parsing.parenthesized := by
  unfold parenthesized Parsing.parenthesized
  infer_instance

instance : Follows .nothing signedInteger Parsing.signedInteger := by
  unfold signedInteger Parsing.signedInteger
  infer_instance

instance : Follows .nothing integerCondition Parsing.integerCondition := by
  unfold integerCondition Parsing.integerCondition
  infer_instance

instance (children : Array Child) (nodes : Array Node) [Takes given children nodes .nothing] :
    Follows given (pathCondition children) (Parsing.pathCondition nodes) := by
  unfold pathCondition Parsing.pathCondition
  infer_instance

instance (children : Array Child) (nodes : Array Node) [Takes given children nodes .nothing] :
    Follows given (condition children) (Parsing.condition nodes) := by
  unfold condition Parsing.condition
  refine .peekKind fun kind => ?_
  split
  case h_4 => exact .string_bind inferInstance
  case h_6 =>
    cases hliteral : literalKind? kind <;> (simp only [*]; exact .of inferInstance)
  all_goals exact .of inferInstance

instance (children : Array Child) (nodes : Array Node) [Takes given children nodes .nothing] :
    Follows given (conditions children) (Parsing.conditions nodes) := by
  unfold conditions Parsing.conditions
  infer_instance

instance : Follows .nothing matchCase Parsing.matchCase := by
  unfold matchCase Parsing.matchCase
  infer_instance

instance : Follows .nothing matchElse Parsing.matchElse := by
  unfold matchElse Parsing.matchElse
  infer_instance

instance : Follows .nothing matchExpression Parsing.matchExpression := by
  unfold matchExpression Parsing.matchExpression
  infer_instance

/-! ### Operands -/

instance : Follows .nothing primaryContent Parsing.primaryContent := by
  unfold primaryContent Parsing.primaryContent
  refine .peekKind fun kind => ?_
  split
  case h_3 => exact .string inferInstance
  case h_12 =>
    cases hliteral : literalKind? kind <;> (simp only [*]; exact .of inferInstance)
  all_goals exact .of inferInstance

instance (id : NodeId) (n : Node) [Takes given id n .nothing] :
    Follows given (node .primaryExpression #[id.plain]) (Parsing.node .primaryExpression #[n]) :=
  .made_node _ _ _ fun _ c hc => by
    obtain rfl := Array.mem_singleton.mp (Array.mem_def.mpr hc)
    rfl

instance : Follows .nothing primary Parsing.primary := by
  unfold primary Parsing.primary
  infer_instance

instance : Follows .nothing argument Parsing.argument := by
  unfold argument Parsing.argument
  infer_instance

instance : Follows .nothing arguments Parsing.arguments := by
  unfold arguments Parsing.arguments
  infer_instance

instance : Follows .nothing accessMark Parsing.accessMark := by
  unfold accessMark Parsing.accessMark
  infer_instance

instance : Follows .nothing propertyName Parsing.propertyName := by
  unfold propertyName Parsing.propertyName
  infer_instance

instance (object : NodeId) (n : Node) [Takes given object n .nothing] :
    Follows given (member object) (Parsing.member n) := by
  unfold member Parsing.member
  infer_instance

instance (operand : NodeId) (n : Node) [Takes given operand n .nothing] :
    Follows given (call operand) (Parsing.call n) := by
  unfold call Parsing.call
  infer_instance

instance (operand : NodeId) (n : Node) {rest : Given} [Takes given operand n rest] :
    Keeps given (requirePrimary operand) (Parsing.requirePrimary n) where
  keeps scope scope' hfits mark s hstands := by
    rw [requirePrimary, run_bind_ok (Tells.kindOf operand n scope mark s hstands)]
    unfold Parsing.requirePrimary
    split
    · exact .ok rfl (List.prefix_refl _)
    · show Same s (.error (.problem ⟨_, (tokenAt scope.tokens (s.position + 0)).span⟩) s)
        (.error ⟨_, (tokenAt scope'.tokens (s.position + 0)).span⟩ s)
      rw [hfits.tokens]
      exact .error rfl (List.prefix_refl _)

instance (operand : NodeId) (n : Node) [Takes given operand n .nothing] :
    Follows given (optionalCall operand) (Parsing.optionalCall n) := by
  unfold optionalCall Parsing.optionalCall
  infer_instance

instance (operand : NodeId) (n : Node) [Takes given operand n .nothing] :
    Follows given (access operand) (Parsing.access n) := by
  unfold access Parsing.access
  infer_instance

instance (operand : NodeId) (n : Node) [Takes given operand n .nothing] :
    Follows given (extend operand) (Parsing.extend n) := by
  unfold extend Parsing.extend
  refine .peekKind fun kind => ?_
  split
  case h_4 => exact .of_eq (pure (.done n)) (by simp only [*])
  all_goals exact .of inferInstance

instance : Follows .nothing operand Parsing.operand := by
  unfold operand Parsing.operand
  infer_instance

/-! ### Assignments and patterns -/

instance : IsFalse ([NodeKind.identifier, .memberExpression].contains .primaryExpression) := ⟨rfl⟩

instance : IsFalse ([NodeKind.identifier, .memberExpression, .parenthesizedExpression].contains
    .primaryExpression) := ⟨rfl⟩

/-- Nothing but a primary expression can be assigned to. -/
theorem assignmentTarget_throws {n : Node} {allowed : List NodeKind}
    (h : ¬n.kind? = some .primaryExpression) :
    Parsing.assignmentTarget n allowed = throw ⟨.invalidTarget, n.span⟩ := by
  unfold Parsing.assignmentTarget
  split
  · rw [decide_eq_false h, Bool.false_and, if_neg Bool.false_ne_true]
  · rfl

instance (operand : NodeId) (n : Node) (allowed : List NodeKind) [h : Takes given operand n .nothing]
    [hallowed : IsFalse (allowed.contains .primaryExpression)] :
    Follows given (assignmentTarget operand allowed) (Parsing.assignmentTarget n allowed) where
  follows scope scope' hfits mark s hstands := by
    have hone := (h.all hstands).one
    obtain ⟨b, hkept, hshows, hbelow⟩ := hone.stands.kept
    have hkind : kindOf operand scope s = .ok n.kind? s := Tells.kindOf operand n scope mark s hstands
    have hfails (mark : Nat) : Agrees mark s
        ((spanOf operand >>= fun span => fail ⟨.invalidTarget, span⟩ : Build NodeId) scope s)
        ((throw ⟨.invalidTarget, n.span⟩ : Parse Node) scope' s) := by
      rw [run_bind_ok (Tells.spanOf operand n scope _ s hstands)]
      exact .error .refl
    rw [assignmentTarget, run_bind_ok hkind]
    split
    case isFalse hother =>
      rw [assignmentTarget_throws hother]
      exact hfails _
    case isTrue hprimary =>
      rw [run_bind_ok (childrenOf_eq operand hkept)]
      unfold Parsing.assignmentTarget
      generalize hids : b.children = ids at hbelow
      generalize hchildren : n.children = children at hbelow
      cases hbelow with
      | nil => exact hfails _
      | @cons _ i _ _ b' inner ids children kept shows _ _ _ _ rest =>
        cases rest with
        | cons => exact hfails _
        | nil =>
          have hinner : kindOf ⟨i⟩ scope s = .ok inner.kind? s :=
            (kindOf_eq ⟨i⟩ kept).trans (by rw [shows.symbol]; rfl)
          simp only [hprimary, decide_true, Bool.true_and]
          show Agrees mark s ((kindOf ⟨i⟩ >>= fun kind => if kind.any allowed.contains = true then _ else _ :
            Build NodeId) scope s) _
          rw [run_bind_ok hinner]
          split
          case isFalse => exact hfails _
          case isTrue hallows =>
            have hother : inner.symbol ≠ .named .primaryExpression := by
              intro hwrapped
              rw [Node.kind?_eq_some.mpr hwrapped] at hallows
              exact Bool.false_ne_true (hallowed.eq_false.symm.trans hallows)
            exact .ok .refl (.of_one (hone.content hkept hids (Node.kind?_eq_some.mp hprimary) hchildren hother))

instance (target : NodeId) (n : Node) [Takes given target n .nothing] :
    Follows given (assignmentRest target) (Parsing.assignmentRest n) := by
  unfold assignmentRest Parsing.assignmentRest
  infer_instance

instance (target : NodeId) (n : Node) [Takes given target n .nothing] :
    Follows given (augmentedRest target) (Parsing.augmentedRest n) := by
  unfold augmentedRest Parsing.augmentedRest
  infer_instance

instance : Follows .nothing patternWithDefault Parsing.patternWithDefault := by
  unfold patternWithDefault Parsing.patternWithDefault
  infer_instance

instance (key : NodeId) (n : Node) [Takes given key n .nothing] :
    Follows given (pairRest key) (Parsing.pairRest n) := by
  unfold pairRest Parsing.pairRest
  infer_instance

instance : Follows .nothing arrayPattern Parsing.arrayPattern := by
  unfold arrayPattern Parsing.arrayPattern
  infer_instance

instance (operand : NodeId) (n : Node) [Takes given operand n .nothing] :
    Follows given (assignmentOr operand) (Parsing.assignmentOr n) := by
  unfold assignmentOr Parsing.assignmentOr
  refine .peekKind fun kind => ?_
  split
  case h_1 => exact .of inferInstance
  case h_2 => exact .of_eq (pure n) (by simp only [*])

instance : Follows .nothing target Parsing.target := by
  unfold target Parsing.target
  refine .peekKind fun kind => ?_
  split
  case h_3 =>
    exact .of_eq (do Parsing.assignmentTarget (← Parsing.operand) [.identifier, .memberExpression])
      (by simp only [*])
  all_goals exact .of inferInstance

instance : Follows .nothing restPattern Parsing.restPattern := by
  unfold restPattern Parsing.restPattern
  infer_instance

instance : Follows .nothing patternContent Parsing.patternContent := by
  unfold patternContent Parsing.patternContent
  infer_instance

instance : Follows .nothing pattern Parsing.pattern := by
  unfold pattern Parsing.pattern
  infer_instance

instance : Follows .nothing objectPatternMember Parsing.objectPatternMember := by
  unfold objectPatternMember Parsing.objectPatternMember
  refine .peekKind fun kind => ?_
  split
  case h_4 => exact .of_eq (Parsing.unexpected .propertyPattern) (by simp only [*])
  all_goals exact .of inferInstance

instance : Follows .nothing objectPattern Parsing.objectPattern := by
  unfold objectPattern Parsing.objectPattern
  infer_instance

instance : Follows .nothing destructuringPattern Parsing.destructuringPattern := by
  unfold destructuringPattern Parsing.destructuringPattern
  infer_instance

instance : Follows .nothing destructuringAssignment Parsing.destructuringAssignment := by
  unfold destructuringAssignment Parsing.destructuringAssignment
  infer_instance

/-! ### Operators -/

instance : Follows .nothing unaryOperation Parsing.unaryOperation := by
  unfold unaryOperation Parsing.unaryOperation
  infer_instance

instance : Follows .nothing privateMembership Parsing.privateMembership := by
  unfold privateMembership Parsing.privateMembership
  infer_instance

instance : Follows .nothing ifTernary Parsing.ifTernary := by
  unfold ifTernary Parsing.ifTernary
  infer_instance

instance : Follows .nothing unary Parsing.unary := by
  unfold unary Parsing.unary
  refine .peekKind fun kind => ?_
  split
  case h_7 o _ _ =>
    exact .of_eq (if o.isUnary then Parsing.unaryOperation else do Parsing.assignmentOr (← Parsing.operand))
      (by simp only [*])
  case h_8 => exact .of_eq (do Parsing.assignmentOr (← Parsing.operand)) (by simp only [*])
  all_goals exact .of inferInstance

theorem Tells.isAssignment (id : NodeId) (n : Node) {rest : Given} [Takes given id n rest] :
    Tells given (isAssignment id) (Parsing.isAssignment n) := by
  intro scope mark s hstands
  exact run_bind_ok (Tells.kindOf id n scope mark s hstands)

instance (least : Nat) (left : NodeId) (n : Node) [Takes given left n .nothing] :
    Follows given (operateOn least left) (Parsing.operateOn least n) := by
  have (binding : Option (Nat × Associativity)) : Follows given (match binding with
      | none => Pure.pure (.done left)
      | some binding =>
        if binding.1 < least then Pure.pure (.done left)
        else do
          let o ← bump
          let right ← descend (.binary (leastAfter binding))
          return .more (← node .binaryExpression
            #[left.withField .left, o.withField .operator, right.withField .right]) :
        Build (Round NodeId)) (match binding with
      | none => Pure.pure (.done n)
      | some binding =>
        if binding.1 < least then Pure.pure (.done n)
        else do
          let o ← Parsing.bump
          let right ← Parsing.descend (.binary (leastAfter binding))
          return .more (← Parsing.node .binaryExpression
            #[n.withField .left, o.withField .operator, right.withField .right]) :
        Parse (Round Node)) := by
    cases binding <;> infer_instance
  unfold operateOn Parsing.operateOn
  refine .known (.isAssignment left n) ?_
  infer_instance

instance (least : Nat) : Follows .nothing (binary least) (Parsing.binary least) := by
  unfold binary Parsing.binary
  infer_instance

/-! ### Statements -/

instance : Follows .nothing initializer Parsing.initializer := by
  unfold initializer Parsing.initializer
  infer_instance

instance : Follows .nothing variableDeclaration Parsing.variableDeclaration := by
  unfold variableDeclaration Parsing.variableDeclaration
  infer_instance

instance : Follows .nothing enumMember Parsing.enumMember := by
  unfold enumMember Parsing.enumMember
  infer_instance

instance : Follows .nothing enumDeclaration Parsing.enumDeclaration := by
  unfold enumDeclaration Parsing.enumDeclaration
  dsimp only
  infer_instance

instance : Follows .nothing returnStatement Parsing.returnStatement := by
  unfold returnStatement Parsing.returnStatement
  infer_instance

instance : Follows .nothing breakStatement Parsing.breakStatement := by
  unfold breakStatement Parsing.breakStatement
  infer_instance

instance : Follows .nothing elseBranch Parsing.elseBranch := by
  unfold elseBranch Parsing.elseBranch alternative Parsing.alternative
  infer_instance

instance : Follows .nothing ifStatement Parsing.ifStatement := by
  unfold ifStatement Parsing.ifStatement
  infer_instance

instance : Follows .nothing expressionStatement Parsing.expressionStatement := by
  unfold expressionStatement Parsing.expressionStatement
  refine .look fun start => .next fun id n => .known (.kindOf id n) ?_
  generalize n.kind? = kind
  split
  case h_3 =>
    exact .of_eq (throw ⟨.notAStatement, start.span.merge n.span⟩) (by simp only [*])
      (.known (.spanOf id n) inferInstance)
  all_goals infer_instance

instance : Follows .nothing anyStatement Parsing.anyStatement := by
  unfold anyStatement Parsing.anyStatement
  refine .peekKind fun kind => ?_
  split
  case h_11 => exact .of_eq Parsing.expressionStatement (by simp only [*])
  all_goals exact .of inferInstance

instance (goal : Goal) : Follows .nothing (production goal) (Parsing.production goal) := by
  cases goal <;> (unfold Building.production Parsing.production; infer_instance)

end Productions

/-! ### Levels -/

/-- On every level the productions over the arena do what those with nodes do. -/
theorem level_fits {source : String} {tokens : Array Token} (h : StringsStand source tokens)
    (maxDepth levels : Nat) :
    Fits ⟨source, tokens, level source tokens maxDepth levels⟩ ⟨tokens, Parsing.level tokens maxDepth levels⟩ where
  tokens := rfl
  strings := h
  deeper goal s := by
    induction levels generalizing goal s with
    | zero => exact .error .refl
    | succ levels ih =>
      have hproduction : Follows .nothing (production goal) (Parsing.production goal) := inferInstance
      exact hproduction.follows _ _ ⟨rfl, h, ih⟩ s.made.size s rfl

end ScriptTree.Building
