import Mathlib
import ScriptTree.Proofs.Parsing.Progress

/-! Loops end by themselves.

Every round of a loop that goes on has read a token (`Moves`), so no more rounds are made than tokens are
left (`repeatFrom_halts`). The bound on the rounds in `repeatFrom` is never what ends a loop. `Loop`
lists the loops of the parser with the productions that they stand in. -/
namespace ScriptTree.Parsing

/-! ### Rounds that go on -/

/-- Rounds that read a token if they go on. -/
class Moves {α : Type} (m : Parse (Round α)) : Prop where
  moves : ∀ scope, Deepens scope → Urges scope → ∀ s a s', m scope s = .ok (.more a) s' →
    s.position < s'.position

/-- Rounds that, in front of a token, read it if they go on. -/
class MovesAhead {α : Type} (m : Parse (Round α)) : Prop where
  moves : ∀ scope, Deepens scope → Urges scope → ∀ s,
    kindAt scope.tokens s.position ≠ .endOfFile → ∀ a s', m scope s = .ok (.more a) s' →
      s.position < s'.position

namespace MovesAhead
variable {α β : Type}

instance (priority := low) of_moves (m : Parse (Round α)) [hm : Moves m] : MovesAhead m :=
  ⟨fun scope hdeep hurge s _ => hm.moves scope hdeep hurge s⟩

instance (priority := mid) of_forward (m : Parse (Round α)) [hm : Forward m] : MovesAhead m where
  moves scope hdeep hurge s hreal a s' hrun := by
    have hpasses := hm.passes scope hdeep hurge s hreal
    rw [hrun] at hpasses
    exact hpasses.le

instance ite (c : Prop) [Decidable c] (m m' : Parse (Round α)) [MovesAhead m] [MovesAhead m'] :
    MovesAhead (if c then m else m') := by
  split <;> infer_instance

instance (priority := low) look (m : Parse β) (f : β → Parse (Round α)) [hm : Still m]
    [hf : ∀ b, MovesAhead (f b)] : MovesAhead (m >>= f) where
  moves scope hdeep hurge s hreal a s' hrun := by
    obtain ⟨b, s₁, hfirst, hrest⟩ := run_bind_eq_ok hrun
    have hsame := hm.same scope s
    rw [hfirst] at hsame
    obtain rfl : s₁ = s := hsame
    exact (hf b).moves scope hdeep hurge s₁ hreal a s' hrest

instance chosen (m m' : Parse (Round α)) [h : MovesAhead m] :
    MovesAhead (if true = true then m else m') := h

end MovesAhead

namespace Moves
variable {α β : Type}

instance done (a : α) : Moves (pure (.done a) : Parse (Round α)) :=
  ⟨fun _ _ _ _ _ _ hrun => by cases hrun⟩

instance ite (c : Prop) [Decidable c] (m m' : Parse (Round α)) [Moves m] [Moves m'] :
    Moves (if c then m else m') := by
  split <;> infer_instance

instance otherwise (m m' : Parse (Round α)) [h : Moves m'] :
    Moves (if false = true then m else m') := h

instance neither (b : Bool) (m m' : Parse (Round α)) [h : Moves m'] :
    Moves (if (false && b) = true then m else m') := h

instance (priority := low) next (m : Parse β) (f : β → Parse (Round α)) [Composed m]
    [hf : ∀ b, Moves (f b)] : Moves (m >>= f) where
  moves scope hdeep hurge s a s' hrun := by
    obtain ⟨b, s₁, hfirst, hrest⟩ := run_bind_eq_ok hrun
    have hlater := Composed.onward (m := m) hdeep s
    rw [hfirst] at hlater
    exact hlater.le.trans_lt ((hf b).moves scope hdeep hurge s₁ a s' hrest)

/-- What a token ahead decides. -/
theorem look {m : Parse β} {f : β → Parse (Round α)} (seen : TokenKind → β)
    (hm : ∀ scope s, m scope s = .ok (seen (kindAt scope.tokens s.position)) s)
    (hend : Moves (f (seen .endOfFile)))
    (hreal : ∀ kind, kind ≠ .endOfFile → MovesAhead (f (seen kind))) : Moves (m >>= f) where
  moves scope hdeep hurge s a s' hrun := by
    rw [run_bind_ok (hm scope s)] at hrun
    by_cases hkind : kindAt scope.tokens s.position = .endOfFile
    · rw [hkind] at hrun
      exact hend.moves scope hdeep hurge s a s' hrun
    · exact (hreal _ hkind).moves scope hdeep hurge s hkind a s' hrun

/-- Only a token can be seen. -/
theorem see {m : Parse Bool} {f : Bool → Parse (Round α)} (seen : TokenKind → Bool)
    (hm : ∀ scope s, m scope s = .ok (seen (kindAt scope.tokens s.position)) s)
    (hend : seen .endOfFile = false) [htrue : MovesAhead (f true)] [hfalse : Moves (f false)] :
    Moves (m >>= f) := by
  refine look seen hm (hend ▸ hfalse) fun kind _ => ?_
  cases seen kind
  · infer_instance
  · exact htrue

instance sees (mark : Punctuation) (f : Bool → Parse (Round α)) [MovesAhead (f true)]
    [Moves (f false)] : Moves (sees mark >>= f) :=
  see (·.isPunctuation mark) (fun _ _ => rfl) rfl

instance seesOperator (o : Operator) (f : Bool → Parse (Round α)) [MovesAhead (f true)]
    [Moves (f false)] : Moves (seesOperator o >>= f) :=
  see (·.isOperator o) (fun _ _ => rfl) rfl

instance seesWord (word : Keyword) (f : Bool → Parse (Round α)) [MovesAhead (f true)]
    [Moves (f false)] : Moves (seesWord word >>= f) :=
  see (·.isKeyword word) (fun _ _ => rfl) rfl

end Moves

/-! ### The loops of the parser -/

/-- The loops of the parser. What has been collected in front of some of them is given to them. -/
inductive Loop where
  | statements (inBlock : Bool) (children : Array Node)
  | arguments
  | parameters
  | objectPattern
  | arrayPattern
  | tuple
  | matchCases
  | template
  | array
  | object
  | enumMembers
  | path (children : Array Node)
  | conditions (children : Array Node)
  | accesses
  | operations (least : Nat)
  | postfixTypes
  | unions

namespace Loop

/-- What a loop collects or builds up. -/
abbrev Item : Loop → Type
  | .accesses | .operations _ | .postfixTypes | .unions => Node
  | _ => Array Node

/-- What the production of a loop gives. -/
abbrev Result : Loop → Type
  | .statements .. | .path _ | .conditions _ => Array Node
  | _ => Node

/-- The production that a loop stands in. -/
def owner : (loop : Loop) → Parse loop.Result
  | .statements inBlock children => Parsing.statements inBlock children
  | .arguments => Parsing.arguments
  | .parameters => Parsing.parameters
  | .objectPattern => Parsing.objectPattern
  | .arrayPattern => Parsing.arrayPattern
  | .tuple => tupleType
  | .matchCases => matchExpression
  | .template => templateString
  | .array => arrayLiteral
  | .object => objectLiteral
  | .enumMembers => enumDeclaration
  | .path children => pathCondition children
  | .conditions children => Parsing.conditions children
  | .accesses => operand
  | .operations least => binary least
  | .postfixTypes => postfixType
  | .unions => unionType

/-! ### Their rounds -/

/-- A round of a list with commas. -/
def listRound (closing : Punctuation) (item : Parse Node) (children : Array Node) :
    Parse (Round (Array Node)) := do
  if ← sees closing then return .done children
  if ← sees .comma then return .more (children.push (← bump))
  let children := children.push (← item)
  if ← sees .comma then return .more (children.push (← bump))
  return .done children

def round : (loop : Loop) → loop.Item → Parse (Round loop.Item)
  | .statements inBlock _, children => do
    if ← atEnd then return .done children
    if inBlock && (← sees .rightBrace) then return .done children
    match ← statementOrError with
    | some n => return .more (children.push n)
    | none => return .more children
  | .arguments, children => listRound .rightParen argument children
  | .parameters, children => listRound .rightParen parameter children
  | .objectPattern, children => listRound .rightBrace objectPatternMember children
  | .arrayPattern, children => listRound .rightBracket patternWithDefault children
  | .tuple, children => do
    if ← sees .rightBracket then return .done children
    let children := children.push (← type)
    if ← sees .comma then return .more (children.push (← bump))
    return .done children
  | .matchCases, cases => do
    unless ← seesWord .caseWord do return .done cases
    return .more (cases.push ((← matchCase).withField .body))
  | .template, children => do
    match ← peekKind with
    | .templateChars | .templateEscape => return .more (children.push (← bump))
    | .punctuation .dollarBrace => return .more (children.push (← templateSubstitution))
    | _ => return .done children
  | .array, children => do
    unless ← sees .comma do return .done children
    let children := children.push (← bump)
    return .more (children.push (← expression))
  | .object, children => do
    let children ← objectMember children
    unless ← sees .comma do return .done children
    let children := children.push (← bump)
    return if ← sees .rightBrace then .done children else .more children
  | .enumMembers, children => do
    unless ← sees .comma do return .done children
    let children := children.push (← bump)
    if ← sees .rightBrace then return .done children
    return .more (children.push (← enumMember))
  | .path _, children => do
    unless (← sees .dot) && (← kindAhead 1).isIdentifier do return .done children
    let point ← bump
    let name ← bump
    return .more (children ++ #[point.withField .condition, name.withField .condition])
  | .conditions _, children => do
    unless ← sees .comma do return .done children
    return .more (← condition (children.push ((← bump).withField .condition)))
  | .accesses, n => extend n
  | .operations least, n => operateOn least n
  | .postfixTypes, t => do
    if (← sees .leftBracket) && (← kindAhead 1).isPunctuation .rightBracket then
      return .more (← node .arrayType #[t, ← bump, ← bump])
    if ← sees .question then return .more (← node .orUndefinedType #[t, ← bump])
    return .done t
  | .unions, left => do
    if ← seesOperator .bitOr then return .more (← node .unionType #[left, ← bump, ← postfixType])
    return .done left

/-- Whether a step comes to a loop, whatever the steps in front of it give. -/
inductive Runs (loop : Loop) : {β : Type} → Parse β → Prop
  | here (start : loop.Item) : Runs loop (repeatFrom start loop.round)
  | first {β γ : Type} {m : Parse β} {f : β → Parse γ} (h : Runs loop m) : Runs loop (m >>= f)
  | rest {β γ : Type} {m : Parse β} {f : β → Parse γ} (h : ∀ b, Runs loop (f b)) :
      Runs loop (m >>= f)

theorem runs_listOf {loop : Loop} {kind : NodeKind} {opening closing : Punctuation}
    {item : Parse Node} (h : ∀ start, loop.Runs (repeatFrom start (listRound closing item))) :
    loop.Runs (listOf kind opening closing item) :=
  .rest fun start => .first (h #[start])

/-- The rounds of a loop are those of its production. -/
theorem owner_runs (loop : Loop) : loop.Runs loop.owner := by
  cases loop with
  | statements inBlock children => exact @Runs.here (.statements inBlock children) children
  | arguments => exact runs_listOf (@Runs.here .arguments)
  | parameters => exact runs_listOf (@Runs.here .parameters)
  | objectPattern => exact runs_listOf (@Runs.here .objectPattern)
  | arrayPattern => exact runs_listOf (@Runs.here .arrayPattern)
  | tuple => exact .rest fun _ => .first (.here _)
  | matchCases => exact .rest fun _ => .rest fun _ => .rest fun _ => .first (.here _)
  | template => exact .rest fun _ => .first (.here _)
  | array => exact .rest fun _ => .rest fun _ => .first (.here _)
  | object => exact .rest fun _ => .first (.here _)
  | enumMembers =>
    exact .rest fun _ => .rest fun _ => .rest fun _ => .rest fun _ => .first (.here _)
  | path children => exact .rest fun _ => .here _
  | conditions children => exact .rest fun _ => .here _
  | accesses => exact .rest fun _ => .here _
  | operations least => exact .rest fun _ => .here _
  | postfixTypes => exact .rest fun _ => .here _
  | unions => exact .rest fun _ => .here _

/-! ### Their progress -/

instance (closing : Punctuation) (item : Parse Node) [Composed item] (children : Array Node) :
    Moves (listRound closing item children) := by
  unfold listRound
  dsimp only
  infer_instance

instance (inBlock : Bool) (start children : Array Node) :
    Moves (Loop.round (.statements inBlock start) children) := by
  have (o : Option Node) : Composed (match o with
      | some n => Pure.pure (.more (children.push n))
      | none => Pure.pure (.more children) : Parse (Round (Array Node))) := by
    cases o <;> infer_instance
  dsimp only [round]
  refine Moves.look (· == .endOfFile) (fun _ _ => rfl) (.done children) fun kind hkind => ?_
  rw [beq_eq_false_iff_ne.mpr hkind]
  infer_instance

instance (children : Array Node) : Moves (Loop.round .template children) := by
  dsimp only [round]
  refine Moves.look id (fun _ _ => rfl) (.done children) fun kind _ => ?_
  dsimp only [id]
  split <;> infer_instance

instance (n : Node) : Moves (extend n) := by
  unfold extend
  refine Moves.look id (fun _ _ => rfl) (.done n) fun kind _ => ?_
  dsimp only [id]
  split <;> infer_instance

instance (least : Nat) (n : Node) : Moves (operateOn least n) := by
  unfold operateOn
  refine @Moves.ite _ _ _ _ _ (.done n) ?_
  refine Moves.look id (fun _ _ => rfl) (.done n) fun kind _ => ?_
  dsimp only [id]
  split <;> infer_instance

/-- Every round reads a token if it goes on. -/
instance round_moves (loop : Loop) (a : loop.Item) : Moves (loop.round a) := by
  cases loop with
  | statements | template => infer_instance
  | arguments | parameters | objectPattern | arrayPattern =>
    exact inferInstanceAs (Moves (listRound _ _ _))
  | accesses => exact inferInstanceAs (Moves (extend a))
  | operations least => exact inferInstanceAs (Moves (operateOn least a))
  | _ =>
    dsimp only [round]
    infer_instance

instance (closing : Punctuation) (item : Parse Node) [Composed item] (children : Array Node) :
    Composed (listRound closing item children) := by
  unfold listRound
  dsimp only
  infer_instance

instance round_composed (loop : Loop) (a : loop.Item) : Composed (loop.round a) := by
  cases loop with
  | statements inBlock children =>
    have (o : Option Node) : Composed (match o with
        | some n => Pure.pure (.more (Array.push a n))
        | none => Pure.pure (.more a) : Parse (Round (Array Node))) := by
      cases o <;> infer_instance
    dsimp only [round]
    infer_instance
  | template =>
    dsimp only [round]
    refine .next fun kind => ?_
    split <;> infer_instance
  | arguments | parameters | objectPattern | arrayPattern =>
    exact inferInstanceAs (Composed (listRound _ _ _))
  | accesses => exact inferInstanceAs (Composed (extend a))
  | operations least => exact inferInstanceAs (Composed (operateOn least a))
  | _ =>
    dsimp only [round]
    infer_instance

end Loop

/-! ### Loops that end -/

/-- What rounds come to one after the other, without a bound, and how many of them there are. -/
inductive Halts {α : Type} (round : α → Parse (Round α)) (scope : Scope) :
    Nat → α → State → EStateM.Result Problem State α → Prop
  | done {a b s s'} (h : round a scope s = .ok (.done b) s') : Halts round scope 1 a s (.ok b s')
  | fail {a e s s'} (h : round a scope s = .error e s') : Halts round scope 1 a s (.error e s')
  | more {n a b s s' result} (h : round a scope s = .ok (.more b) s')
      (rest : Halts round scope n b s' result) : Halts round scope (n + 1) a s result

section Halting
variable {tokens : Array Token} {maxDepth levels : Nat} {α : Type}
  {round : α → Parse (Round α)} [∀ a, Moves (round a)] [∀ a, Composed (round a)]

/-- Rounds end before the tokens do, and before the bound if it is as high as tokens are left. -/
theorem rounds_halts (hends : EndsOnce tokens) (bound : Nat) (a : α) (s : State)
    (hs : s.position < tokens.size) (hbound : tokens.size - s.position ≤ bound) :
    ∃ n ≤ tokens.size - s.position, Halts round ⟨tokens, level tokens maxDepth levels⟩ n a s
      (rounds round bound a ⟨tokens, level tokens maxDepth levels⟩ s) := by
  induction bound generalizing a s with
  | zero => omega
  | succ bound ih =>
    rw [rounds]
    cases hrun : round a ⟨tokens, level tokens maxDepth levels⟩ s with
    | error e s' =>
      rw [run_bind_error hrun]
      exact ⟨1, by omega, .fail hrun⟩
    | ok outcome s' =>
      rw [run_bind_ok hrun]
      cases outcome with
      | done b => exact ⟨1, by omega, .done hrun⟩
      | more b =>
        have hmoves := Moves.moves _ (level_deepens tokens maxDepth levels)
          (level_urges tokens maxDepth levels) s b s' hrun
        have hproceeds := Composed.leads (m := round a) (level_proceeds hends maxDepth levels) s
        rw [hrun] at hproceeds
        obtain ⟨n, hn, hhalts⟩ := ih b s' (hproceeds hs).2 (by omega)
        exact ⟨n + 1, by omega, .more hrun hhalts⟩

theorem repeatFrom_halts (hends : EndsOnce tokens) (a : α) (s : State)
    (hs : s.position < tokens.size) :
    ∃ n ≤ tokens.size - s.position, Halts round ⟨tokens, level tokens maxDepth levels⟩ n a s
      (repeatFrom a round ⟨tokens, level tokens maxDepth levels⟩ s) :=
  rounds_halts hends _ a s hs (Nat.le_succ _)

end Halting

/-! ### The result -/

/-- The productions that read something if they give a value. -/
inductive Consuming : Parse Node → Prop
  | descend (goal : Goal) : Consuming (descend goal)
  | production (goal : Goal) : Consuming (production goal)
  | operand : Consuming operand
  | primary : Consuming primary
  | block : Consuming block

/-- Whether parsing gets on in a scope. -/
structure Progressing (scope : Scope) : Prop where
  /-- A statement that may fail gives a node and reads a token. -/
  recovers : ∀ s, kindAt scope.tokens s.position ≠ .endOfFile → ∃ n s',
    statementOrError scope s = .ok (some n) s' ∧ s.position < s'.position
  /-- A production that gives a node has read a token. -/
  consumes : ∀ m, Consuming m → ∀ s n s', s.position < scope.tokens.size →
    m scope s = .ok n s' → s.position < s'.position
  /-- No step goes back or passes the end. -/
  proceeds : ∀ {α : Type} (m : Parse α) [Composed m] s, s.position < scope.tokens.size →
    match m scope s with
    | .ok _ s' | .error _ s' => s.position ≤ s'.position ∧ s'.position < scope.tokens.size
  /-- Loops end by themselves, after at most as many rounds as tokens are left. -/
  loops : ∀ loop : Loop, loop.Runs loop.owner ∧ ∀ a s, s.position < scope.tokens.size →
    ∃ n ≤ scope.tokens.size - s.position,
      Halts loop.round scope n a s (repeatFrom a loop.round scope s)

/-- **Parsing always gets on**, whatever the tokens in front of the end, the limit and the levels that
are left. -/
theorem parsing_progresses {tokens : Array Token} (hends : EndsOnce tokens)
    (maxDepth levels : Nat) : Progressing ⟨tokens, level tokens maxDepth levels⟩ := by
  refine ⟨fun s hreal => ?_, fun m hm s n s' hs hrun => ?_, fun m _ s hs => ?_, fun loop => ?_⟩
  · obtain ⟨n, s', hrun, hlt, _⟩ := statementOrError_progresses hends hreal
    exact ⟨n, s', hrun, hlt⟩
  · cases hm with
    | descend goal => exact Parsing.consumes hends hs hrun
    | production goal => exact Parsing.consumes hends hs hrun
    | operand => exact Parsing.consumes hends hs hrun
    | primary => exact Parsing.consumes hends hs hrun
    | block => exact Parsing.consumes hends hs hrun
  · have hleads := Composed.leads (m := m) (level_proceeds hends maxDepth levels) s
    split
    · rename_i hrun
      rw [hrun] at hleads
      exact hleads hs
    · rename_i hrun
      rw [hrun] at hleads
      exact hleads.1 hs
  · exact ⟨loop.owner_runs, fun a s hs => repeatFrom_halts hends a s hs⟩

/-- The tokens of a closing brace and a name, with none open. -/
def strayBrace : Array Token :=
  #[⟨.punctuation .rightBrace, ⟨0, 1⟩⟩, ⟨.identifier "x", ⟨2, 3⟩⟩, ⟨.endOfFile, .empty 3⟩]

theorem parsing_progresses_stray_brace :
    EndsOnce strayBrace ∧ Progressing ⟨strayBrace, level strayBrace 0 0⟩ := by
  have hends : EndsOnce strayBrace := ⟨by decide, by decide⟩
  exact ⟨hends, parsing_progresses hends 0 0⟩

end ScriptTree.Parsing
