import Mathlib
import ScriptTree.Proofs.Grammar.Shape
import ScriptTree.Proofs.Parsing.Chaining
import ScriptTree.Proofs.Parsing.Resuming

/-! What a stretch of tokens becomes.

`Forest tokens p q problems nodes` says that the tokens from index `p` up to `q` have been made into
the nodes `nodes`, which stand next to each other, and that `problems` was reported on the way. It
does not say which production made what; it says what all of them have in common. Every token is a
leaf, or a string or regular expression taken apart, or half of a signed number, or skipped into
damage; an inner node covers what its children cover, and its children match the row of its kind and
fit each other; a mark that was made up stands behind the last token, and its report with it; and
every stretch of damage has a report that starts in it or right behind it.

All invariants of a parse are inductions over this relation. -/
namespace ScriptTree.Parsing

/-! ### Damage -/

/-- A token as a leaf of damage. -/
def skippedLeaf (token : Token) : Node := .leaf (symbolOf token.kind) token.span

/-- The damage over the tokens from `p` up to `m`. -/
def damageOver (tokens : Array Token) (p m : Nat) : Node :=
  .ofChildren .error ((tokens.extract p m).toList.map skippedLeaf)

/-- Whether a problem can be the one that damage over the tokens from `p` up to `m` stands for. -/
structure Explains (tokens : Array Token) (p m : Nat) (problem : Problem) : Prop where
  kind : problem.cause.kind = .grammar ∨ problem.cause.kind = .limit
  after : (spanAt tokens p).start ≤ problem.span.start
  before : problem.span.start ≤ (spanAt tokens m).start
  /-- The damage reaches from the start of a statement to where parsing resumes behind its failure. -/
  resumed : ∃ failed, Affords tokens 0 p 0 failed ∧
    resumeFrom tokens p failed (depthBetween tokens p failed) = m

/-! ### Forests -/

/-- The fields of the conditions that may be signed numbers. -/
def conditionFields : List Field := [.condition, .rangeStart, .rangeEnd]

inductive Forest (tokens : Array Token) : Nat → Nat → List Problem → List Node → Prop
  | nil {p} : Forest tokens p p [] []
  | token {p q ps ns symbol} (field : Option Field)
      (reads : readsAs (kindAt tokens p) symbol = true) (rest : Forest tokens (p + 1) q ps ns) :
      Forest tokens p q ps ({ Node.leaf symbol (spanAt tokens p) with field } :: ns)
  | signed {p q ps ns text field} (sign : isSign (kindAt tokens p) = true)
      (number : kindAt tokens (p + 1) = .number text) (digits : text.all Char.isDigit = true)
      (touching : (spanAt tokens p).stop = (spanAt tokens (p + 1)).start)
      (place : field ∈ conditionFields) (rest : Forest tokens (p + 2) q ps ns) :
      Forest tokens p q ps
        ((Node.leaf (.named .number) ((spanAt tokens p).merge (spanAt tokens (p + 1)))).withField
          field :: ns)
  | literal {p q ps ns n} (field : Option Field) (made : literalNode? (tokenAt tokens p) = some n)
      (rest : Forest tokens (p + 1) q ps ns) : Forest tokens p q ps ({ n with field } :: ns)
  | absent {p q ps ns mark found} (field : Option Field)
      (closing : mark = .semicolon ∨ mark = .rightBrace ∧ kindAt tokens p = .endOfFile)
      (rest : Forest tokens p q ps ns) :
      Forest tokens p q (⟨.missingMark mark found, .empty (stopBefore tokens p)⟩ :: ps)
        ({ Node.absent (.punctuation mark) (stopBefore tokens p) with field } :: ns)
  | inner {p m q ps ps' kind cs ns} (field : Option Field) (children : Forest tokens p m ps cs)
      (row : Matches kind.row cs) (nonempty : cs ≠ []) (orderly : Orderly tokens m kind cs)
      (rest : Forest tokens m q ps' ns) :
      Forest tokens p q (ps ++ ps') ({ Node.ofChildren kind cs with field } :: ns)
  | damage {p m q lost problem ps ns} (field : Option Field) (lt : p < m)
      (real : ∀ i, p ≤ i → i < m → kindAt tokens i ≠ .endOfFile)
      (explains : Explains tokens p m problem) (rest : Forest tokens m q ps ns) :
      Forest tokens p q (lost ++ problem :: ps) ({ damageOver tokens p m with field } :: ns)

namespace Forest
variable {tokens : Array Token}

theorem append {p m q : Nat} {ps ps' : List Problem} {a b : List Node} (h : Forest tokens p m ps a)
    (h' : Forest tokens m q ps' b) : Forest tokens p q (ps ++ ps') (a ++ b) := by
  induction h with
  | nil => exact h'
  | token field reads _ ih => exact .token field reads (ih h')
  | signed sign number digits touching place _ ih =>
    exact .signed sign number digits touching place (ih h')
  | literal field made _ ih => exact .literal field made (ih h')
  | absent field closing _ ih => exact .absent field closing (ih h')
  | inner field children row nonempty orderly _ _ ih =>
    rw [List.append_assoc]
    exact .inner field children row nonempty orderly (ih h')
  | damage field lt real explains _ ih =>
    rw [List.append_assoc, List.cons_append]
    exact .damage field lt real explains (ih h')

theorem le {p q : Nat} {ps : List Problem} {ns : List Node} (h : Forest tokens p q ps ns) :
    p ≤ q := by
  induction h with
  | nil => exact Nat.le_refl _
  | token | signed | literal => omega
  | absent _ _ _ ih => exact ih
  | inner _ _ _ _ _ _ ihc ih => exact ihc.trans ih
  | damage _ lt _ _ _ ih => exact lt.le.trans ih

/-- The first node stands for the first tokens. -/
theorem uncons {p q : Nat} {ps : List Problem} {n : Node} {ns : List Node}
    (h : Forest tokens p q ps (n :: ns)) : ∃ m front back, ps = front ++ back ∧
      Forest tokens p m front [n] ∧ Forest tokens m q back ns := by
  cases h with
  | token field reads rest => exact ⟨_, [], _, rfl, .token field reads .nil, rest⟩
  | signed sign number digits touching place rest =>
    exact ⟨_, [], _, rfl, .signed sign number digits touching place .nil, rest⟩
  | literal field made rest => exact ⟨_, [], _, rfl, .literal field made .nil, rest⟩
  | absent field closing rest => exact ⟨_, [_], _, rfl, .absent field closing .nil, rest⟩
  | @inner _ m _ front back _ _ _ field children row nonempty orderly rest =>
    refine ⟨m, front, back, rfl, ?_, rest⟩
    have := Forest.inner field children row nonempty orderly .nil
    rwa [List.append_nil] at this
  | @damage _ m _ lost problem ps ns field lt real explains rest =>
    exact ⟨m, lost ++ [problem], ps, by simp, .damage field lt real explains .nil, rest⟩

theorem split {p q : Nat} {ps : List Problem} {a b : List Node}
    (h : Forest tokens p q ps (a ++ b)) : ∃ m front back, ps = front ++ back ∧
      Forest tokens p m front a ∧ Forest tokens m q back b := by
  induction a generalizing p ps with
  | nil => exact ⟨p, [], ps, rfl, .nil, h⟩
  | cons n a ih =>
    obtain ⟨m, front, back, rfl, hn, hrest⟩ := uncons h
    obtain ⟨k, front', back', rfl, ha, hb⟩ := ih hrest
    exact ⟨k, front ++ front', back', (List.append_assoc ..).symm, hn.append ha, hb⟩

/-- A node that has not been labelled as a condition may get any field. -/
theorem relabel {p q : Nat} {ps : List Problem} {n : Node} (h : Forest tokens p q ps [n])
    (hfield : n.field = none) (field : Option Field) : Forest tokens p q ps [{ n with field }] := by
  cases h with
  | token _ reads rest => exact .token field reads rest
  | signed => cases hfield
  | literal _ made rest => exact (Forest.literal field made rest :)
  | absent _ closing rest => exact .absent field closing rest
  | inner _ children row nonempty orderly rest =>
    exact .inner field children row nonempty orderly rest
  | damage _ lt real explains rest => exact .damage field lt real explains rest

/-- The node of a kind over its children. -/
theorem wrap {p q : Nat} {ps : List Problem} {cs : List Node} {kind : NodeKind}
    (h : Forest tokens p q ps cs) (row : Matches kind.row cs) (nonempty : cs ≠ [])
    (orderly : Orderly tokens q kind cs) (field : Option Field) :
    Forest tokens p q ps [{ Node.ofChildren kind cs with field }] := by
  have := Forest.inner field h row nonempty orderly .nil
  rwa [List.append_nil] at this

end Forest

/-! ### What comes first -/

/-- A made-up mark never comes first among children. -/
theorem headRoles_not_closing (kind : NodeKind) : ∀ role ∈ headRoles kind.row,
    role.2 ≠ .punctuation .semicolon ∧ role.2 ≠ .punctuation .rightBrace := by
  cases kind <;> decide

/-- The symbols of what may begin with a semicolon. -/
def startable : List Symbol := [.punctuation .semicolon, .named .error, .named .program]

theorem headRoles_not_startable (kind : NodeKind) (h : kind ≠ .program) :
    ∀ role ∈ headRoles kind.row, role.2 ∉ startable := by
  revert h
  cases kind <;> decide

theorem startable_of_readsAs {symbol : Symbol} (h : readsAs (.punctuation .semicolon) symbol = true) :
    symbol ∈ startable := by
  obtain rfl : symbolOf (.punctuation .semicolon) = symbol := by
    cases symbol <;> simpa [readsAs, isWhole] using h
  decide

namespace Forest
variable {tokens : Array Token}

/-- The first child of a node is there. -/
theorem head_present {p q : Nat} {ps : List Problem} {kind : NodeKind} {c : Node} {cs : List Node}
    (h : Forest tokens p q ps (c :: cs)) (row : Matches kind.row (c :: cs)) : c.missing = false := by
  by_contra hmissing
  rw [Bool.not_eq_false] at hmissing
  have hrole := headRoles_not_closing kind _ row.head_role
  cases h with
  | absent _ closing =>
    rcases closing with rfl | ⟨rfl, _⟩
    · exact hrole.1 rfl
    · exact hrole.2 rfl
  | literal _ made =>
    rw [literalNode?] at made
    split at made <;> cases made <;> cases hmissing
  | _ => cases hmissing

/-- The first node reads a token, unless it was made up. -/
theorem first_lt {p q : Nat} {ps : List Problem} {n : Node} {ns : List Node}
    (h : Forest tokens p q ps (n :: ns)) (hpresent : n.missing = false) : p < q := by
  generalize hl : n :: ns = nodes at h
  induction h generalizing n ns with
  | nil => cases hl
  | token _ _ rest | literal _ _ rest => exact rest.le
  | signed _ _ _ _ _ rest => exact (Nat.lt_succ_self _).trans rest.le
  | absent =>
    cases hl
    cases hpresent
  | inner _ children row nonempty _ rest ihc _ =>
    obtain ⟨c, cs, rfl⟩ := List.exists_cons_of_ne_nil nonempty
    exact (ihc (children.head_present row) rfl).trans_le rest.le
  | damage _ lt _ _ rest => exact lt.trans_le rest.le

/-- Only damage begins with a semicolon, and a program may begin with damage. -/
theorem first_ne_semicolon {p q : Nat} {ps : List Problem} {n : Node} {ns : List Node}
    (h : Forest tokens p q ps (n :: ns)) (hpresent : n.missing = false)
    (hsymbol : n.symbol ∉ startable) : kindAt tokens p ≠ .punctuation .semicolon := by
  generalize hl : n :: ns = nodes at h
  induction h generalizing n ns with
  | nil => cases hl
  | token _ reads =>
    cases hl
    exact fun hkind => hsymbol (startable_of_readsAs (hkind ▸ reads))
  | signed sign =>
    intro hkind
    rw [hkind] at sign
    cases sign
  | literal _ made =>
    intro hkind
    rw [literalNode?, show (tokenAt tokens _).kind = _ from hkind] at made
    cases made
  | absent =>
    cases hl
    cases hpresent
  | @inner _ _ _ _ _ kind _ _ _ children row nonempty _ _ ihc _ =>
    cases hl
    obtain ⟨c, cs, rfl⟩ := List.exists_cons_of_ne_nil nonempty
    refine ihc (children.head_present row) (headRoles_not_startable kind ?_ _ row.head_role) rfl
    rintro rfl
    exact hsymbol (by simp [startable, Node.ofChildren])
  | damage =>
    cases hl
    exact absurd (by simp [startable, damageOver, Node.ofChildren]) hsymbol

end Forest

end ScriptTree.Parsing
