import Mathlib
import ScriptTree.Proofs.Parsing.Statements

/-! What statements end with.

A block ends with its closing brace, and some other statements end with a block or a brace of their own.
None of these ends with a semicolon, unless it is made up (`Gives.last_ne_semicolon`). -/
namespace ScriptTree.Parsing

/-- The statements that do not end with a semicolon. -/
def bracedKinds : List NodeKind :=
  [.blockStatement, .ifStatement, .matchExpression, .enumDeclaration, .functionDeclaration]

/-- What such statements end with, if nothing is made up. -/
def bracedSymbols : List Symbol :=
  .punctuation .rightBrace :: .keyword .elseWord :: bracedKinds.map .named

theorem last_bracedKinds : ∀ kind ∈ bracedKinds, ∀ role ∈ headRoles kind.row.reverse,
    role.2 ∈ bracedSymbols := by
  decide

/-! ### Rows from the end -/

theorem matches_append {row row' : List Item} {cs cs' : List Node} (h : Matches row cs)
    (h' : Matches row' cs') : Matches (row ++ row') (cs ++ cs') := by
  induction h with
  | nil => exact h'
  | one hrole _ ih => exact .one hrole ih
  | absent _ ih => exact .absent ih
  | present hrole _ ih => exact .present hrole ih
  | many hroles _ ih =>
    rw [List.append_assoc]
    exact .many hroles ih

theorem matches_reverse {row : List Item} {cs : List Node} (h : Matches row cs) :
    Matches row.reverse cs.reverse := by
  induction h with
  | nil => exact .nil
  | one hrole _ ih =>
    rw [List.reverse_cons, List.reverse_cons]
    exact matches_append ih (.one hrole .nil)
  | @absent roles row cs _ ih =>
    rw [List.reverse_cons, ← List.append_nil cs.reverse]
    exact matches_append ih (.absent .nil)
  | present hrole _ ih =>
    rw [List.reverse_cons, List.reverse_cons]
    exact matches_append ih (.present hrole .nil)
  | @many roles row here cs hroles _ ih =>
    rw [List.reverse_cons, List.reverse_append, ← List.append_nil here.reverse]
    exact matches_append ih (.many (fun c hc => hroles c (List.mem_reverse.mp hc)) .nil)

theorem matches_last {row : List Item} {cs : List Node} {c : Node} (h : Matches row (cs ++ [c])) :
    c.role ∈ headRoles row.reverse := by
  have hreverse := matches_reverse h
  rw [List.reverse_append] at hreverse
  exact hreverse.head_role

/-! ### Last tokens -/

section Tokens
variable {tokens : Array Token}

theorem readsAs_braced {kind : TokenKind} {symbol : Symbol} (h : readsAs kind symbol = true)
    (hsymbol : symbol ∈ bracedSymbols) : kind ≠ .punctuation .semicolon := by
  rintro rfl
  have hnone : ∀ symbol ∈ bracedSymbols, readsAs (.punctuation .semicolon) symbol = false := by decide
  rw [hnone symbol hsymbol] at h
  cases h

/-- What ends with a brace does not end with a semicolon. -/
theorem Forest.last_ne_semicolon {p q : Nat} {ps : List Problem} {ns : List Node}
    (h : Forest tokens p q ps ns) (hps : ps = []) {front : List Node} {n : Node}
    (hns : ns = front ++ [n]) (hsymbol : n.symbol ∈ bracedSymbols) :
    kindAt tokens (q - 1) ≠ .punctuation .semicolon := by
  induction h generalizing front n with
  | nil => simp at hns
  | token field reads rest ih =>
    rcases List.cons_eq_append_iff.mp hns with ⟨_, hlast⟩ | ⟨front', _, hfront⟩
    · cases hlast
      cases rest
      exact readsAs_braced reads hsymbol
    · exact ih hps hfront hsymbol
  | signed sign number _ _ _ _ ih =>
    rcases List.cons_eq_append_iff.mp hns with ⟨_, hlast⟩ | ⟨front', _, hfront⟩
    · cases hlast
      simp [bracedSymbols, bracedKinds, Node.leaf, Node.withField] at hsymbol
    · exact ih hps hfront hsymbol
  | literal field made _ ih =>
    rcases List.cons_eq_append_iff.mp hns with ⟨_, hlast⟩ | ⟨front', _, hfront⟩
    · cases hlast
      rw [literalNode?] at made
      split at made <;> cases made <;>
        simp [bracedSymbols, bracedKinds, Node.ofChildren] at hsymbol
    · exact ih hps hfront hsymbol
  | absent => cases hps
  | @inner p m q _ _ kind cs ns field children row nonempty _ rest ihc ih =>
    obtain ⟨hchildren, hrest⟩ := List.append_eq_nil_iff.mp hps
    rcases List.cons_eq_append_iff.mp hns with ⟨_, hlast⟩ | ⟨front', _, hfront⟩
    · cases hlast
      cases rest
      have hkind : kind ∈ bracedKinds := by simpa [bracedSymbols, Node.ofChildren] using hsymbol
      obtain ⟨init, c, rfl⟩ := (List.eq_nil_or_concat' cs).resolve_left nonempty
      exact ihc hchildren rfl (last_bracedKinds kind hkind _ (matches_last row))
    · exact ih hrest hfront hsymbol
  | damage => simp at hps

/-- A block, or what ends with one or with a brace of its own, does not end with a semicolon. -/
theorem Gives.last_ne_semicolon {kind : NodeKind} {s s' : State} {n : Node}
    (h : Gives tokens (Role.plain [kind]) s n s') (hkind : kind ∈ bracedKinds)
    (hclean : s'.problems = #[]) : kindAt tokens (s'.position - 1) ≠ .punctuation .semicolon := by
  obtain ⟨ps, hps, hforest⟩ := h.plain
  have hnone : ps = [] := by
    rw [hclean] at hps
    exact (List.append_eq_nil_iff.mp hps.symm).2
  refine hforest.last_ne_semicolon hnone (List.nil_append _).symm ?_
  obtain ⟨kind', hmem, hrole, _⟩ := h.kind_mem
  obtain rfl := List.mem_singleton.mp hmem
  rw [show n.symbol = .named kind' from congrArg Prod.snd hrole]
  exact List.mem_cons_of_mem _ (List.mem_cons_of_mem _ (List.mem_map_of_mem hkind))

end Tokens

end ScriptTree.Parsing
