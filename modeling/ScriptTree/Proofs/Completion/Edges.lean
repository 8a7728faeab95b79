import Mathlib
import ScriptTree.Proofs.Parsing.Endings
import ScriptTree.Proofs.Parsing.Framing

/-! What nodes begin and end with.

Which tokens a node may begin with, and which it may end with, goes by its symbol and the rows of the
kinds. Where it is a question of a few tokens, it is enough to know the symbols under which they are
found (`risky` in what follows): a node under another symbol neither begins nor ends with them, as its
first and last children are not under such symbols either (`Forest.first_avoids`,
`Forest.last_avoids`). -/
namespace ScriptTree.Parsing

/-- Whether nothing was reported but marks that are not there. -/
def OnlyMissing (problems : List Problem) : Prop := ∀ p ∈ problems, p.cause.kind = .missing

theorem onlyMissing_append {ps ps' : List Problem} :
    OnlyMissing (ps ++ ps') ↔ OnlyMissing ps ∧ OnlyMissing ps' :=
  List.forall_mem_append

theorem Explains.not_onlyMissing {tokens : Array Token} {p m : Nat} {problem : Problem}
    (h : Explains tokens p m problem) {lost ps : List Problem} :
    ¬OnlyMissing (lost ++ problem :: ps) := fun hps => by
  have hmissing := hps problem (by simp)
  rcases h.kind with hkind | hkind <;> rw [hmissing] at hkind <;> cases hkind

/-! ### Forests and lists -/

section Lists
variable {tokens : Array Token} {p q : Nat} {ps : List Problem} {ns : List Node}

/-- Nodes that are all made up read nothing. -/
theorem Forest.eq_of_missing (h : Forest tokens p q ps ns) (hmissing : ∀ n ∈ ns, n.missing = true) :
    p = q := by
  induction h with
  | nil => rfl
  | absent _ _ _ ih => exact ih fun n hn => hmissing n (List.mem_cons_of_mem _ hn)
  | literal _ made =>
    have hmissing : _ = true := hmissing _ (List.mem_cons_self ..)
    rw [literalNode?] at made
    split at made <;> cases made <;> cases hmissing
  | token | signed | inner | damage => cases hmissing _ (List.mem_cons_self ..)

/-- Where the last node is a brace made up, the tokens are over. -/
theorem Forest.ended (h : Forest tokens p q ps ns) {front : List Node} {n : Node}
    (hns : ns = front ++ [n]) (hmissing : n.missing = true)
    (hsymbol : n.symbol = .punctuation .rightBrace) : kindAt tokens q = .endOfFile := by
  induction h generalizing front n with
  | nil => simp at hns
  | token _ _ _ ih | signed _ _ _ _ _ _ ih | inner _ _ _ _ _ _ _ ih | damage _ _ _ _ _ ih =>
    rcases List.cons_eq_append_iff.mp hns with ⟨_, hlast⟩ | ⟨front', _, hfront⟩
    · cases hlast
      cases hmissing
    · exact ih hfront hmissing hsymbol
  | literal _ made _ ih =>
    rcases List.cons_eq_append_iff.mp hns with ⟨_, hlast⟩ | ⟨front', _, hfront⟩
    · cases hlast
      rw [literalNode?] at made
      split at made <;> cases made <;> cases hmissing
    · exact ih hfront hmissing hsymbol
  | absent _ closing rest ih =>
    rcases List.cons_eq_append_iff.mp hns with ⟨_, hlast⟩ | ⟨front', _, hfront⟩
    · cases hlast
      cases rest
      rcases closing with rfl | ⟨_, hend⟩
      · cases hsymbol
      · exact hend
    · exact ih hfront hmissing hsymbol

/-- The kinds of leaves that tokens are read as. -/
def leafKinds : List NodeKind :=
  nameKinds ++ [.constMark, .letMark, .trueLiteral, .falseLiteral, .undefinedLiteral, .optionalChain,
    .number, .stringFragment, .escapeSequence]

theorem leafKind_of_readsAs {kind : TokenKind} {leafKind : NodeKind}
    (h : readsAs kind (.named leafKind) = true) : leafKind ∈ leafKinds := by
  cases kind with
  | identifier name => exact List.mem_append_left _ (by simpa [readsAs] using h)
  | keyword word => cases word <;> simp_all [readsAs, isWhole, symbolOf, leafKinds]
  | punctuation mark => cases mark <;> simp_all [readsAs, isWhole, symbolOf, leafKinds]
  | operator o => simp [readsAs, isWhole, symbolOf] at h
  | number text =>
    obtain rfl : NodeKind.number = leafKind := by simpa [readsAs, isWhole, symbolOf] using h
    decide
  | templateChars =>
    obtain rfl : NodeKind.stringFragment = leafKind := by simpa [readsAs, isWhole, symbolOf] using h
    decide
  | templateEscape =>
    obtain rfl : NodeKind.escapeSequence = leafKind := by simpa [readsAs, isWhole, symbolOf] using h
    decide
  | string | regex | endOfFile => cases h

/-- Only tokens that are taken apart have what stands between the slashes of a regular expression. -/
theorem Forest.symbol_ne_regexPattern (h : Forest tokens p q ps ns) :
    ∀ n ∈ ns, n.symbol ≠ .named .regexPattern := by
  induction h with
  | nil => simp
  | token _ reads _ ih =>
    refine List.forall_mem_cons.mpr ⟨?_, ih⟩
    rintro rfl
    exact absurd (leafKind_of_readsAs reads) (by decide)
  | signed _ _ _ _ _ _ ih => exact List.forall_mem_cons.mpr ⟨by rintro ⟨⟩, ih⟩
  | literal _ made _ ih =>
    refine List.forall_mem_cons.mpr ⟨?_, ih⟩
    rw [literalNode?] at made
    split at made <;> cases made <;> rintro ⟨⟩
  | absent _ _ _ ih => exact List.forall_mem_cons.mpr ⟨by rintro ⟨⟩, ih⟩
  | inner _ _ row nonempty _ _ _ ih =>
    refine List.forall_mem_cons.mpr ⟨?_, ih⟩
    rintro ⟨⟩
    cases row
    exact nonempty rfl
  | damage _ _ _ _ _ ih => exact List.forall_mem_cons.mpr ⟨by rintro ⟨⟩, ih⟩

end Lists

/-! ### First tokens -/

/-- Whether tokens are only read under some symbols. -/
def ReadAs (bad : List TokenKind) (risky : List Symbol) : Prop :=
  ∀ kind ∈ bad, ∀ symbol, readsAs kind symbol = true → symbol ∈ risky

/-- Whether a token is a word, an operator or a mark. -/
def isSymbolic : TokenKind → Bool
  | .keyword _ | .operator _ | .punctuation _ => true
  | _ => false

section First
variable {tokens : Array Token} {bad : List TokenKind} {risky : List Symbol}

theorem literal_not_symbolic {i : Nat} {n : Node} (made : literalNode? (tokenAt tokens i) = some n) :
    isSymbolic (kindAt tokens i) = false := by
  rw [literalNode?] at made
  split at made
  · rw [kindAt, ‹(tokenAt tokens i).kind = _›]
    rfl
  · rw [kindAt, ‹(tokenAt tokens i).kind = _›]
    rfl
  · cases made

theorem not_mem_of_not_symbolic (h : ∀ kind ∈ bad, isSymbolic kind = true) {kind : TokenKind}
    (hkind : isSymbolic kind = false) : kind ∉ bad := fun hmem =>
  Bool.false_ne_true (hkind.symm.trans (h _ hmem))

/-- A node under another symbol does not begin with one of the tokens. -/
theorem Forest.first_avoids (hread : ReadAs bad risky)
    (hbad : ∀ kind ∈ bad, isSymbolic kind = true ∧ isSign kind = false)
    (hrows : ∀ kind : NodeKind, kind ≠ .regex → .named kind ∉ risky →
      ∀ role ∈ headRoles kind.row, role.2 ∉ risky)
    {p q : Nat} {ps : List Problem} {n : Node} {ns : List Node}
    (h : Forest tokens p q ps (n :: ns)) (hps : OnlyMissing ps) (hpresent : n.missing = false)
    (hsymbol : n.symbol ∉ risky) : kindAt tokens p ∉ bad := by
  generalize hl : n :: ns = nodes at h
  induction h generalizing n ns with
  | nil => cases hl
  | token _ reads =>
    cases hl
    exact fun hmem => hsymbol (hread _ hmem _ reads)
  | signed sign =>
    intro hmem
    rw [(hbad _ hmem).2] at sign
    cases sign
  | literal _ made =>
    exact not_mem_of_not_symbolic (fun kind hmem => (hbad kind hmem).1) (literal_not_symbolic made)
  | absent =>
    cases hl
    cases hpresent
  | @inner p m q _ _ kind cs _ _ children row nonempty _ _ ihc _ =>
    cases hl
    obtain ⟨c, cs, rfl⟩ := List.exists_cons_of_ne_nil nonempty
    by_cases hregex : kind = .regex
    · -- The row of a regular expression has a child that no token is.
      subst hregex
      obtain ⟨d, ds, rfl⟩ : ∃ d ds, cs = d :: ds := by
        cases row with
        | one _ row => cases row with
          | one => exact ⟨_, _, rfl⟩
      have hpattern : d.symbol = .named .regexPattern :=
        congrArg Prod.snd (List.mem_singleton.mp row.uncons.2.uncons.1)
      exact absurd hpattern (children.symbol_ne_regexPattern d (by simp))
    · exact ihc (onlyMissing_append.mp hps).1 (children.head_present row)
        (hrows kind hregex hsymbol _ row.head_role) rfl
  | damage _ _ _ explains => exact absurd hps explains.not_onlyMissing

end First

/-! ### Last tokens -/

/-- The marks that may be made up. -/
def closers : List Symbol := [.punctuation .semicolon, .punctuation .rightBrace]

/-- The roles that a last child may have. -/
def lastRoles (kind : NodeKind) : List Role := headRoles kind.row.reverse

/-- The roles that the child in front of the last one may have. -/
def lastButOneRoles (kind : NodeKind) : List Role := headRoles kind.row.reverse.tail

/-- Whether the last child of a kind may be made up. -/
def mayLack (kind : NodeKind) : Bool :=
  !closedKinds.contains kind && (lastRoles kind).any fun role => closers.contains role.2

/-- Where the last child may be made up, it is always there. -/
theorem row_of_mayLack (kind : NodeKind) (h : mayLack kind = true) :
    kind.row.reverse = .one (lastRoles kind) :: kind.row.reverse.tail := by
  revert h
  cases kind <;> decide

theorem lastButOne_not_closer (kind : NodeKind) (h : mayLack kind = true) :
    ∀ role ∈ lastButOneRoles kind, role.2 ∉ closers := by
  revert h
  cases kind <;> decide

section Last
variable {tokens : Array Token} {p q : Nat} {ps : List Problem} {ns : List Node}

/-- What is made up is a closing mark. -/
theorem Forest.closer_of_missing (h : Forest tokens p q ps ns) :
    ∀ n ∈ ns, n.missing = true → n.symbol ∈ closers := fun n hn hmissing => by
  rcases h.missing_closing n hn hmissing with hsymbol | hsymbol <;> rw [hsymbol] <;> decide

/-- Only the last child is made up, and there is one in front of it. -/
theorem Forest.lacks {kind : NodeKind} {cs : List Node} {c : Node}
    (h : Forest tokens p q ps (cs ++ [c])) (row : Matches kind.row (cs ++ [c]))
    (orderly : Orderly tokens q kind (cs ++ [c])) (hmissing : c.missing = true) :
    mayLack kind = true ∧ ∃ init d, cs = init ++ [d] ∧ d.missing = false ∧
      d.role ∈ lastButOneRoles kind := by
  have hclosed : kind ∉ closedKinds := fun hclosed => by
    rw [orderly.closed hclosed c (by simp)] at hmissing
    cases hmissing
  have hcloser := h.closer_of_missing c (by simp) hmissing
  have hlack : mayLack kind = true := by
    rw [mayLack, Bool.and_eq_true]
    exact ⟨by simpa using hclosed, List.any_eq_true.mpr
      ⟨_, matches_last row, by simpa [Node.role] using hcloser⟩⟩
  refine ⟨hlack, ?_⟩
  rcases List.eq_nil_or_concat' cs with rfl | ⟨init, d, rfl⟩
  · rw [h.head_present row] at hmissing
    cases hmissing
  have hreverse := matches_reverse row
  rw [List.reverse_append, List.reverse_append, row_of_mayLack kind hlack] at hreverse
  have hrole : d.role ∈ lastButOneRoles kind := hreverse.uncons.2.head_role
  refine ⟨init, d, rfl, ?_, hrole⟩
  by_contra hd
  exact lastButOne_not_closer kind hlack _ hrole
    (h.closer_of_missing d (by simp) (Bool.eq_true_of_not_eq_false hd))

/-- A node under another symbol does not end with one of the tokens. Made-up marks behind it do not
count. -/
theorem Forest.last_avoids {bad : List TokenKind} {risky : List Symbol} (hread : ReadAs bad risky)
    (hbad : ∀ kind ∈ bad, isSymbolic kind = true)
    (hrows : ∀ kind : NodeKind, .named kind ∉ risky → (∀ role ∈ lastRoles kind, role.2 ∉ risky) ∧
      (mayLack kind = true → (kind = .blockStatement → kindAt tokens q = .endOfFile) →
        ∀ role ∈ lastButOneRoles kind, role.2 ∉ risky))
    (h : Forest tokens p q ps ns) (hps : OnlyMissing ps) {front back : List Node} {n : Node}
    (hns : ns = front ++ n :: back) (hpresent : n.missing = false) (hsymbol : n.symbol ∉ risky)
    (hback : ∀ m ∈ back, m.missing = true) : kindAt tokens (q - 1) ∉ bad := by
  induction h generalizing front n back with
  | nil => simp at hns
  | token _ reads rest ih =>
    rcases List.cons_eq_append_iff.mp hns with ⟨_, hlast⟩ | ⟨front', _, hfront⟩
    · cases hlast
      obtain rfl := rest.eq_of_missing hback
      exact fun hmem => hsymbol (hread _ hmem _ reads)
    · exact ih hrows hps hfront hpresent hsymbol hback
  | signed _ number _ _ _ rest ih =>
    rcases List.cons_eq_append_iff.mp hns with ⟨_, hlast⟩ | ⟨front', _, hfront⟩
    · cases hlast
      obtain rfl := rest.eq_of_missing hback
      refine not_mem_of_not_symbolic hbad ?_
      show isSymbolic (kindAt tokens (_ + 1)) = false
      rw [number]
      rfl
    · exact ih hrows hps hfront hpresent hsymbol hback
  | literal _ made rest ih =>
    rcases List.cons_eq_append_iff.mp hns with ⟨_, hlast⟩ | ⟨front', _, hfront⟩
    · cases hlast
      obtain rfl := rest.eq_of_missing hback
      exact not_mem_of_not_symbolic hbad (literal_not_symbolic made)
    · exact ih hrows hps hfront hpresent hsymbol hback
  | absent _ _ _ ih =>
    rcases List.cons_eq_append_iff.mp hns with ⟨_, hlast⟩ | ⟨front', _, hfront⟩
    · cases hlast
      cases hpresent
    · exact ih hrows (List.forall_mem_cons.mp hps).2 hfront hpresent hsymbol hback
  | @inner p m q _ _ kind cs ns field children row nonempty orderly rest ihc ih =>
    obtain ⟨hchildren, hrest⟩ := onlyMissing_append.mp hps
    rcases List.cons_eq_append_iff.mp hns with ⟨_, hlast⟩ | ⟨front', _, hfront⟩
    · cases hlast
      obtain rfl := rest.eq_of_missing hback
      obtain ⟨hlasts, hlack⟩ := hrows kind hsymbol
      obtain ⟨init, c, rfl⟩ := (List.eq_nil_or_concat' cs).resolve_left nonempty
      cases hmissing : c.missing with
      | false =>
        exact ihc hrows hchildren rfl hmissing (hlasts _ (matches_last row)) (List.forall_mem_nil _)
      | true =>
        obtain ⟨hmay, init, d, rfl, hd, hrole⟩ := children.lacks row orderly hmissing
        refine ihc hrows hchildren (by rw [List.append_assoc]; rfl) hd
          (hlack hmay (fun hblock => ?_) _ hrole) (by simpa using hmissing)
        subst hblock
        exact children.ended rfl hmissing
          (congrArg Prod.snd (List.mem_singleton.mp (matches_last row)))
    · exact ih hrows hrest hfront hpresent hsymbol hback
  | damage _ _ _ explains => exact absurd hps explains.not_onlyMissing

end Last

end ScriptTree.Parsing
