import Mathlib
import ScriptTree.Proofs.Completion.Edges

/-! Where marks are made up.

A mark that is not there is the last child of a node whose other children have been read (`Site`). What
stands in front of it follows from their rows: no comma, no sign and no opening bracket
(`Site.before`), a brace only at the end (`Site.brace`), and not just a brace and a name
(`Site.apart`). -/
namespace ScriptTree.Parsing

/-! ### Neighbours -/

/-- Whether all roles that may follow each other in a row are related. -/
def allowsRow (R : Role → Role → Bool) : List Item → Bool
  | [] => true
  | .one roles :: row | .optional roles :: row =>
    roles.all (fun a => (headRoles row).all (R a)) && allowsRow R row
  | .many roles :: row =>
    roles.all (fun a => (roles ++ headRoles row).all (R a)) && allowsRow R row

theorem matches_chain {R : Role → Role → Bool} {row : List Item} {cs : List Node}
    (h : Matches row cs) (hrow : allowsRow R row = true) :
    cs.IsChain fun a b => R a.role b.role = true := by
  have hhead {roles : List Role} {row : List Item} {a : Node} {cs : List Node}
      (hall : roles.all (fun a => (headRoles row).all (R a)) = true) (ha : a.role ∈ roles)
      (h : Matches row cs) : ∀ b ∈ cs.head?, R a.role b.role = true := fun b hb => by
    obtain ⟨cs, rfl⟩ := List.head?_eq_some_iff.mp hb
    exact List.all_eq_true.mp (List.all_eq_true.mp hall _ ha) _ h.head_role
  induction h with
  | nil => exact .nil
  | one hrole h ih | present hrole h ih =>
    obtain ⟨hall, hrow⟩ := Bool.and_eq_true_iff.mp hrow
    exact List.isChain_cons.mpr ⟨hhead hall hrole h, ih hrow⟩
  | absent _ ih => exact ih (Bool.and_eq_true_iff.mp hrow).2
  | @many roles row here cs hroles h ih =>
    obtain ⟨hall, hrow⟩ := Bool.and_eq_true_iff.mp hrow
    have hboth {a : Node} (ha : a.role ∈ roles) {role : Role} (hr : role ∈ roles ++ headRoles row) :
        R a.role role = true :=
      List.all_eq_true.mp (List.all_eq_true.mp hall _ ha) _ hr
    induction here with
    | nil => exact ih hrow
    | cons a here ihhere =>
      obtain ⟨ha, hrest⟩ := List.forall_mem_cons.mp hroles
      refine List.isChain_cons.mpr ⟨fun b hb => hboth ha ?_, ihhere hrest⟩
      cases here with
      | nil =>
        obtain ⟨cs, rfl⟩ := List.head?_eq_some_iff.mp hb
        exact List.mem_append_right _ h.head_role
      | cons c here =>
        obtain rfl : c = b := Option.some.inj hb
        exact List.mem_append_left _ (hrest _ (List.mem_cons_self ..))

/-- Behind a closing mark no child follows. -/
theorem closers_last (kind : NodeKind) :
    allowsRow (fun a _ => !closers.contains a.2) kind.row = true := by
  cases kind <;> decide +kernel

section Split
variable {tokens : Array Token}

/-- Two nodes that are there cover two tokens at least. -/
theorem Forest.two_le {p q : Nat} {ps : List Problem} {a b : Node} {ns : List Node}
    (h : Forest tokens p q ps (a :: b :: ns)) (ha : a.missing = false) (hb : b.missing = false) :
    p + 2 ≤ q := by
  obtain ⟨m, _, _, _, hfirst, hrest⟩ := Forest.split (a := [a]) h
  have := hfirst.first_lt ha
  have := hrest.first_lt hb
  omega

end Split

/-! ### Sites -/

/-- A place in front of an index where a mark was made up. -/
inductive Site (tokens : Array Token) (j : Nat) (mark : Punctuation) : Prop
  | intro {p : Nat} {ps : List Problem} {kind : NodeKind} {init : List Node} {c : Node}
      (children : Forest tokens p j ps (init ++ [c])) (only : OnlyMissing ps)
      (row : Matches kind.row (init ++ [c])) (orderly : Orderly tokens j kind (init ++ [c]))
      (missing : c.missing = true) (symbol : c.symbol = .punctuation mark)

/-- The tokens behind which no mark is made up, as something has to follow. -/
def preludes : List TokenKind :=
  [.punctuation .comma, .punctuation .dot, .punctuation .questionDot, .punctuation .hash,
    .punctuation .leftBracket, .keyword .functionWord, .operator .plus, .operator .minus]

def preludeSymbols : List Symbol :=
  [.punctuation .comma, .punctuation .dot, .punctuation .questionDot, .named .optionalChain,
    .punctuation .hash, .punctuation .leftBracket, .keyword .functionWord, .operator .plus,
    .operator .minus]

theorem preludes_readAs : ReadAs preludes preludeSymbols := by
  intro kind hkind symbol h
  simp only [preludes, List.mem_cons, List.not_mem_nil, or_false] at hkind
  rcases hkind with rfl | rfl | rfl | rfl | rfl | rfl | rfl | rfl <;> cases symbol <;>
    simp_all [readsAs, isWhole, symbolOf, preludeSymbols]

theorem preludes_rows (kind : NodeKind) (hkind : .named kind ∉ preludeSymbols) :
    (∀ role ∈ lastRoles kind, role.2 ∉ preludeSymbols) ∧
      (mayLack kind = true → ∀ role ∈ lastButOneRoles kind, role.2 ∉ preludeSymbols) := by
  revert hkind
  cases kind <;> decide +kernel

theorem brace_readAs : ReadAs [.punctuation .leftBrace] [.punctuation .leftBrace] := by
  intro kind hkind symbol h
  obtain rfl := List.mem_singleton.mp hkind
  cases symbol <;> simp_all [readsAs, isWhole, symbolOf]

/-- Only a block has its opening brace in front of a mark that may be made up. -/
theorem brace_rows (kind : NodeKind) :
    (∀ role ∈ lastRoles kind, role.2 ∉ [Symbol.punctuation .leftBrace]) ∧
      (mayLack kind = true → kind ≠ .blockStatement →
        ∀ role ∈ lastButOneRoles kind, role.2 ∉ [Symbol.punctuation .leftBrace]) := by
  cases kind <;> decide +kernel

namespace Site
variable {tokens : Array Token} {j : Nat} {mark : Punctuation}

/-- The child in front of the mark. -/
theorem last (h : Site tokens j mark) : ∃ p ps kind init d, OnlyMissing ps ∧
    Forest tokens p j ps (init ++ [d]) ∧ d.missing = false ∧ mayLack kind = true ∧
      d.role ∈ lastButOneRoles kind ∧ (kind = .blockStatement → kindAt tokens j = .endOfFile) := by
  obtain ⟨children, only, row, orderly, missing, symbol⟩ := h
  rename_i p ps kind init c
  obtain ⟨hmay, init, d, rfl, hd, hrole⟩ := children.lacks row orderly missing
  obtain ⟨m, front, back, rfl, hfront, hback⟩ := children.split
  obtain rfl := hback.eq_of_missing (by simpa using missing)
  refine ⟨p, front, kind, init, d, (onlyMissing_append.mp only).1, hfront, hd, hmay, hrole, ?_⟩
  rintro rfl
  exact hback.ended (List.nil_append _).symm missing
    (congrArg Prod.snd (List.mem_singleton.mp (matches_last row)))

theorem closing (h : Site tokens j mark) :
    mark = .semicolon ∨ mark = .rightBrace ∧ kindAt tokens j = .endOfFile := by
  obtain ⟨children, only, row, orderly, missing, symbol⟩ := h
  have hcloser := children.closer_of_missing _ (by simp) missing
  rw [symbol] at hcloser
  simp only [closers, List.mem_cons, List.not_mem_nil, or_false, Symbol.punctuation.injEq] at hcloser
  refine hcloser.imp_right fun hbrace => ⟨hbrace, ?_⟩
  subst hbrace
  exact children.ended rfl missing symbol

theorem pos (h : Site tokens j mark) : 0 < j := by
  obtain ⟨p, ps, kind, init, d, _, hforest, hd, _⟩ := h.last
  obtain ⟨m, _, _, _, _, hlast⟩ := hforest.split
  exact Nat.zero_lt_of_lt (hlast.first_lt hd)

theorem before (h : Site tokens j mark) : kindAt tokens (j - 1) ∉ preludes := by
  obtain ⟨p, ps, kind, init, d, only, hforest, hd, hmay, hrole, _⟩ := h.last
  refine hforest.last_avoids preludes_readAs (by decide) (fun kind hkind => ?_) only rfl hd ?_
    (List.forall_mem_nil _)
  · exact ⟨(preludes_rows kind hkind).1, fun h _ => (preludes_rows kind hkind).2 h⟩
  · have hnone : ∀ kind, mayLack kind = true → ∀ role ∈ lastButOneRoles kind,
        role.2 ∉ preludeSymbols := by
      intro kind
      cases kind <;> decide +kernel
    exact hnone kind hmay _ hrole

theorem brace (h : Site tokens j mark) (hbrace : kindAt tokens (j - 1) = .punctuation .leftBrace) :
    kindAt tokens j = .endOfFile := by
  by_contra hreal
  obtain ⟨p, ps, kind, init, d, only, hforest, hd, hmay, hrole, hblock⟩ := h.last
  refine hforest.last_avoids brace_readAs (by decide) (fun kind _ => ?_) only rfl hd ?_
    (List.forall_mem_nil _) (List.mem_singleton.mpr hbrace)
  · refine ⟨(brace_rows kind).1, fun h hblock => (brace_rows kind).2 h ?_⟩
    exact fun hkind => hreal (hblock hkind)
  · exact (brace_rows kind).2 hmay (fun hkind => hreal (hblock hkind)) _ hrole

end Site

/-! ### A brace and a name -/

section Names
variable {tokens : Array Token} {p q : Nat} {ps : List Problem}

/-- A child that is no closing mark is there. -/
theorem Forest.present {ns : List Node} (h : Forest tokens p q ps ns) {n : Node} (hn : n ∈ ns)
    (hsymbol : n.symbol ∉ closers) : n.missing = false := by
  by_contra hmissing
  exact hsymbol (h.closer_of_missing n hn (Bool.eq_true_of_not_eq_false hmissing))

/-- A node under the symbol of a word, an operator or a mark is a token. -/
theorem Forest.reads_of_symbol {n : Node} {ns : List Node} (h : Forest tokens p q ps (n :: ns))
    (hpresent : n.missing = false) (hsymbol : ∀ kind, n.symbol ≠ .named kind) :
    readsAs (kindAt tokens p) n.symbol = true := by
  cases h with
  | token _ reads => exact reads
  | literal _ made =>
    rw [literalNode?] at made
    split at made <;> cases made <;> exact absurd rfl (hsymbol _)
  | absent => cases hpresent
  | signed | inner | damage => exact absurd rfl (hsymbol _)

/-- Symbols under which no name is found. -/
def isNameless : Symbol → Bool
  | .named kind => !nameKinds.contains kind
  | .keyword word => !word.isPrimitiveType
  | _ => true

theorem not_identifier_of_nameless {kind : TokenKind} {symbol : Symbol}
    (h : readsAs kind symbol = true) (hsymbol : isNameless symbol = true) :
    kind.isIdentifier = false := by
  cases kind with
  | identifier name =>
    cases symbol with
    | named kind =>
      rw [isNameless, show nameKinds.contains kind = true from h] at hsymbol
      cases hsymbol
    | keyword word =>
      rw [isNameless, show word.isPrimitiveType = true from h] at hsymbol
      cases hsymbol
    | operator | punctuation => cases h
  | keyword | operator | punctuation | number | string | regex | templateChars | templateEscape
  | endOfFile => rfl

/-- Children that cover one token only have no second child that has to be there. -/
theorem Forest.not_short {kind : NodeKind} {cs : List Node} (h : Forest tokens p q ps cs)
    (row : Matches kind.row cs) (hq : q ≤ p + 1) :
    ¬∃ c d ds, cs = c :: d :: ds ∧ d.symbol ∉ closers := by
  rintro ⟨c, d, ds, rfl, hd⟩
  have := h.two_le (h.head_present row) (h.present (by simp) hd)
  omega

/-- What begins with a word or mark does not begin with a name. -/
theorem Forest.not_identifier {c : Node} {cs : List Node} (h : Forest tokens p q ps (c :: cs))
    (hpresent : c.missing = false) (hsymbol : ∀ kind, c.symbol ≠ .named kind)
    (hnameless : isNameless c.symbol = true) : (kindAt tokens p).isIdentifier = false :=
  not_identifier_of_nameless (h.reads_of_symbol hpresent hsymbol) hnameless

/-- A call is longer than a token. -/
theorem Forest.call_not_short {n : Node} (h : Forest tokens p q ps [n]) (only : OnlyMissing ps)
    (hsymbol : n.symbol = .named .callExpression) : p + 2 ≤ q := by
  by_contra hshort
  cases h with
  | token _ reads =>
    obtain rfl : _ = Symbol.named .callExpression := hsymbol
    exact absurd (leafKind_of_readsAs reads) (by decide)
  | signed | absent => cases hsymbol
  | literal _ made =>
    rw [literalNode?] at made
    split at made <;> cases made <;> cases hsymbol
  | damage _ _ _ explains => exact absurd only explains.not_onlyMissing
  | inner field children row nonempty orderly rest =>
    cases hsymbol
    have hle := rest.le
    refine children.not_short row (by omega) ?_
    have hnone : ∀ role ∈ Role.labelled .optionalChain (Role.plain [.optionalChain]) ++
        Role.labelled .arguments (Role.plain [.argumentList]), role.2 ∉ closers := by decide
    cases row with
    | one _ row => cases row with
      | absent row => cases row with
        | one hrole => exact ⟨_, _, _, rfl, hnone _ (List.mem_append_right _ hrole)⟩
      | present hrole => exact ⟨_, _, _, rfl, hnone _ (List.mem_append_left _ hrole)⟩

/-- Kinds that begin with a word or a mark. -/
def wordyKinds : List NodeKind :=
  [.blockStatement, .breakStatement, .enumDeclaration, .functionDeclaration, .ifStatement,
    .matchExpression, .returnStatement, .matchCase, .matchElse]

/-- Kinds of nodes that do not consist of a name only. -/
def longKinds : List NodeKind :=
  wordyKinds ++ [.callStatement, .variableDeclaration, .assignmentExpression]

theorem wordyKinds_head : ∀ kind ∈ wordyKinds, ∀ role ∈ headRoles kind.row,
    (∀ kind, role.2 ≠ .named kind) ∧ isNameless role.2 = true := by
  simp [wordyKinds, NodeKind.row, headRoles, Role.mark, Role.word, isNameless,
    Keyword.isPrimitiveType]

theorem Forest.longKinds_not_name {kind : NodeKind} {cs : List Node} (h : Forest tokens p q ps cs)
    (only : OnlyMissing ps) (row : Matches kind.row cs) (nonempty : cs ≠ []) (hq : q ≤ p + 1)
    (hkind : kind ∈ longKinds) : (kindAt tokens p).isIdentifier = false := by
  have hshort := h.not_short row hq
  obtain ⟨c, cs, rfl⟩ := List.exists_cons_of_ne_nil nonempty
  rcases List.mem_append.mp hkind with hword | hother
  · have hhead := wordyKinds_head kind hword _ row.head_role
    exact h.not_identifier (h.head_present row) hhead.1 hhead.2
  simp only [List.mem_cons, List.not_mem_nil, or_false] at hother
  rcases hother with rfl | rfl | rfl
  · obtain ⟨m, _, _, rfl, hcall, htail⟩ := h.uncons
    have := hcall.call_not_short (onlyMissing_append.mp only).1
      (congrArg Prod.snd (List.mem_singleton.mp row.uncons.1))
    have := htail.le
    omega
  · refine absurd ?_ hshort
    have hnone : ∀ role ∈ Role.labelled .declaredName (Role.plain [.identifier]),
        role.2 ∉ closers := by decide
    cases row with
    | one _ row => cases row with
      | one hname => exact ⟨_, _, _, rfl, hnone _ hname⟩
  · refine absurd ?_ hshort
    have hnone : ∀ role ∈ Role.sign .assign, role.2 ∉ closers := by decide
    cases row with
    | one _ row => cases row with
      | one hsign => exact ⟨_, _, _, rfl, hnone _ hsign⟩

/-- A statement does not consist of a name only. -/
theorem Forest.statement_not_name {n : Node} {ns : List Node}
    (h : Forest tokens p q ps (n :: ns)) (only : OnlyMissing ps) (hrole : n.role ∈ Role.recovered)
    (hq : q ≤ p + 1) : (kindAt tokens p).isIdentifier = false := by
  have hkinds : ∀ role ∈ Role.recovered, role.1 = none ∧
      ∃ kind ∈ .error :: NodeKind.subtypes .statement, role.2 = .named kind := by decide
  obtain ⟨hfield, kind, hkind, hsymbol⟩ := hkinds _ hrole
  cases h with
  | token _ reads =>
    obtain rfl : _ = Symbol.named kind := hsymbol
    have hnone : ∀ kind ∈ .error :: NodeKind.subtypes .statement, kind ∉ leafKinds := by decide
    exact absurd (leafKind_of_readsAs reads) (hnone kind hkind)
  | signed => cases hfield
  | literal _ made =>
    rw [literalNode?] at made
    split at made <;> cases made <;> cases hsymbol <;> simp [NodeKind.subtypes] at hkind
  | absent => cases hsymbol
  | damage _ _ _ explains => exact absurd only explains.not_onlyMissing
  | inner field children row nonempty orderly rest =>
    cases hsymbol
    have hlong : ∀ kind ∈ NodeKind.subtypes .statement, kind ∈ longKinds := by decide
    refine children.longKinds_not_name (onlyMissing_append.mp only).1 row nonempty
      (rest.le.trans hq) ?_
    rcases List.mem_cons.mp hkind with rfl | hkind
    · cases row
      exact absurd rfl nonempty
    · exact hlong kind hkind

/-- Behind the opening brace of a block, there is a statement or the closing brace. -/
def followsBrace (kind : NodeKind) (a b : Role) : Bool :=
  a.2 != .punctuation .leftBrace || closedKinds.contains kind ||
    (Role.recovered ++ Role.mark .rightBrace).contains b

theorem followsBrace_row (kind : NodeKind) : allowsRow (followsBrace kind) kind.row = true := by
  cases kind <;> decide +kernel

theorem closedKinds_last : ∀ kind ∈ closedKinds, ∀ role ∈ lastRoles kind,
    role.2 = .punctuation .rightBrace := by
  decide

/-- What ends with a brace does not end with a name. -/
theorem Forest.not_identifier_of_brace {n : Node} {ns : List Node}
    (h : Forest tokens p q ps (n :: ns)) (hpresent : n.missing = false)
    (hsymbol : n.symbol = .punctuation .rightBrace) : (kindAt tokens p).isIdentifier = false :=
  h.not_identifier hpresent (by simp [hsymbol]) (by rw [hsymbol]; rfl)

/-- The last child that is there. -/
theorem Forest.exists_last {kind : NodeKind} {cs : List Node} (h : Forest tokens p q ps cs)
    (row : Matches kind.row cs) (orderly : Orderly tokens q kind cs) (nonempty : cs ≠ []) :
    ∃ init d back, cs = init ++ d :: back ∧ d.missing = false ∧ (∀ m ∈ back, m.missing = true) ∧
      (kind ∈ closedKinds → back = []) := by
  obtain ⟨init, c, rfl⟩ := (List.eq_nil_or_concat' cs).resolve_left nonempty
  cases hmissing : c.missing with
  | false => exact ⟨init, c, [], rfl, hmissing, by simp, fun _ => rfl⟩
  | true =>
    obtain ⟨_, init, d, rfl, hd, _⟩ := h.lacks row orderly hmissing
    refine ⟨init, d, [c], by simp, hd, by simpa using hmissing, fun hclosed => ?_⟩
    rw [orderly.closed hclosed c (by simp)] at hmissing
    cases hmissing

/-- Behind a brace and a name, more follows. -/
theorem Forest.not_brace_name {ns : List Node} (h : Forest tokens p q ps ns) (only : OnlyMissing ps)
    {n : Node} {back : List Node} (hns : ns = n :: back) (hpresent : n.missing = false)
    (hback : ∀ m ∈ back, m.missing = true) (hlong : p + 2 ≤ q)
    (hname : (kindAt tokens (q - 1)).isIdentifier = true) :
    kindAt tokens (q - 2) ≠ .punctuation .leftBrace := by
  induction hcount : n.count using Nat.strong_induction_on generalizing n back p q ps ns with
  | _ count ih =>
  subst hns hcount
  cases h with
  | token _ _ rest | literal _ _ rest =>
    have := rest.eq_of_missing hback
    omega
  | signed sign number _ _ _ rest =>
    obtain rfl := rest.eq_of_missing hback
    rw [show p + 2 - 1 = p + 1 from rfl, number] at hname
    cases hname
  | absent => cases hpresent
  | damage _ _ _ explains => exact absurd only explains.not_onlyMissing
  | @inner _ m _ _ _ kind cs _ field children row nonempty orderly rest =>
    obtain rfl := rest.eq_of_missing hback
    obtain ⟨only, _⟩ := onlyMissing_append.mp only
    obtain ⟨init, d, missing, rfl, hd, hmissing, hclosed⟩ :=
      children.exists_last row orderly nonempty
    obtain ⟨k, front, behind, rfl, hinit, hlast⟩ := children.split
    obtain ⟨onlyFront, onlyBehind⟩ := onlyMissing_append.mp only
    by_cases hrest : k + 2 ≤ m
    · refine ih d.count ?_ hlast onlyBehind rfl hd hmissing hrest hname rfl
      exact Node.count_lt_of_mem_children (by simp [Node.ofChildren])
    have hk := hlast.first_lt hd
    obtain rfl : m = k + 1 := by omega
    rw [Nat.add_sub_cancel] at hname
    -- The token in front of the last child is the last one of the child in front of it.
    obtain ⟨init, f, rfl⟩ := (List.eq_nil_or_concat' init).resolve_left (by
      rintro rfl
      cases hinit
      omega)
    have hpair {R : Role → Role → Bool} (hrow : allowsRow R kind.row = true) :
        R f.role d.role = true := by
      have hchain := matches_chain row hrow
      rw [List.append_assoc] at hchain
      exact (List.isChain_cons_cons.mp (List.isChain_append.mp hchain).2.1).1
    have hf : f.missing = false := hinit.present (by simp) (by
      simpa [Node.role] using hpair (closers_last kind))
    intro hbrace
    by_cases hsymbol : f.symbol = .punctuation .leftBrace
    · have hfollows := hpair (followsBrace_row kind)
      simp only [followsBrace, Node.role, hsymbol, bne_self_eq_false, Bool.false_or,
        Bool.or_eq_true, List.contains_iff_mem, List.mem_append] at hfollows
      have hshut (hsymbol : d.symbol = .punctuation .rightBrace) : False := by
        rw [hlast.not_identifier_of_brace hd hsymbol] at hname
        cases hname
      rcases hfollows with hkind | hrole | hrole
      · obtain rfl := hclosed hkind
        exact hshut (closedKinds_last kind hkind _ (matches_last row))
      · rw [hlast.statement_not_name onlyBehind hrole le_rfl] at hname
        cases hname
      · exact hshut (congrArg Prod.snd (List.mem_singleton.mp hrole))
    · refine hinit.last_avoids brace_readAs (by decide) (fun kind _ => ?_) onlyFront rfl hf
        (by simpa using hsymbol) (by simp) (List.mem_singleton.mpr hbrace)
      refine ⟨(brace_rows kind).1, fun h hblock => (brace_rows kind).2 h fun hkind => ?_⟩
      rw [hblock hkind] at hname
      cases hname

end Names

/-- In front of a mark there is not just a brace and a name. -/
theorem Site.apart {tokens : Array Token} {j : Nat} {mark : Punctuation} (h : Site tokens j mark)
    (hname : (kindAt tokens (j - 1)).isIdentifier = true) :
    kindAt tokens (j - 2) ≠ .punctuation .leftBrace := by
  obtain ⟨children, only, row, orderly, missing, symbol⟩ := h
  rename_i p ps kind init c
  have hlong : ∀ kind, mayLack kind = true → kind ∈ longKinds := by
    intro kind
    cases kind <;> decide
  have hlack := (children.lacks row orderly missing).1
  have nonempty : init ++ [c] ≠ [] := by simp
  by_cases hq : j ≤ p + 1
  · have hnone := children.longKinds_not_name only row nonempty hq (hlong kind hlack)
    obtain ⟨first, cs, hcs⟩ := List.exists_cons_of_ne_nil nonempty
    rw [hcs] at children row
    have := children.first_lt (children.head_present row)
    obtain rfl : j = p + 1 := by omega
    rw [Nat.add_sub_cancel, hnone] at hname
    cases hname
  · exact (children.wrap row nonempty orderly none).not_brace_name only rfl rfl
      (List.forall_mem_nil _) (by omega) hname

end ScriptTree.Parsing
