import Mathlib
import ScriptTree.Proofs.Completion.Sites

/-! What stands behind marks that were made up.

Only some nodes may have such a mark at their end (`openSymbols`). By the rows of the kinds, what stands
behind them does not begin with a colon or the sign of an assignment. It does not begin with a slash
that divides either, unless the mark ends an expression, which takes care of slashes itself
(`Forest.seams`). -/
namespace ScriptTree.Parsing

/-! ### Rows -/

/-- Tokens that no mark is made up in front of. -/
def continuations : List TokenKind := [.punctuation .colon, .operator .assign]

def continuationSymbols : List Symbol :=
  [.punctuation .colon, .operator .assign, .named .typeAscription]

def divisions : List TokenKind := [.operator .divide, .operator .divideAssign]

def divisionSymbols : List Symbol := [.operator .divide, .operator .divideAssign]

/-- The nodes that may have a mark at their end that was made up, though more tokens follow. -/
def openSymbols : List Symbol :=
  [.named .program, .named .breakStatement, .named .returnStatement, .named .callStatement,
    .named .variableDeclaration, .named .primaryExpression, .named .ifTernaryExpression,
    .named .matchCase, .named .matchElse, .named .spreadArgument, .named .arrowFunctionExpression,
    .named .assignmentExpression, .named .augmentedAssignmentExpression, .named .binaryExpression,
    .named .unaryExpression, .named .assignmentPattern, .named .pairPattern]

/-- Those among them that no operator follows in any row. -/
def looseSymbols : List Symbol :=
  [.named .program, .named .variableDeclaration, .named .breakStatement, .named .matchCase,
    .named .matchElse]

theorem continuations_readAs : ReadAs continuations continuationSymbols := by
  intro kind hkind symbol h
  simp only [continuations, List.mem_cons, List.not_mem_nil, or_false] at hkind
  rcases hkind with rfl | rfl <;> cases symbol <;>
    simp_all [readsAs, isWhole, symbolOf, continuationSymbols]

theorem divisions_readAs : ReadAs divisions divisionSymbols := by
  intro kind hkind symbol h
  simp only [divisions, List.mem_cons, List.not_mem_nil, or_false] at hkind
  rcases hkind with rfl | rfl <;> cases symbol <;>
    simp_all [readsAs, isWhole, symbolOf, divisionSymbols]

theorem continuations_rows (kind : NodeKind) (hkind : .named kind ∉ continuationSymbols) :
    ∀ role ∈ headRoles kind.row, role.2 ∉ continuationSymbols := by
  revert hkind
  cases kind <;> decide +kernel

theorem divisions_rows (kind : NodeKind) (hkind : kind ≠ .regex) :
    ∀ role ∈ headRoles kind.row, role.2 ∉ divisionSymbols := by
  revert hkind
  cases kind <;> decide +kernel

theorem open_of_last (kind : NodeKind) :
    ((∀ role ∈ lastRoles kind, role.2 ∈ openSymbols → .named kind ∈ openSymbols) ∧
      ∀ role ∈ lastRoles kind, role.2 ∈ looseSymbols → .named kind ∈ looseSymbols) := by
  cases kind <;> decide +kernel

theorem open_of_mayLack (kind : NodeKind) (h : mayLack kind = true) (hblock : kind ≠ .blockStatement) :
    .named kind ∈ openSymbols ∧ (kind ∈ settledKinds ∨ .named kind ∈ looseSymbols) := by
  revert h hblock
  cases kind <;> decide +kernel

/-- Whether what begins like the second of two nodes may stand behind marks at the end of the first. -/
def follows (a b : Role) : Bool :=
  !closers.contains a.2 && (!openSymbols.contains a.2 || !continuationSymbols.contains b.2) &&
    (!looseSymbols.contains a.2 || !divisionSymbols.contains b.2)

/-- In every row but that of objects, only what may stand behind marks does. -/
theorem follows_row (kind : NodeKind) : allowsRow (fun a b => follows a b ||
    kind == .objectLiteral && b.2 == .punctuation .colon && !closers.contains a.2) kind.row = true := by
  cases kind <;> decide +kernel

/-- Whether each of the nodes may stand behind marks at the end of the one in front. -/
def Seamly (ns : List Node) : Prop := ns.IsChain fun a b => follows a.role b.role = true

theorem Orderly.seamly {tokens : Array Token} {q : Nat} {kind : NodeKind} {cs : List Node}
    (h : Orderly tokens q kind cs) (row : Matches kind.row cs) : Seamly cs := by
  refine List.isChain_iff_forall_rel_of_append_cons_cons.mpr fun a b before after hcs => ?_
  have hpair := List.isChain_iff_forall_rel_of_append_cons_cons.mp
    (matches_chain row (follows_row kind)) hcs
  rcases Bool.or_eq_true_iff.mp hpair with hfollows | hcolon
  · exact hfollows
  · simp only [Bool.and_eq_true, beq_iff_eq, Node.role] at hcolon
    obtain ⟨⟨rfl, hb⟩, ha⟩ := hcolon
    have hkey := List.isChain_iff_forall_rel_of_append_cons_cons.mp (h.keyed rfl) hcs hb
    have hkeys : ∀ item ∈ NodeKind.objectLiteral.row, ∀ role ∈ item.roles, role.1 = some .key →
        role.2 ∉ openSymbols ∧ role.2 ∉ looseSymbols := by decide
    obtain ⟨item, hitem, hrole⟩ := row.role_mem a (by rw [hcs]; simp)
    have := hkeys item hitem _ hrole hkey
    simp_all [follows, Node.role]

theorem seamly_of_recovered {ns : List Node} (h : ∀ n ∈ ns, n.role ∈ Role.recovered) : Seamly ns := by
  have hall : ∀ a ∈ Role.recovered, ∀ b ∈ Role.recovered, follows a b = true := by decide +kernel
  refine List.isChain_iff_forall_rel_of_append_cons_cons.mpr fun a b before after hns => ?_
  exact hall _ (h a (by rw [hns]; simp)) _ (h b (by rw [hns]; simp))

/-! ### Marks and what follows -/

/-- A place in front of an index where a mark was made up, and what follows it. -/
structure Seam (tokens : Array Token) (j : Nat) (mark : Punctuation) : Prop where
  site : Site tokens j mark
  next : kindAt tokens j ∉ continuations
  settled : Settled tokens j

/-- A node that ends in front of an index, with a mark at its end that was made up. -/
inductive Trails (tokens : Array Token) (q : Nat) (mark : Punctuation) (n : Node) : Prop
  | absent (missing : n.missing = true) (site : n.symbol = .punctuation mark ∨ Site tokens q mark)
  | below (site : Site tokens q mark) (symbol : n.symbol ∈ openSymbols)
      (settled : Settled tokens q ∨ n.symbol ∈ looseSymbols)

/-- A mark made up in front of an index up to `q`, where nodes end; if it stands there, it ends the last
node. -/
inductive MadeUp (tokens : Array Token) (q : Nat) (ns : List Node) (j : Nat) (mark : Punctuation) :
    Prop
  | within (le : j ≤ q) (seam : Seam tokens j mark)
  | last {front : List Node} {n : Node} (eq : j = q) (split : ns = front ++ [n])
      (trails : Trails tokens q mark n)

section MadeUp
variable {tokens : Array Token} {p q m j : Nat} {ps : List Problem} {mark : Punctuation}
  {n : Node} {ns : List Node}

theorem follows_iff {a b : Role} : follows a b = true ↔ a.2 ∉ closers ∧
    (a.2 ∉ openSymbols ∨ b.2 ∉ continuationSymbols) ∧ (a.2 ∉ looseSymbols ∨ b.2 ∉ divisionSymbols) := by
  simp [follows, and_assoc]

theorem Seam.of_end (h : Site tokens j mark) (hend : kindAt tokens j = .endOfFile) :
    Seam tokens j mark :=
  ⟨h, by rw [hend]; decide, fun hdivision => by rw [hend] at hdivision; cases hdivision⟩

theorem MadeUp.cons (h : MadeUp tokens q ns j mark) (n : Node) : MadeUp tokens q (n :: ns) j mark := by
  cases h with
  | within le seam => exact .within le seam
  | last eq split trails =>
    exact .last eq ((congrArg (n :: ·) split).trans List.cons_append.symm) trails

/-- Behind a node with a mark at its end there is another mark, or what may follow. -/
theorem Trails.madeUp (h : Trails tokens m mark n) (rest : Forest tokens m q ps ns)
    (only : OnlyMissing ps) (seamly : Seamly (n :: ns)) (hn : n.missing = true → n.symbol ∈ closers) :
    MadeUp tokens q (n :: ns) m mark := by
  cases ns with
  | nil =>
    cases rest
    exact .last rfl (List.nil_append _).symm h
  | cons b ns =>
    obtain ⟨hfollows, hbelow⟩ := List.isChain_cons_cons.mp seamly
    obtain ⟨hcloser, hopen, hloose⟩ := follows_iff.mp hfollows
    cases h with
    | absent missing => exact absurd (hn missing) hcloser
    | below site symbol settled =>
      cases hb : b.missing with
      | true =>
        -- Behind a mark that is made up, too, no node follows.
        have hsymbol := rest.closer_of_missing b (by simp) hb
        obtain rfl : ns = [] := by
          cases ns with
          | nil => rfl
          | cons c ns =>
            have hfollows := (List.isChain_cons_cons.mp hbelow).1
            simp [follows, Node.role, hsymbol] at hfollows
        obtain rfl := rest.eq_of_missing (by simpa using hb)
        exact .last rfl (List.singleton_append).symm (.absent hb (.inr site))
      | false =>
        have hnext := rest.first_avoids continuations_readAs (by decide)
          (fun kind _ h => continuations_rows kind h) only hb (hopen.resolve_left (· symbol))
        refine .within rest.le ⟨site, hnext, settled.elim id fun hsymbol hdivision => ?_⟩
        have hnone := rest.first_avoids divisions_readAs (by decide)
          (fun kind hkind _ => divisions_rows kind hkind) only hb (hloose.resolve_left (· hsymbol))
        refine absurd ?_ hnone
        unfold isDivision at hdivision
        split at hdivision
        · simp [divisions, *]
        · simp [divisions, *]
        · cases hdivision

/-- The last child of a node passes the mark at its end on to the node. -/
theorem Trails.above {kind : NodeKind} {front : List Node} (h : Trails tokens q mark n)
    (children : Forest tokens p q ps (front ++ [n])) (only : OnlyMissing ps)
    (row : Matches kind.row (front ++ [n])) (orderly : Orderly tokens q kind (front ++ [n]))
    (field : Option Field) : Seam tokens q mark ∨
      Trails tokens q mark { Node.ofChildren kind (front ++ [n]) with field } := by
  have hlast := matches_last row
  cases h with
  | below site symbol settled =>
    have hopen := open_of_last kind
    refine .inr (.below site (hopen.1 _ hlast symbol) (settled.imp_right (hopen.2 _ hlast)))
  | absent missing site =>
    have hsite : Site tokens q mark :=
      site.elim (fun symbol => ⟨children, only, row, orderly, missing, symbol⟩) id
    have hlack := (children.lacks row orderly missing).1
    by_cases hblock : kind = .blockStatement
    · subst hblock
      exact .inl (.of_end hsite (children.ended rfl missing
        (congrArg Prod.snd (List.mem_singleton.mp hlast))))
    · obtain ⟨hopen, hends⟩ := open_of_mayLack kind hlack hblock
      exact .inr (.below hsite hopen (hends.imp_left orderly.settled))

/-- Marks are made up only where they end a node, and behind that there is what may follow. -/
theorem Forest.madeUp (h : Forest tokens p q ps ns) (only : OnlyMissing ps) (seamly : Seamly ns) :
    ∀ problem ∈ ps, ∃ j mark found,
      problem = ⟨.missingMark mark found, .empty (stopBefore tokens j)⟩ ∧
        MadeUp tokens q ns j mark := by
  induction h with
  | nil => exact List.forall_mem_nil _
  | token _ _ _ ih | signed _ _ _ _ _ _ ih | literal _ _ _ ih =>
    intro problem hproblem
    obtain ⟨j, mark, found, heq, hmade⟩ := ih only seamly.tail problem hproblem
    exact ⟨j, mark, found, heq, hmade.cons _⟩
  | damage _ _ _ explains => exact absurd only explains.not_onlyMissing
  | @absent p q ps ns mark found field closing rest ih =>
    obtain ⟨_, only⟩ := List.forall_mem_cons.mp only
    refine List.forall_mem_cons.mpr ⟨⟨p, mark, found, rfl, ?_⟩, fun problem hproblem => ?_⟩
    · refine Trails.madeUp (.absent rfl (.inl rfl)) rest only seamly fun _ => ?_
      rcases closing with rfl | ⟨rfl, _⟩
      · show Symbol.punctuation .semicolon ∈ closers
        decide
      · show Symbol.punctuation .rightBrace ∈ closers
        decide
    · obtain ⟨j, mark, found, heq, hmade⟩ := ih only seamly.tail problem hproblem
      exact ⟨j, mark, found, heq, hmade.cons _⟩
  | @inner p m q ps ps' kind cs ns field children row nonempty orderly rest ihc ih =>
    obtain ⟨onlyChildren, only⟩ := onlyMissing_append.mp only
    refine List.forall_mem_append.mpr ⟨fun problem hproblem => ?_, fun problem hproblem => ?_⟩
    · obtain ⟨j, mark, found, heq, hmade⟩ := ihc onlyChildren (orderly.seamly row) problem hproblem
      refine ⟨j, mark, found, heq, ?_⟩
      cases hmade with
      | within le seam => exact .within (le.trans rest.le) seam
      | last eq split trails =>
        subst eq split
        rcases trails.above children onlyChildren row orderly field with seam | htrails
        · exact .within rest.le seam
        · exact htrails.madeUp rest only seamly nofun
    · obtain ⟨j, mark, found, heq, hmade⟩ := ih only seamly.tail problem hproblem
      exact ⟨j, mark, found, heq, hmade.cons _⟩

/-- Behind every mark made up among statements up to the end, there is what may follow it. -/
theorem Forest.seams (h : Forest tokens p q ps ns) (only : OnlyMissing ps)
    (hroles : ∀ n ∈ ns, n.role ∈ Role.recovered) (hend : kindAt tokens q = .endOfFile) :
    ∀ problem ∈ ps, ∃ j mark found,
      problem = ⟨.missingMark mark found, .empty (stopBefore tokens j)⟩ ∧ j ≤ q ∧
        Seam tokens j mark := by
  intro problem hproblem
  obtain ⟨j, mark, found, heq, hmade⟩ :=
    h.madeUp only (seamly_of_recovered hroles) problem hproblem
  refine ⟨j, mark, found, heq, ?_⟩
  cases hmade with
  | within le seam => exact ⟨le, seam⟩
  | last eq split trails =>
    subst eq split
    refine ⟨le_rfl, ?_⟩
    cases trails with
    | below site => exact .of_end site hend
    | absent missing =>
      have hnone : ∀ role ∈ Role.recovered, role.2 ∉ closers := by decide
      exact absurd (h.closer_of_missing _ (by simp) missing) (hnone _ (hroles _ (by simp)))

end MadeUp

end ScriptTree.Parsing
