import Mathlib
import ScriptTree.Proofs.Completion.Sites
import ScriptTree.Proofs.Token.Nesting

/-! No mark is made up in template text.

A tree in which nothing is amiss but marks follows the machine that knows what is open in front of each
token (`Stacked`): behind a node, as much is open as in front of it, as its row has brackets in pairs
(`isBracketed`). What may have a mark at its end stands outside of template text, and so does the mark
(`Forest.level`). -/
namespace ScriptTree.Parsing

open Nesting (InTemplate)

/-! ### Stacks -/

/-- Whether `stack` tells what is open in front of each token. -/
def Stacked (tokens : Array Token) (stack : Nat → List Mode) : Prop :=
  ∀ i, kindAt tokens i ≠ .endOfFile →
    Nesting.step (stack i) (kindAt tokens i) = some (stack (i + 1))

/-- The marks at which something opens or closes. -/
def brackets : List Punctuation := [.backtick, .dollarBrace, .leftBrace, .rightBrace]

def bracketPairs : List (Punctuation × Punctuation) :=
  [(.leftBrace, .rightBrace), (.dollarBrace, .rightBrace), (.backtick, .backtick)]

/-- Whether nothing opens or closes at a symbol. -/
def isInert : Symbol → Bool
  | .punctuation mark => !brackets.contains mark
  | _ => true

theorem step_inert {stack stack' : List Mode} {kind : TokenKind}
    (hkind : ∀ mark ∈ brackets, kind ≠ .punctuation mark)
    (h : Nesting.step stack kind = some stack') : stack' = stack := by
  unfold Nesting.step at h
  split at h <;> cases h <;> first | rfl | exact absurd rfl (hkind _ (by decide))

theorem not_bracket_of_readsAs {kind : TokenKind} {symbol : Symbol} (h : readsAs kind symbol = true)
    (hinert : isInert symbol = true) : ∀ mark ∈ brackets, kind ≠ .punctuation mark := by
  rintro mark hmark rfl
  simp only [brackets, List.mem_cons, List.not_mem_nil, or_false] at hmark
  rcases hmark with rfl | rfl | rfl | rfl <;> cases symbol <;>
    simp_all [readsAs, isWhole, symbolOf, isInert, brackets]

/-- Behind a pair of brackets, as much is open as in front of it. -/
theorem step_pair {opening closing : Punctuation} (hpair : (opening, closing) ∈ bracketPairs)
    {stack inner : List Mode} (houtside : opening = .backtick → ¬InTemplate stack)
    (hopen : Nesting.step stack (.punctuation opening) = some inner) :
    (opening ≠ .backtick → ¬InTemplate inner) ∧
      ∀ outer, Nesting.step inner (.punctuation closing) = some outer → outer = stack := by
  simp only [bracketPairs, List.mem_cons, List.not_mem_nil, or_false, Prod.mk.injEq] at hpair
  rcases hpair with ⟨rfl, rfl⟩ | ⟨rfl, rfl⟩ | ⟨rfl, rfl⟩ <;>
    rcases stack with _ | ⟨_ | depth, stack⟩ <;> cases hopen <;>
    simp_all [Nesting.step, InTemplate]

/-! ### Rows with brackets -/

/-- The symbols of what stands in template text. -/
def templateParts : List Symbol :=
  [.named .stringFragment, .named .escapeSequence, .named .templateSubstitution]

def isInertItem (item : Item) : Bool := item.roles.all fun role => isInert role.2

/-- Whether a row is closed by the counterpart of what it begins with. -/
def isBracketed : List Item → Bool
  | [] => true
  | .one opening :: row => match row.getLast? with
    | some (.one closing) => row.dropLast.all isInertItem &&
      opening.all fun a => closing.all fun b => bracketPairs.any fun pair =>
        a.2 == .punctuation pair.1 && b.2 == .punctuation pair.2 &&
          (pair.1 != .backtick || row.dropLast.all (·.roles.all fun role =>
            templateParts.contains role.2))
    | _ => false
  | _ => false

/-- The items of a row from the first bracket on. -/
def bracketRow (kind : NodeKind) : List Item := kind.row.dropWhile isInertItem

theorem isBracketed_row (kind : NodeKind) : isBracketed (bracketRow kind) = true := by
  cases kind <;> decide +kernel

theorem matches_split {row row' : List Item} {cs : List Node} (h : Matches (row ++ row') cs) :
    ∃ front back, cs = front ++ back ∧ Matches row front ∧ Matches row' back := by
  induction row generalizing cs with
  | nil => exact ⟨[], cs, rfl, .nil, h⟩
  | cons item row ih =>
    cases h with
    | one hrole h =>
      obtain ⟨front, back, rfl, hfront, hback⟩ := ih h
      exact ⟨_ :: front, back, rfl, .one hrole hfront, hback⟩
    | absent h =>
      obtain ⟨front, back, rfl, hfront, hback⟩ := ih h
      exact ⟨front, back, rfl, .absent hfront, hback⟩
    | present hrole h =>
      obtain ⟨front, back, rfl, hfront, hback⟩ := ih h
      exact ⟨_ :: front, back, rfl, .present hrole hfront, hback⟩
    | @many _ _ here _ hroles h =>
      obtain ⟨front, back, rfl, hfront, hback⟩ := ih h
      exact ⟨here ++ front, back, (List.append_assoc ..).symm, .many hroles hfront, hback⟩

theorem inert_of_row {row : List Item} {cs : List Node} (h : Matches row cs)
    (hrow : ∀ item ∈ row, isInertItem item = true) : ∀ c ∈ cs, isInert c.symbol = true := fun c hc => by
  obtain ⟨item, hitem, hrole⟩ := h.role_mem c hc
  exact List.all_eq_true.mp (hrow item hitem) _ hrole

/-- The brackets among children, with what stands in front of them and between them. -/
structure Bracketed (cs : List Node) (opening closing : Punctuation) (fore inside : List Node)
    (o c : Node) : Prop where
  split : cs = fore ++ o :: (inside ++ [c])
  pair : (opening, closing) ∈ bracketPairs
  opens : o.symbol = .punctuation opening
  closes : c.symbol = .punctuation closing
  before : ∀ n ∈ fore, isInert n.symbol = true
  between : ∀ n ∈ inside, isInert n.symbol = true
  template : opening = .backtick → ∀ n ∈ inside, n.symbol ∈ templateParts

theorem bracketed_of_row {kind : NodeKind} {cs : List Node} (h : Matches kind.row cs) :
    (∀ n ∈ cs, isInert n.symbol = true) ∨
      ∃ opening closing fore inside o c, Bracketed cs opening closing fore inside o c := by
  have hrow := isBracketed_row kind
  rw [← List.takeWhile_append_dropWhile (p := isInertItem) (l := kind.row)] at h
  obtain ⟨fore, back, rfl, hfore, hback⟩ := matches_split h
  have hfore := inert_of_row hfore fun item hitem => List.mem_takeWhile_imp hitem
  rw [bracketRow] at hrow
  generalize kind.row.dropWhile isInertItem = row at hrow hback
  unfold isBracketed at hrow
  split at hrow
  · cases hback
    exact .inl (by simpa using hfore)
  · rename_i opening row
    split at hrow
    · rename_i closing hlast
      obtain ⟨middle, rfl⟩ := List.getLast?_eq_some_iff.mp hlast
      rw [List.dropLast_concat, Bool.and_eq_true, List.all_eq_true] at hrow
      obtain ⟨hmiddle, hpairs⟩ := hrow
      cases hback with
      | @one _ _ o _ ho hback =>
        obtain ⟨inside, final, rfl, hinside, hfinal⟩ := matches_split hback
        cases hfinal with
        | @one _ _ c _ hc hnil =>
          cases hnil
          have hpair := List.all_eq_true.mp (List.all_eq_true.mp hpairs _ ho) _ hc
          obtain ⟨pair, hmem, hpair⟩ := List.any_eq_true.mp hpair
          simp only [Bool.and_eq_true, Bool.or_eq_true, beq_iff_eq, bne_iff_ne] at hpair
          obtain ⟨⟨hopens, hcloses⟩, htemplate⟩ := hpair
          refine .inr ⟨pair.1, pair.2, fore, inside, o, c, rfl, hmem, hopens, hcloses, hfore,
            inert_of_row hinside hmiddle, fun hbacktick n hn => ?_⟩
          obtain ⟨item, hitem, hrole⟩ := hinside.role_mem n hn
          have hparts := htemplate.resolve_left (fun hne => hne hbacktick)
          simpa [Node.role] using
            List.all_eq_true.mp (List.all_eq_true.mp hparts item hitem) _ hrole
    · cases hrow
  · cases hrow

/-! ### Trees -/

/-- Behind the end, nothing is read. -/
theorem Forest.eq_of_end {tokens : Array Token} {p q : Nat} {ps : List Problem} {ns : List Node}
    (h : Forest tokens p q ps ns) (hend : kindAt tokens p = .endOfFile) : q = p := by
  induction h with
  | nil => rfl
  | token _ reads => exact absurd hend (real_of_readsAs reads)
  | signed sign => exact absurd hend (isSign_ne_endOfFile sign)
  | literal _ made =>
    rw [literalNode?, show (tokenAt tokens _).kind = _ from hend] at made
    cases made
  | absent _ _ _ ih => exact ih hend
  | inner _ _ _ _ _ _ ihc ih =>
    have heq := ihc hend
    subst heq
    exact ih hend
  | damage _ lt real => exact absurd hend (real _ le_rfl lt)

/-- Whether as much is open behind nodes as in front of them, and marks among them were made up outside
of template text. -/
structure Level (tokens : Array Token) (stack : Nat → List Mode) (p q : Nat) (ps : List Problem) :
    Prop where
  same : kindAt tokens q = .endOfFile ∨ stack q = stack p
  marks : ∀ problem ∈ ps, ∃ j mark found,
    problem = ⟨.missingMark mark found, .empty (stopBefore tokens j)⟩ ∧ j ≤ q ∧
      (kindAt tokens j = .endOfFile ∨ ¬InTemplate (stack j))

section Level
variable {tokens : Array Token} {stack : Nat → List Mode} {p m q : Nat} {ps ps' : List Problem}
  {ns : List Node}

theorem Level.of_clean (h : kindAt tokens q = .endOfFile ∨ stack q = stack p) :
    Level tokens stack p q [] := ⟨h, List.forall_mem_nil _⟩

/-- Marks in front of an index are in front of a later one. -/
theorem Level.marks_le (h : Level tokens stack p m ps) (hle : m ≤ q) : ∀ problem ∈ ps, ∃ j mark found,
    problem = ⟨.missingMark mark found, .empty (stopBefore tokens j)⟩ ∧ j ≤ q ∧
      (kindAt tokens j = .endOfFile ∨ ¬InTemplate (stack j)) := by
  intro problem hproblem
  obtain ⟨j, mark, found, heq, hj, houtside⟩ := h.marks problem hproblem
  exact ⟨j, mark, found, heq, hj.trans hle, houtside⟩

theorem Level.append (h : Level tokens stack p m ps) (rest : Forest tokens m q ps' ns)
    (h' : Level tokens stack m q ps') : Level tokens stack p q (ps ++ ps') := by
  refine ⟨?_, List.forall_mem_append.mpr ⟨h.marks_le rest.le, h'.marks⟩⟩
  rcases h.same with hend | hsame
  · rw [rest.eq_of_end hend]
    exact .inl hend
  · rw [← hsame]
    exact h'.same

/-- A node that opens or closes nothing. -/
theorem Stacked.token (h : Stacked tokens stack) {symbol : Symbol}
    (reads : readsAs (kindAt tokens p) symbol = true) (hinert : isInert symbol = true) :
    stack (p + 1) = stack p :=
  step_inert (not_bracket_of_readsAs reads hinert) (h p (real_of_readsAs reads))

theorem Stacked.other (h : Stacked tokens stack) (hreal : kindAt tokens p ≠ .endOfFile)
    (hkind : ∀ mark, kindAt tokens p ≠ .punctuation mark) : stack (p + 1) = stack p :=
  step_inert (fun mark _ => hkind mark) (h p hreal)

/-- A bracket is a token. -/
theorem Forest.bracket {n : Node} {mark : Punctuation} (h : Forest tokens p q ps [n])
    (hpresent : n.missing = false) (hsymbol : n.symbol = .punctuation mark) :
    kindAt tokens p = .punctuation mark ∧ q = p + 1 ∧ ps = [] := by
  have hreads := h.reads_of_symbol hpresent (by simp [hsymbol])
  rw [hsymbol] at hreads
  refine ⟨kind_of_readsAs hreads, ?_⟩
  cases h with
  | token _ _ rest =>
    cases rest
    exact ⟨rfl, rfl⟩
  | literal _ made rest =>
    rw [literalNode?] at made
    split at made <;> cases made <;> cases hsymbol
  | absent => cases hpresent
  | signed | inner | damage => cases hsymbol

/-- A bracket that was made up stands in front of the end. -/
theorem Forest.bracket_missing {n : Node} {mark : Punctuation} (h : Forest tokens p q ps [n])
    (hmissing : n.missing = true) (hsymbol : n.symbol = .punctuation mark)
    (hmark : mark ≠ .semicolon) : q = p ∧ kindAt tokens p = .endOfFile ∧ ∃ found,
      ps = [⟨.missingMark mark found, .empty (stopBefore tokens p)⟩] := by
  cases h with
  | absent _ closing rest =>
    cases rest
    cases hsymbol
    exact ⟨rfl, (closing.resolve_left hmark).2, _, rfl⟩
  | literal _ made =>
    rw [literalNode?] at made
    split at made <;> cases made <;> cases hmissing
  | token | signed | inner | damage => cases hmissing

/-- A substitution begins with its bracket. -/
theorem Bracketed.substitution {cs fore inside : List Node} {opening closing : Punctuation}
    {o c : Node} (h : Bracketed cs opening closing fore inside o c)
    (row : Matches NodeKind.templateSubstitution.row cs) : fore = [] ∧ opening = .dollarBrace := by
  obtain ⟨rfl, pair, opens, closes, before, between, template⟩ := h
  cases fore with
  | nil =>
    have hfirst := congrArg Prod.snd (List.mem_singleton.mp row.uncons.1)
    rw [Node.role, opens] at hfirst
    cases hfirst
    exact ⟨rfl, rfl⟩
  | cons f fore =>
    have hfirst : f.symbol = .punctuation .dollarBrace :=
      congrArg Prod.snd (List.mem_singleton.mp row.uncons.1)
    have hinert := before f (by simp)
    rw [hfirst] at hinert
    cases hinert

/-- A tree in which nothing is amiss but marks is level, unless it is a bracket. -/
theorem Forest.level (hstack : Stacked tokens stack) (h : Forest tokens p q ps ns)
    (only : OnlyMissing ps) (hinert : ∀ n ∈ ns, isInert n.symbol = true)
    (houtside : kindAt tokens p = .endOfFile ∨ ¬InTemplate (stack p) ∨
      ∀ n ∈ ns, n.symbol ∈ templateParts) : Level tokens stack p q ps := by
  induction hcount : Node.countAll ns using Nat.strong_induction_on generalizing p q ps ns with
  | _ count ih =>
  subst hcount
  cases ns with
  | nil =>
    cases h
    exact .of_clean (.inr rfl)
  | cons n ns =>
  by_cases hns : ns ≠ []
  · -- One node after the other.
    obtain ⟨m, front, back, rfl, hfirst, hrest⟩ := h.uncons
    obtain ⟨onlyFront, onlyBack⟩ := onlyMissing_append.mp only
    obtain ⟨hn, hinert⟩ := List.forall_mem_cons.mp hinert
    have hcount : Node.countAll [n] < Node.countAll (n :: ns) ∧
        Node.countAll ns < Node.countAll (n :: ns) := by
      obtain ⟨b, ns, rfl⟩ := List.exists_cons_of_ne_nil hns
      simp only [Node.countAll, Node.count_eq]
      omega
    have hlevel := ih _ hcount.1 hfirst onlyFront (by simpa using hn) (houtside.imp_right
      (·.imp_right fun hparts => by simpa using hparts n (by simp))) rfl
    refine hlevel.append hrest (ih _ hcount.2 hrest onlyBack hinert ?_ rfl)
    rcases hlevel.same with hend | hsame
    · exact .inl hend
    · rcases houtside with hend | houtside
      · exact .inl (hfirst.eq_of_end hend ▸ hend)
      · rw [hsame]
        exact .inr (houtside.imp_right fun hparts => (List.forall_mem_cons.mp hparts).2)
  obtain rfl : ns = [] := by simpa using hns
  obtain hn : isInert n.symbol = true := hinert n (by simp)
  cases h with
  | token _ reads rest =>
    cases rest
    exact .of_clean (.inr (hstack.token reads hn))
  | signed sign number _ _ _ rest =>
    cases rest
    refine .of_clean (.inr ?_)
    rw [hstack.other (p := p + 1) (number_real number) (by simp [number])]
    exact hstack.other (isSign_ne_endOfFile sign) fun mark hmark => by
      rw [hmark] at sign
      cases sign
  | literal _ made rest =>
    cases rest
    refine .of_clean (.inr (hstack.other ?_ ?_))
    · intro hend
      rw [literalNode?, show (tokenAt tokens _).kind = _ from hend] at made
      cases made
    · intro mark hmark
      rw [literalNode?, show (tokenAt tokens _).kind = _ from hmark] at made
      cases made
  | @absent _ _ _ _ mark found _ closing rest =>
    cases rest
    refine ⟨.inr rfl, List.forall_mem_singleton.mpr ⟨p, mark, found, rfl, le_rfl, houtside.imp_right ?_⟩⟩
    refine (·.resolve_right fun hparts => ?_)
    have := hparts _ (List.mem_singleton_self _)
    simp [Node.absent, templateParts] at this
  | damage _ _ _ explains => exact absurd only explains.not_onlyMissing
  | @inner _ m _ psc _ kind cs _ field children row nonempty orderly rest =>
    cases rest
    rw [List.append_nil] at only ⊢
    have hcount : Node.countAll cs < Node.countAll [({ Node.ofChildren kind cs with field } : Node)] := by
      simp only [Node.countAll, Node.count_eq, Node.ofChildren]
      omega
    replace houtside : ¬InTemplate (stack p) ∨ kind = .templateSubstitution := by
      rcases houtside with hend | houtside | hparts
      · have := children.eq_of_end hend
        obtain ⟨c, cs, rfl⟩ := List.exists_cons_of_ne_nil nonempty
        have := children.first_lt (children.head_present row)
        omega
      · exact .inl houtside
      · have hkind := hparts _ (List.mem_singleton_self _)
        simp only [Node.ofChildren, templateParts, List.mem_cons, List.not_mem_nil, or_false,
          Symbol.named.injEq] at hkind
        rcases hkind with rfl | rfl | rfl
        · cases row
          exact absurd rfl nonempty
        · cases row
          exact absurd rfl nonempty
        · exact .inr rfl
    rcases bracketed_of_row row with hplain | ⟨opening, closing, fore, inside, o, c, hrow⟩
    · refine ih _ hcount children only hplain (.inr (.inl (houtside.resolve_right ?_))) rfl
      rintro rfl
      obtain ⟨c, cs, rfl⟩ := List.exists_cons_of_ne_nil nonempty
      have hfirst : c.symbol = .punctuation .dollarBrace :=
        congrArg Prod.snd (List.mem_singleton.mp row.uncons.1)
      have hinert := hplain c (by simp)
      rw [hfirst] at hinert
      cases hinert
    · have hsubstitution : kind = .templateSubstitution → fore = [] ∧ opening = .dollarBrace := by
        rintro rfl
        exact hrow.substitution row
      obtain ⟨rfl, pair, opens, closes, before, between, template⟩ := hrow
      have hfew : Node.countAll fore + Node.countAll inside <
          Node.countAll
            [({ Node.ofChildren kind (fore ++ o :: (inside ++ [c])) with field } : Node)] := by
        refine lt_of_le_of_lt ?_ hcount
        simp only [Node.countAll_append, Node.countAll]
        omega
      obtain ⟨k, front, back, rfl, hfore, hback⟩ := children.split
      obtain ⟨onlyFront, only⟩ := onlyMissing_append.mp only
      obtain ⟨l, own, back, rfl, hopen, hback⟩ := hback.uncons
      obtain ⟨i, middle, last, rfl, hinside, hclose⟩ := hback.split
      obtain ⟨_, only⟩ := onlyMissing_append.mp only
      obtain ⟨onlyMiddle, _⟩ := onlyMissing_append.mp only
      -- The opening bracket, and what stands in front of it.
      have hforeLevel := ih _ (by omega) hfore onlyFront before (.inr (houtside.imp_right
        fun hkind => by simp [(hsubstitution hkind).1])) rfl
      have hopening : ∀ pair ∈ bracketPairs, Symbol.punctuation pair.1 ∉ closers := by decide
      have hpresent := hopen.present (List.mem_singleton_self o) (opens ▸ hopening _ pair)
      obtain ⟨hkind, rfl, rfl⟩ := hopen.bracket hpresent opens
      have hreal : kindAt tokens k ≠ .endOfFile := by simp [hkind]
      have hk := hforeLevel.same.resolve_left hreal
      have hstep := hstack k hreal
      rw [hkind, hk] at hstep
      obtain ⟨hcode, hpair⟩ := step_pair pair (fun hbacktick =>
        houtside.resolve_right fun hkind => by
          rw [(hsubstitution hkind).2] at hbacktick
          cases hbacktick) hstep
      -- What stands between the brackets.
      have hinsideLevel := ih _ (by omega) hinside onlyMiddle between (.inr (by
        by_cases hbacktick : opening = .backtick
        · exact .inr (template hbacktick)
        · exact .inl (hcode hbacktick))) rfl
      rw [List.nil_append]
      -- The closing bracket, there or made up in front of the end.
      cases hmissing : c.missing with
      | true =>
        have hclosing : ∀ pair ∈ bracketPairs, pair.2 ≠ .semicolon := by decide
        obtain ⟨rfl, hend, found, rfl⟩ := hclose.bracket_missing hmissing closes (hclosing _ pair)
        refine ⟨.inl hend, List.forall_mem_append.mpr ⟨hforeLevel.marks_le ?_,
          List.forall_mem_append.mpr ⟨hinsideLevel.marks,
            List.forall_mem_singleton.mpr ⟨_, closing, found, rfl, le_rfl, .inl hend⟩⟩⟩⟩
        exact (Nat.le_succ k).trans hinside.le
      | false =>
        obtain ⟨hkind', rfl, rfl⟩ := hclose.bracket hmissing closes
        have hreal' : kindAt tokens i ≠ .endOfFile := by simp [hkind']
        have hstep' := hstack i hreal'
        rw [hkind', hinsideLevel.same.resolve_left hreal'] at hstep'
        rw [List.append_nil]
        exact ⟨.inr (hpair _ hstep'),
          List.forall_mem_append.mpr ⟨hforeLevel.marks_le ((Nat.le_succ k).trans (hinside.le.trans
            (Nat.le_succ i))), hinsideLevel.marks_le (Nat.le_succ i)⟩⟩

end Level

end ScriptTree.Parsing
