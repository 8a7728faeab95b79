import Mathlib
import ScriptTree.Proofs.Parsing.Balance
import ScriptTree.Proofs.Parsing.Grouping

/-! Brackets of one shape.

Brackets are looked for by number and parsed by shape. Where nothing was reported both come to the same:
the tokens run through a machine that knows which brackets are awaited (`Pairing.step`), since the
brackets among the children of a node, if there are any, are two that fit each other (`Bracketing`). And
the bracket that is found behind another (`matchingClose?`) is the other one of its node
(`Forest.pairs`). -/
namespace ScriptTree

open Parsing

/-- The mark that closes what a mark opens. -/
def Punctuation.closer? : Punctuation → Option Punctuation
  | .leftParen => some .rightParen
  | .leftBracket => some .rightBracket
  | .leftBrace | .dollarBrace => some .rightBrace
  | _ => none

namespace Pairing

/-! ### The machine -/

/-- The marks that are awaited behind a token, innermost first; none if the token closes another. -/
def step (awaited : List Punctuation) : TokenKind → Option (List Punctuation)
  | .punctuation mark =>
    match bracket? (.punctuation mark) with
    | some .opening => some (mark.closer?.toList ++ awaited)
    | some .closing => if awaited.head? = some mark then some awaited.tail else none
    | none => some awaited
  | _ => some awaited

def run (awaited : List Punctuation) (kinds : List TokenKind) : Option (List Punctuation) :=
  kinds.foldlM step awaited

theorem run_append (awaited : List Punctuation) (a b : List TokenKind) :
    run awaited (a ++ b) = (run awaited a).bind (run · b) :=
  List.foldlM_append

theorem run_cons (awaited : List Punctuation) (kind : TokenKind) (kinds : List TokenKind) :
    run awaited (kind :: kinds) = (step awaited kind).bind (run · kinds) :=
  List.foldlM_cons

theorem step_plain {kind : TokenKind} (h : bracket? kind = none) (awaited : List Punctuation) :
    step awaited kind = some awaited := by
  rw [step.eq_def]
  split
  · rw [h]
  · rfl

/-- Behind brackets that fit each other, the same marks are awaited as in front of them. -/
theorem step_closer {mark closer : Punctuation} (h : mark.closer? = some closer)
    (awaited : List Punctuation) :
    (step awaited (.punctuation mark)).bind (step · (.punctuation closer)) = some awaited := by
  cases mark <;> cases h <;> simp [step, bracket?, Punctuation.closer?]

end Pairing

namespace Parsing

/-! ### Brackets among children -/

def isBracket (n : Node) : Bool := (symbolBracket n.symbol).isSome

/-- Whether two symbols are brackets that fit each other. -/
def fit : Symbol → Symbol → Bool
  | .punctuation mark, .punctuation closer => mark.closer? == some closer
  | _, _ => false

theorem of_fit {a b : Symbol} (h : fit a b = true) : ∃ mark closer, a = .punctuation mark ∧
    b = .punctuation closer ∧ mark.closer? = some closer := by
  unfold fit at h
  split at h
  · exact ⟨_, _, rfl, rfl, beq_iff_eq.mp h⟩
  · cases h

/-- Nodes among which there are no brackets, or two that fit each other. -/
inductive Bracketing (cs : List Node) : Prop
  | none (brackets : cs.filter isBracket = [])
  | pair {o c : Node} (brackets : cs.filter isBracket = [o, c])
      (opens : symbolBracket o.symbol = some .opening)
      (closes : symbolBracket c.symbol = some .closing) (fit : fit o.symbol c.symbol = true)

/-- Brackets with a role in one row fit each other. -/
theorem row_fit (kind : NodeKind) : ∀ a ∈ kind.row.flatMap Item.roles,
    symbolBracket a.2 = some .opening → ∀ b ∈ kind.row.flatMap Item.roles,
      symbolBracket b.2 = some .closing → fit a.2 b.2 = true := by
  cases kind <;> decide +kernel

theorem map_brackets (cs : List Node) :
    (cs.filter isBracket).map (symbolBracket ·.symbol) = (bracketsOf cs).map some := by
  induction cs with
  | nil => rfl
  | cons c cs ih =>
    rw [bracketsOf_cons, List.filter_cons, isBracket]
    cases hbracket : symbolBracket c.symbol <;> simp [hbracket, ih]

theorem bracketing_of_row {kind : NodeKind} {cs : List Node} (h : Matches kind.row cs) :
    Bracketing cs := by
  have hrole {n : Node} (hn : n ∈ cs.filter isBracket) :
      n.role ∈ kind.row.flatMap Item.roles := by
    obtain ⟨item, hitem, hrole⟩ := h.role_mem n (List.mem_of_mem_filter hn)
    exact List.mem_flatMap.mpr ⟨item, hitem, hrole⟩
  have hbrackets := map_brackets cs
  rcases row_balanced kind with hrow | hrow <;> rw [bracketsOf_eq h hrow] at hbrackets
  · exact .none (List.map_eq_nil_iff.mp hbrackets)
  · obtain ⟨o, rest, hcs, hopens, hrest⟩ := List.map_eq_cons_iff.mp hbrackets
    obtain ⟨c, rest, rfl, hcloses, hrest⟩ := List.map_eq_cons_iff.mp hrest
    obtain rfl := List.map_eq_nil_iff.mp hrest
    exact .pair hcs hopens hcloses
      (row_fit kind _ (hrole (by simp [hcs])) hopens _ (hrole (by simp [hcs])) hcloses)

/-! ### Symbols as tokens -/

/-- What a symbol does to the marks that are awaited. -/
def stepSymbol (awaited : List Punctuation) : Symbol → Option (List Punctuation)
  | .punctuation mark => Pairing.step awaited (.punctuation mark)
  | _ => some awaited

def runSymbols (awaited : List Punctuation) (ns : List Node) : Option (List Punctuation) :=
  (ns.map Node.symbol).foldlM stepSymbol awaited

theorem runSymbols_cons (awaited : List Punctuation) (n : Node) (ns : List Node) :
    runSymbols awaited (n :: ns) = (stepSymbol awaited n.symbol).bind (runSymbols · ns) :=
  List.foldlM_cons

theorem stepSymbol_plain {symbol : Symbol} (h : symbolBracket symbol = none)
    (awaited : List Punctuation) : stepSymbol awaited symbol = some awaited := by
  cases symbol with
  | punctuation mark => exact Pairing.step_plain h awaited
  | _ => rfl

theorem runSymbols_plain {n : Node} (h : symbolBracket n.symbol = none)
    (awaited : List Punctuation) (ns : List Node) :
    runSymbols awaited (n :: ns) = runSymbols awaited ns := by
  rw [runSymbols_cons, stepSymbol_plain h, Option.bind_some]

theorem stepSymbol_of_readsAs {kind : TokenKind} {symbol : Symbol} (h : readsAs kind symbol = true)
    (awaited : List Punctuation) : stepSymbol awaited symbol = Pairing.step awaited kind := by
  cases hbracket : symbolBracket symbol with
  | none =>
    rw [stepSymbol_plain hbracket, Pairing.step_plain]
    rwa [← readsAs_bracket h]
  | some bracket =>
    cases symbol with
    | punctuation mark => rw [kind_of_readsAs h, stepSymbol]
    | _ => cases hbracket

/-- Only brackets count. -/
theorem runSymbols_filter (awaited : List Punctuation) (ns : List Node) :
    runSymbols awaited (ns.filter isBracket) = runSymbols awaited ns := by
  induction ns generalizing awaited with
  | nil => rfl
  | cons n ns ih =>
    rw [List.filter_cons, isBracket]
    cases hbracket : symbolBracket n.symbol with
    | none =>
      rw [runSymbols_plain hbracket]
      exact ih awaited
    | some bracket =>
      rw [if_pos Option.isSome_some, runSymbols_cons, runSymbols_cons]
      exact Option.bind_congr fun awaited _ => ih awaited

/-- Behind the children of a node the same marks are awaited as in front of them. -/
theorem Bracketing.run {cs : List Node} (h : Bracketing cs) (awaited : List Punctuation) :
    runSymbols awaited cs = some awaited := by
  rw [← runSymbols_filter]
  cases h with
  | none brackets =>
    rw [brackets]
    rfl
  | pair brackets _ _ fits =>
    obtain ⟨mark, closer, ho, hc, hcloser⟩ := of_fit fits
    rw [brackets, runSymbols, List.map_cons, List.map_cons, ho, hc]
    simpa [stepSymbol] using Pairing.step_closer hcloser awaited

/-! ### Tokens of a forest -/

section Forest
variable {tokens : Array Token} {p q i : Nat} {ps : List Problem} {ns : List Node}

/-- The tokens run through the machine as the nodes do that are made of them. -/
theorem Forest.run (h : Forest tokens p q ps ns) (hps : ps = []) (hq : q ≤ tokens.size)
    (awaited : List Punctuation) :
    Pairing.run awaited (kindsBetween tokens p q) = runSymbols awaited ns := by
  induction h generalizing awaited with
  | nil => simp [kindsBetween, Pairing.run, runSymbols]
  | token field reads rest ih =>
    rw [kindsBetween_cons rest.le hq, Pairing.run_cons, runSymbols_cons]
    refine (congrArg (Option.bind · _) (stepSymbol_of_readsAs reads awaited).symm).trans ?_
    exact Option.bind_congr fun awaited _ => ih hps hq awaited
  | @signed p _ _ _ _ _ sign number _ _ _ rest ih =>
    have hle := rest.le
    have hnumber : bracket? (kindAt tokens (p + 1)) = none := by rw [number]; rfl
    rw [kindsBetween_cons (by omega) hq, kindsBetween_cons (by omega) hq, Pairing.run_cons,
      Pairing.step_plain (sign_bracket sign), Option.bind_some, Pairing.run_cons,
      Pairing.step_plain hnumber, Option.bind_some, runSymbols_plain rfl]
    exact ih hps hq awaited
  | literal field made rest ih =>
    obtain ⟨hbracket, hsymbol⟩ := literal_bracket made
    rw [kindsBetween_cons rest.le hq, Pairing.run_cons, Pairing.step_plain hbracket,
      Option.bind_some]
    exact (ih hps hq awaited).trans (runSymbols_plain hsymbol awaited _).symm
  | absent => cases hps
  | inner field children row _ _ rest ihc ih =>
    obtain ⟨hchildren, hrest⟩ := List.append_eq_nil_iff.mp hps
    rw [kindsBetween_append children.le rest.le, Pairing.run_append,
      ihc hchildren (rest.le.trans hq), (bracketing_of_row row).run, Option.bind_some,
      runSymbols_plain rfl]
    exact ih hrest hq awaited
  | damage => simp at hps

/-! ### Pairs of brackets -/

/-- Whether a node is a token as it stands. -/
structure IsToken (tokens : Array Token) (i : Nat) (n : Node) : Prop where
  symbol : n.symbol = symbolOf (kindAt tokens i)
  span : n.span = spanAt tokens i
  present : n.missing = false

/-- A bracket among the nodes of a forest is a token. -/
theorem Forest.bracket_token {n : Node} {b : Bracket} (h : Forest tokens p q [] (n :: ns))
    (hbracket : symbolBracket n.symbol = some b) :
    IsToken tokens p n ∧ bracket? (kindAt tokens p) = some b ∧ Forest tokens (p + 1) q [] ns := by
  generalize hps : [] = ps at h
  cases h with
  | @token _ _ _ _ symbol field reads rest =>
    cases symbol with
    | punctuation mark =>
      have hkind := kind_of_readsAs reads
      refine ⟨⟨?_, rfl, rfl⟩, ?_, hps ▸ rest⟩
      · rw [hkind]
        rfl
      · rwa [hkind]
    | _ => cases hbracket
  | literal _ made =>
    rw [(literal_bracket made).2] at hbracket
    cases hbracket
  | absent => cases hps
  | _ => cases hbracket

/-- Nodes side by side among which a pair of brackets stands, the first at an index, and the other where
it is looked for. -/
inductive PairedAt (tokens : Array Token) (i : Nat) (cs : List Node) : Prop
  | intro {j : Nat} {o c : Node} (found : matchingClose? tokens i = some j)
      (brackets : cs.filter isBracket = [o, c]) (fits : fit o.symbol c.symbol = true)
      (opens : IsToken tokens i o) (closes : IsToken tokens j c)

/-- Behind an opening bracket, the only bracket is found. -/
theorem Forest.closer {c : Node} (h : Forest tokens p q [] ns) (hc : ns.filter isBracket = [c])
    (hclosing : symbolBracket c.symbol = some .closing) :
    ∃ j, closingIndex? tokens p 1 = some j ∧ IsToken tokens j c := by
  obtain ⟨inside, back, rfl, hinside, _, _⟩ := List.filter_eq_cons_iff.mp hc
  obtain ⟨j, front, rest, hps, hfront, hback⟩ := h.split
  obtain ⟨rfl, rfl⟩ := List.append_eq_nil_iff.mp hps.symm
  obtain ⟨htoken, hkind, _⟩ := hback.bracket_token hclosing
  have hbrackets := map_brackets inside
  rw [List.filter_eq_nil_iff.mpr hinside] at hbrackets
  have hscan := hfront.scan rfl 0
  rw [List.map_eq_nil_iff.mp hbrackets.symm] at hscan
  refine ⟨j, ?_, htoken⟩
  have hnext : closingIndex? tokens p 1 = closingIndex? tokens j 1 := hscan
  rw [hnext, closingIndex?_real (bracket_real hkind), hkind]
  rfl

theorem Bracketing.paired {front back : List Node} {o : Node} (h : Bracketing (front ++ o :: back))
    (ho : IsToken tokens i o) (hopen : bracket? (kindAt tokens i) = some .opening)
    (hback : Forest tokens (i + 1) q [] back) : PairedAt tokens i (front ++ o :: back) := by
  have hsymbol : symbolBracket o.symbol = some .opening := by
    rw [ho.symbol, symbolBracket_symbolOf, hopen]
  have hfilter : (front ++ o :: back).filter isBracket =
      front.filter isBracket ++ o :: back.filter isBracket := by
    rw [List.filter_append, List.filter_cons, isBracket, hsymbol]
    rfl
  cases h with
  | none brackets =>
    rw [hfilter] at brackets
    simp at brackets
  | @pair o' c brackets opens closes fits =>
    have hall := brackets
    rw [hfilter] at hall
    cases hfront : front.filter isBracket with
    | nil =>
      rw [hfront, List.nil_append] at hall
      obtain ⟨rfl, hc⟩ := List.cons.inj hall
      obtain ⟨j, hfound, hj⟩ := hback.closer hc closes
      refine .intro ?_ brackets fits ho hj
      rw [matchingClose?, closingIndex?_real (bracket_real hopen), hopen]
      exact hfound
    | cons n rest =>
      -- The bracket behind another one closes it.
      rw [hfront] at hall
      obtain ⟨_, hrest⟩ := List.cons.inj hall
      have ho : o = c := by
        cases rest with
        | nil => exact (List.cons.inj hrest).1
        | cons => simp at hrest
      rw [ho, closes] at hsymbol
      cases hsymbol

/-- How a bracket that opens stands in a forest: with its other one among the children of a node, or
beside the other nodes. -/
inductive Opens (tokens : Array Token) (q i : Nat) (ns : List Node) : Prop
  | inside {n : Node} (mem : n ∈ Node.preorderAll ns) (paired : PairedAt tokens i n.children)
  | beside {front back : List Node} {o : Node} (split : ns = front ++ o :: back)
      (token : IsToken tokens i o) (rest : Forest tokens (i + 1) q [] back)

theorem Opens.cons (h : Opens tokens q i ns) (n : Node) : Opens tokens q i (n :: ns) := by
  cases h with
  | inside mem paired => exact .inside (Node.mem_preorderAll_cons.mpr (.inr (.inr mem))) paired
  | beside split token rest => exact .beside (by rw [split, List.cons_append]) token rest

/-- A token that is no bracket does not open one. -/
theorem behind (hopen : bracket? (kindAt tokens i) = some .opening) (hp : p ≤ i)
    (hnone : bracket? (kindAt tokens p) = none) : p + 1 ≤ i := by
  refine Nat.lt_of_le_of_ne hp ?_
  rintro rfl
  rw [hnone] at hopen
  cases hopen

theorem Forest.opens (h : Forest tokens p q ps ns) (hps : ps = []) (hp : p ≤ i) (hq : i < q)
    (hopen : bracket? (kindAt tokens i) = some .opening) : Opens tokens q i ns := by
  induction h with
  | nil => omega
  | @token p q ps ns symbol field reads rest ih =>
    by_cases hi : i = p
    · subst hi hps
      obtain ⟨ho, _, hback⟩ := (Forest.token field reads rest).bracket_token
        ((readsAs_bracket reads).trans hopen)
      exact .beside (List.nil_append _).symm ho hback
    · exact (ih hps (by omega) hq).cons _
  | signed sign number _ _ _ _ ih =>
    have hnumber := behind hopen (behind hopen hp (sign_bracket sign)) (by rw [number]; rfl)
    exact (ih hps hnumber hq).cons _
  | literal field made _ ih =>
    exact (ih hps (behind hopen hp (literal_bracket made).1) hq).cons _
  | absent => cases hps
  | @inner p m q _ _ kind cs ns field children row _ _ rest ihc ih =>
    obtain ⟨hchildren, hrest⟩ := List.append_eq_nil_iff.mp hps
    by_cases hm : i < m
    · cases ihc hchildren hp hm with
      | inside mem paired => exact .inside (Node.mem_preorderAll_cons.mpr (.inr (.inl mem))) paired
      | beside split token back =>
        subst split
        exact .inside (Node.mem_preorderAll_cons.mpr (.inl rfl))
          ((bracketing_of_row row).paired token hopen back)
    · exact (ih hrest (Nat.not_lt.mp hm) hq).cons _
  | damage => simp at hps

end Forest

end Parsing

/-! ### The result -/

/-- The brackets among the children of a node of a tree. -/
def Tree.brackets (t : Tree) (id : Nat) : List Node :=
  ((t.children id).toList.map t.node).filter isBracket

/-- Whether the brackets among some tokens are those of a tree. -/
structure Paired (tokens : Array Token) (t : Tree) : Prop where
  /-- Every bracket is closed by one of its shape. -/
  nested : Pairing.run [] (tokens.toList.map Token.kind) = some []
  /-- The bracket that is found behind one that opens has its shape and is the other one of its node. -/
  closes : ∀ i mark closer, kindAt tokens i = .punctuation mark → mark.closer? = some closer →
    ∃ j, matchingClose? tokens i = some j ∧ kindAt tokens j = .punctuation closer ∧
      ∃ id < t.nodeCount, ∃ o c, t.brackets id = [o, c] ∧ IsToken tokens i o ∧ IsToken tokens j c

section Tree
variable {source : String} {maxDepth : Nat} {problems : List Problem}

theorem Parsing.IsToken.of_strip {tokens : Array Token} {i : Nat} {n : Node} (h : IsToken tokens i n.strip) :
    IsToken tokens i n := by
  obtain ⟨symbol, span, present⟩ := h
  rw [Node.strip_eq] at symbol span present
  exact ⟨symbol, span, present⟩

/-- The brackets among the children of a node are those of the node without its comments. -/
theorem Sits.brackets_strip {id : Nat} {parent : Option Nat} {n o c : Node}
    (h : Sits (dressedRoot source maxDepth) id parent n)
    (hbrackets : n.strip.children.filter isBracket = [o, c]) :
    ∃ o' c', n.children.filter isBracket = [o', c'] ∧ o'.strip = o ∧ c'.strip = c := by
  have hsame : isBracket ∘ Node.strip = isBracket := by
    funext n
    rw [Function.comp_apply, Node.strip_eq]
    rfl
  have hplain : (n.children.filter (!·.extra)).filter isBracket = n.children.filter isBracket := by
    rw [List.filter_filter]
    refine List.filter_congr fun m hm => ?_
    obtain ⟨before, after, hchildren⟩ := List.append_of_mem hm
    rcases dressed_cases ((h.child hchildren).mem_below (by omega)) with
      ⟨comment, _, rfl⟩ | ⟨hextra, _⟩
    · rw [commentNode]
      cases comment.kind <;> rfl
    · rw [hextra]
      simp
  rw [Node.strip_eq, Node.stripAll_eq, List.filter_map, hsame, hplain] at hbrackets
  obtain ⟨o', rest, hchildren, ho, hrest⟩ := List.map_eq_cons_iff.mp hbrackets
  obtain ⟨c', rest, rfl, hc, hrest⟩ := List.map_eq_cons_iff.mp hrest
  obtain rfl := List.map_eq_nil_iff.mp hrest
  exact ⟨o', c', hchildren, ho, hc⟩

theorem symbolBracket_recovered {n : Node} (h : n.role ∈ Role.recovered) :
    symbolBracket n.symbol = none := by
  have hnone : ∀ role ∈ Role.recovered, symbolBracket role.2 = none := by decide
  exact hnone _ h

variable (hclean : (runProgram (lex source).tokens maxDepth).2.problems = #[])
include hclean

theorem lex_nested : Pairing.run [] ((lex source).tokens.toList.map Token.kind) = some [] := by
  have hs := lex_isStream source
  have hsize := hs.nonempty
  obtain ⟨hforest, hroles⟩ := bareRoot_forest source maxDepth
  rw [hclean] at hforest
  have hend : kindAt (lex source).tokens ((lex source).tokens.size - 1) = .endOfFile :=
    (hs.endOfFile _ (by omega)).mpr (by omega)
  have hall : (lex source).tokens.toList.map Token.kind =
      kindsBetween (lex source).tokens 0 ((lex source).tokens.size - 1) ++ [.endOfFile] := by
    rw [← hend, show [kindAt (lex source).tokens ((lex source).tokens.size - 1)] =
        kindsBetween (lex source).tokens ((lex source).tokens.size - 1) (lex source).tokens.size by
      rw [kindsBetween_cons (by omega) le_rfl]
      simp [kindsBetween]
      omega, ← kindsBetween_append (Nat.zero_le _) (Nat.sub_le _ _)]
    simp [kindsBetween]
  have hplain : (bareRoot source maxDepth).children.filter isBracket = [] :=
    List.filter_eq_nil_iff.mpr fun n hn => by
      simp [isBracket, symbolBracket_recovered (hroles n hn)]
  rw [hall, Pairing.run_append, hforest.run rfl (Nat.sub_le _ _), (Bracketing.none hplain).run]
  rfl

theorem exists_paired {i : Nat}
    (hopen : bracket? (kindAt (lex source).tokens i) = some .opening) :
    ∃ n ∈ Node.preorderAll (bareRoot source maxDepth).children,
      PairedAt (lex source).tokens i n.children := by
  obtain ⟨hforest, hroles⟩ := bareRoot_forest source maxDepth
  rw [hclean] at hforest
  have hreal := (lex_isStream source).succ_lt_of_real (bracket_real hopen)
  cases hforest.opens rfl (Nat.zero_le i) (by omega) hopen with
  | inside mem paired => exact ⟨_, mem, paired⟩
  | @beside _ _ o split token _ =>
    have hnone := symbolBracket_recovered (hroles o (by simp [split]))
    rw [token.symbol, symbolBracket_symbolOf, hopen] at hnone
    cases hnone

theorem dressed_paired (problems : List Problem) :
    Paired (lex source).tokens (.ofRoot source (dressedRoot source maxDepth) problems) := by
  refine ⟨lex_nested hclean, fun i mark closer hkind hcloser => ?_⟩
  have hopen : bracket? (kindAt (lex source).tokens i) = some .opening := by
    rw [hkind]
    cases mark <;> cases hcloser <;> rfl
  obtain ⟨n, hn, @⟨j, o, c, found, brackets, fits, opens, closes⟩⟩ := exists_paired hclean hopen
  rw [preorder_bareRoot] at hn
  obtain ⟨m, hm, rfl⟩ := List.mem_map.mp hn
  obtain ⟨root, hroot, hm⟩ := Node.mem_preorderAll.mp (List.mem_of_mem_filter hm)
  obtain ⟨before, after, hchildren⟩ := List.append_of_mem hroot
  obtain ⟨id, parent, hsits, _⟩ : ∃ id parent, Sits (dressedRoot source maxDepth) id parent m ∧
      (Tree.ofRoot source (dressedRoot source maxDepth) problems).Below _ id :=
    (Sits.root.child hchildren).exists_below hm
  refine ⟨j, found, ?_, id, ?_, ?_⟩
  · obtain ⟨mark', closer', ho, hc, hfits⟩ := of_fit fits
    rw [opens.symbol, hkind] at ho
    rw [closes.symbol] at hc
    cases ho
    rw [eq_of_symbolOf hc, Option.some.inj (hcloser.symm.trans hfits)]
  · rw [nodeCount_ofRoot]
    exact hsits.lt_count
  · obtain ⟨o, c, hbrackets, rfl, rfl⟩ := hsits.brackets_strip brackets
    refine ⟨o, c, ?_, opens.of_strip, closes.of_strip⟩
    rw [Tree.brackets, hsits.map_children, hbrackets]

end Tree

/-- **Brackets are parsed as they are looked for.** In a source without problems the brackets are nested by
shape, and what the search finds behind one that opens is the bracket that closes its node. -/
theorem parse_paired {source : String} {options : ParseOptions}
    (hclean : (parse source options).problems = []) :
    Paired (lex source).tokens (parse source options) := by
  rcases parse_cases source options with h | ⟨limit, h⟩ <;> rw [h] at hclean ⊢
  · refine dressed_paired ?_ _
    have hsorted : sorted (reports source options.maxDepth) = [] := hclean
    have hperm : (sorted (reports source options.maxDepth)).Perm _ := List.mergeSort_perm ..
    rw [hsorted] at hperm
    exact Array.toList_eq_nil_iff.mp (List.append_eq_nil_iff.mp (List.nil_perm.mp hperm)).2
  · cases hclean

theorem parse_paired_template : (parse "f(`a$\x7b[b]\x7d`, [1]);").problems = [] ∧
    Paired (lex "f(`a$\x7b[b]\x7d`, [1]);").tokens (parse "f(`a$\x7b[b]\x7d`, [1]);") := by
  have hclean : (parse "f(`a$\x7b[b]\x7d`, [1]);").problems = [] := by decide +kernel
  exact ⟨hclean, parse_paired hclean⟩

end ScriptTree
