import Mathlib
import ScriptTree.Proofs.Printing.Programs

/-! Types are read back from their text.

A type is written in layers: atoms, atoms with `[]` and `?` behind them, unions of these, and the elements
of tuples (`TypeTerm`). Each says which tokens it is written with, and which nodes it becomes. The
annotation of a variable is read as the nodes that its type becomes, given a level for each tuple around
the type that stands deepest and two more (`parse_annotated`). -/
namespace ScriptTree

open Parsing

/-! ### Types as they are written -/

/-- The layers of types. -/
inductive TypeLayer where
  | atom
  | postfixed
  | union
  /-- What stands in the brackets of a tuple. -/
  | elements
deriving DecidableEq

/-- The names that are types by themselves. -/
def primitiveNames : List (String × Keyword) :=
  [("boolean", .booleanWord), ("number", .numberWord), ("string", .stringWord),
    ("unknown", .unknownWord), ("never", .neverWord), ("symbol", .symbolWord)]

/-- The reserved words that are types, and the leaves that they become. -/
def wordTypes : List (Keyword × Sketch) :=
  [(.voidWord, .token (.keyword .voidWord) "void"),
    (.undefinedWord, .named .undefinedLiteral "undefined"),
    (.trueWord, .named .trueLiteral "true"), (.falseWord, .named .falseLiteral "false")]

/-- A type as it is written. -/
inductive TypeTerm : TypeLayer → Type where
  | name (text : String) (spelled : isName text = true) : TypeTerm .atom
  | word (w : Keyword) (leaf : Sketch) (known : (w, leaf) ∈ wordTypes) : TypeTerm .atom
  | tuple (elements : TypeTerm .elements) : TypeTerm .atom
  | bare (atom : TypeTerm .atom) : TypeTerm .postfixed
  | array (item : TypeTerm .postfixed) : TypeTerm .postfixed
  | optional (item : TypeTerm .postfixed) : TypeTerm .postfixed
  | single (operand : TypeTerm .postfixed) : TypeTerm .union
  /-- With a bar in front. -/
  | barred (operand : TypeTerm .postfixed) : TypeTerm .union
  | union (left : TypeTerm .union) (right : TypeTerm .postfixed) : TypeTerm .union
  | empty : TypeTerm .elements
  | last (element : TypeTerm .union) : TypeTerm .elements
  /-- A comma may stand behind the last element as well. -/
  | comma (element : TypeTerm .union) (behind : TypeTerm .elements) : TypeTerm .elements

namespace TypeTerm

def lexemes : {layer : TypeLayer} → TypeTerm layer → List Lexeme
  | _, name text _ => [.identifier text.toList]
  | _, word w _ _ => [.keyword w]
  | _, tuple elements =>
    .punctuation .leftBracket :: (elements.lexemes ++ [.punctuation .rightBracket])
  | _, bare atom => atom.lexemes
  | _, array item => item.lexemes ++ [.punctuation .leftBracket, .punctuation .rightBracket]
  | _, optional item => item.lexemes ++ [.punctuation .question]
  | _, single operand => operand.lexemes
  | _, barred operand => .operator .bitOr :: operand.lexemes
  | _, union left right => left.lexemes ++ .operator .bitOr :: right.lexemes
  | _, empty => []
  | _, last element => element.lexemes
  | _, comma element behind => element.lexemes ++ .punctuation .comma :: behind.lexemes

/-- How many tuples stand around the type that stands deepest. -/
def nesting : {layer : TypeLayer} → TypeTerm layer → Nat
  | _, name _ _ | _, word _ _ _ | _, empty => 0
  | _, tuple t | _, bare t | _, array t | _, optional t | _, single t | _, barred t => t.nesting
  | _, union left right => max left.nesting right.nesting
  | _, last element => element.nesting + 1
  | _, comma element behind => max (element.nesting + 1) behind.nesting

/-- The node of a name. -/
def nameSketch (name : String) : Sketch :=
  match primitiveNames.lookup name with
  | some w => .node .primitiveType [.token (.keyword w) name]
  | none => .named .typeIdentifier name

/-- The nodes that a type becomes: one, and between brackets the elements with their commas. -/
def sketches : {layer : TypeLayer} → TypeTerm layer → List Sketch
  | _, name text _ => [nameSketch text]
  | _, word _ leaf _ => [.node .primitiveType [leaf]]
  | _, tuple elements =>
    [.node .tupleType (.mark .leftBracket :: (elements.sketches ++ [.mark .rightBracket]))]
  | _, bare atom => atom.sketches
  | _, array item =>
    [.node .arrayType (item.sketches ++ [.mark .leftBracket, .mark .rightBracket])]
  | _, optional item => [.node .orUndefinedType (item.sketches ++ [.mark .question])]
  | _, single operand => operand.sketches
  | _, barred operand => [.node .unionType (.sign .bitOr :: operand.sketches)]
  | _, union left right => [.node .unionType (left.sketches ++ .sign .bitOr :: right.sketches)]
  | _, empty => []
  | _, last element => element.sketches
  | _, comma element behind => element.sketches ++ .mark .comma :: behind.sketches

theorem exists_sketch {layer : TypeLayer} (t : TypeTerm layer) (h : layer ≠ .elements) :
    ∃ s, t.sketches = [s] := by
  induction t with
  | bare _ ih | single _ ih => exact ih (by simp)
  | name | word | tuple | array | optional | barred | union => exact ⟨_, rfl⟩
  | empty | last | comma => exact absurd rfl h

def kinds {layer : TypeLayer} (t : TypeTerm layer) : List TokenKind :=
  t.lexemes.filterMap (·.tokenKind? 0)

section Kinds
variable {elements : TypeTerm .elements} {item right : TypeTerm .postfixed} {left : TypeTerm .union}

@[simp] theorem kinds_name (text : String) (h : isName text = true) :
    (name text h).kinds = [.identifier text] := by
  simp [kinds, lexemes]

@[simp] theorem kinds_word (w : Keyword) (leaf : Sketch) (h : (w, leaf) ∈ wordTypes) :
    (word w leaf h).kinds = [.keyword w] := rfl

@[simp] theorem kinds_tuple : (tuple elements).kinds =
    .punctuation .leftBracket :: (elements.kinds ++ [.punctuation .rightBracket]) := by
  simp [kinds, lexemes]

@[simp] theorem kinds_bare (atom : TypeTerm .atom) : (bare atom).kinds = atom.kinds := rfl

@[simp] theorem kinds_array : (array item).kinds =
    item.kinds ++ [.punctuation .leftBracket, .punctuation .rightBracket] := by
  simp [kinds, lexemes]

@[simp] theorem kinds_optional : (optional item).kinds = item.kinds ++ [.punctuation .question] := by
  simp [kinds, lexemes]

@[simp] theorem kinds_single : (single item).kinds = item.kinds := rfl

@[simp] theorem kinds_barred : (barred item).kinds = .operator .bitOr :: item.kinds := by
  simp [kinds, lexemes]

@[simp] theorem kinds_union : (union left right).kinds =
    left.kinds ++ .operator .bitOr :: right.kinds := by
  simp [kinds, lexemes]

@[simp] theorem kinds_empty : empty.kinds = [] := rfl

@[simp] theorem kinds_last : (last left).kinds = left.kinds := rfl

@[simp] theorem kinds_comma : (comma left elements).kinds =
    left.kinds ++ .punctuation .comma :: elements.kinds := by
  simp [kinds, lexemes]

end Kinds

/-- Whether a type of a layer may begin with a token. Only a union may begin with a bar. -/
def Opens (layer : TypeLayer) (k : TokenKind) : Prop :=
  k ≠ .punctuation .rightBracket ∧ (layer ≠ .union → k ≠ .operator .bitOr)

theorem exists_opens {layer : TypeLayer} (t : TypeTerm layer) (h : layer ≠ .elements) :
    ∃ k ks, t.kinds = k :: ks ∧ Opens layer k := by
  have hbehind {layer layer' : TypeLayer} {t : TypeTerm layer} (more : List TokenKind)
      (h : ∃ k ks, t.kinds = k :: ks ∧ Opens layer k) (hlayer : layer' ≠ .union → layer ≠ .union) :
      ∃ k ks, t.kinds ++ more = k :: ks ∧ Opens layer' k := by
    obtain ⟨k, ks, hks, hclosing, hbar⟩ := h
    exact ⟨k, ks ++ more, by rw [hks, List.cons_append], hclosing, fun h => hbar (hlayer h)⟩
  induction t with
  | name text spelled => exact ⟨_, [], kinds_name text spelled, by simp [Opens]⟩
  | word w leaf known => exact ⟨_, [], kinds_word w leaf known, by simp [Opens]⟩
  | tuple elements => exact ⟨_, _, kinds_tuple, by simp [Opens]⟩
  | bare atom ih => simpa using hbehind [] (ih (by simp)) (fun _ => by simp)
  | array item ih =>
    rw [kinds_array]
    exact hbehind _ (ih (by simp)) id
  | optional item ih =>
    rw [kinds_optional]
    exact hbehind _ (ih (by simp)) id
  | single operand ih => simpa using hbehind [] (ih (by simp)) (fun _ => by simp)
  | barred operand => exact ⟨_, _, kinds_barred, by simp [Opens]⟩
  | union left right ih =>
    rw [kinds_union]
    exact hbehind _ (ih (by simp)) id
  | empty | last | comma => exact absurd rfl h

/-! ### What is read -/

/-- Whether a type is over in front of a token. -/
def Ends (k : TokenKind) : Prop :=
  k ≠ .punctuation .leftBracket ∧ k ≠ .punctuation .question

/-- A type with one suffix more, if there is one. -/
def suffix (t : Node) : Parse (Round Node) := do
  if (← sees .leftBracket) && (← kindAhead 1).isPunctuation .rightBracket then
    return .more (← node .arrayType #[t, ← bump, ← bump])
  if ← sees .question then return .more (← node .orUndefinedType #[t, ← bump])
  return .done t

/-- A union with one operand more, if there is one. -/
def operandBehind (left : Node) : Parse (Round Node) := do
  if ← seesOperator .bitOr then return .more (← node .unionType #[left, ← bump, ← postfixType])
  return .done left

/-- The elements of a tuple with one more, if there is one. -/
def elementBehind (children : Array Node) : Parse (Round (Array Node)) := do
  if ← sees .rightBracket then return .done children
  let children := children.push (← type)
  if ← sees .comma then return .more (children.push (← bump))
  return .done children

theorem tupleType_eq : tupleType = (do
    let children ← repeatFrom #[← bump] elementBehind
    node .tupleType (children.push (← expect .rightBracket))) := rfl

section Reading
variable (source : String) (tokens : Array Token) (maxDepth : Nat)

/-- Whether a type is read as the nodes that it becomes. What is postfixed and a union go on as the node
so far does. -/
def Reads : {layer : TypeLayer} → TypeTerm layer → Prop
  | .atom, t => ∀ levels rest, t.nesting ≤ levels →
    Yields (.withLevels tokens maxDepth levels) typeAtom (t.kinds ++ rest) rest
      fun n => [n.sketch source] = t.sketches
  | .postfixed, t => ∀ levels rest ks' post, t.nesting ≤ levels →
    (∀ n, [n.sketch source] = t.sketches →
      Loops (.withLevels tokens maxDepth levels) suffix rest ks' n post) →
    Yields (.withLevels tokens maxDepth levels) postfixType (t.kinds ++ rest) ks' post
  | .union, t => ∀ levels k rest ks' post, t.nesting ≤ levels → Ends k →
    (∀ n, [n.sketch source] = t.sketches →
      Loops (.withLevels tokens maxDepth levels) operandBehind (k :: rest) ks' n post) →
    Yields (.withLevels tokens maxDepth levels) unionType (t.kinds ++ k :: rest) ks' post
  | .elements, t => ∀ levels rest (children : Array Node), t.nesting ≤ levels →
    Loops (.withLevels tokens maxDepth levels) elementBehind
      (t.kinds ++ .punctuation .rightBracket :: rest) (.punctuation .rightBracket :: rest) children
      fun all => all.toList.map (·.sketch source) = children.toList.map (·.sketch source) ++ t.sketches

end Reading

section Suffixes
variable {source : String} {scope : Scope} {n : Node} {below : List Sketch} {rest ks' : List TokenKind}
  {post : Node → Prop}

/-- Nothing goes on with a type in front of such a token. -/
theorem suffix_ends {k : TokenKind} (h : Ends k) (hn : post n) :
    Loops scope suffix (k :: rest) (k :: rest) n post := by
  refine .done (Yields.sees.bind fun b hb => (Yields.kindAhead 1).bind fun k' _ => ?_)
  rw [hb, show k.isPunctuation .leftBracket = false from beq_false_of_ne h.1, Bool.false_and]
  refine Yields.sees.bind fun b hb => ?_
  rw [hb, show k.isPunctuation .question = false from beq_false_of_ne h.2]
  exact .pure ⟨n, rfl, hn⟩

variable (hspells : AllSpelled source scope.tokens) (hn : [n.sketch source] = below)
include hspells hn

/-- A type with brackets behind it. -/
theorem suffix_array
    (hloops : ∀ m, [m.sketch source] =
        [.node .arrayType (below ++ [.mark .leftBracket, .mark .rightBracket])] →
      Loops scope suffix rest ks' m post) :
    Loops scope suffix (.punctuation .leftBracket :: .punctuation .rightBracket :: rest) ks' n
      post := by
  have hround : Yields scope (suffix n)
      (.punctuation .leftBracket :: .punctuation .rightBracket :: rest) rest
      fun r => ∃ m, r = .more m ∧ Loops scope suffix rest ks' m post := by
    refine Yields.sees.bind fun b hb => (Yields.kindAhead_of rfl).bind fun k' hk' => ?_
    subst hb hk'
    refine (Yields.bump_sketch hspells rfl).bind fun opening hopening => ?_
    refine (Yields.bump_sketch hspells rfl).bind fun closing hclosing => ?_
    have hchildren : [n, opening, closing].map (·.sketch source) =
        below ++ [.mark .leftBracket, .mark .rightBracket] := by
      rw [← hn, List.map_cons, List.map_cons, List.map_singleton, hopening, hclosing]
      rfl
    refine (Yields.node_sketch hchildren (by simp)).bind fun m hm => .pure ⟨m, rfl, hloops m ?_⟩
    rw [hm]
  exact .more hround (by simp)

/-- A type with a question mark behind it. -/
theorem suffix_optional
    (hloops : ∀ m, [m.sketch source] = [.node .orUndefinedType (below ++ [.mark .question])] →
      Loops scope suffix rest ks' m post) :
    Loops scope suffix (.punctuation .question :: rest) ks' n post := by
  have hround : Yields scope (suffix n) (.punctuation .question :: rest) rest
      fun r => ∃ m, r = .more m ∧ Loops scope suffix rest ks' m post := by
    refine Yields.sees.bind fun b hb => (Yields.kindAhead 1).bind fun k' _ => ?_
    subst hb
    refine Yields.sees.bind fun b hb => ?_
    subst hb
    refine (Yields.bump_sketch hspells rfl).bind fun mark hmark => ?_
    have hchildren : [n, mark].map (·.sketch source) = below ++ [.mark .question] := by
      rw [← hn, List.map_cons, List.map_singleton, hmark]
      rfl
    refine (Yields.node_sketch hchildren (by simp)).bind fun m hm => .pure ⟨m, rfl, hloops m ?_⟩
    rw [hm]
  exact .more hround (by simp)

end Suffixes

section Operands
variable {source : String} {scope : Scope} {n : Node} {below right : List Sketch}
  {ks rest ks' : List TokenKind} {post : Node → Prop}

/-- Nothing goes on with a union in front of anything but a bar. -/
theorem operandBehind_ends {k : TokenKind} (h : k ≠ .operator .bitOr) (hn : post n) :
    Loops scope operandBehind (k :: rest) (k :: rest) n post := by
  refine .done (Yields.seesOperator.bind fun b hb => ?_)
  rw [hb, show k.isOperator .bitOr = false from beq_false_of_ne h]
  exact .pure ⟨n, rfl, hn⟩

/-- An operand without a bar in front of it. -/
theorem firstOperand_single {t : TypeTerm .postfixed}
    (h : Yields scope postfixType (t.kinds ++ ks) rest post) :
    Yields scope firstOperand (t.kinds ++ ks) rest post := by
  obtain ⟨k, opened, hks, _, hbar⟩ := t.exists_opens (by simp)
  rw [hks, List.cons_append] at h ⊢
  refine Yields.seesOperator.bind fun b hb => ?_
  rw [hb, show k.isOperator .bitOr = false from beq_false_of_ne (hbar (by simp))]
  exact h

variable (hspells : AllSpelled source scope.tokens)
include hspells

/-- A union with an operand behind it. -/
theorem operandBehind_more (hn : [n.sketch source] = below)
    (hright : Yields scope postfixType ks rest fun m => [m.sketch source] = right)
    (hless : rest.length ≤ ks.length)
    (hloops : ∀ m, [m.sketch source] = [.node .unionType (below ++ .sign .bitOr :: right)] →
      Loops scope operandBehind rest ks' m post) :
    Loops scope operandBehind (.operator .bitOr :: ks) ks' n post := by
  have hround : Yields scope (operandBehind n) (.operator .bitOr :: ks) rest
      fun r => ∃ m, r = .more m ∧ Loops scope operandBehind rest ks' m post := by
    refine Yields.seesOperator.bind fun b hb => ?_
    subst hb
    refine (Yields.bump_sketch hspells rfl).bind fun bar hbar => hright.bind fun operand hoperand => ?_
    have hchildren : [n, bar, operand].map (·.sketch source) = below ++ .sign .bitOr :: right := by
      rw [← hn, ← hoperand, List.map_cons, List.map_cons, List.map_singleton, hbar]
      rfl
    refine (Yields.node_sketch hchildren (by simp)).bind fun m hm => .pure ⟨m, rfl, hloops m ?_⟩
    rw [hm]
  exact .more hround (Nat.lt_succ_of_le hless)

/-- An operand with a bar in front of it. -/
theorem firstOperand_barred
    (hright : Yields scope postfixType ks rest fun m => [m.sketch source] = right) :
    Yields scope firstOperand (.operator .bitOr :: ks) rest
      fun m => [m.sketch source] = [.node .unionType (.sign .bitOr :: right)] := by
  refine Yields.seesOperator.bind fun b hb => ?_
  subst hb
  refine (Yields.bump_sketch hspells rfl).bind fun bar hbar => hright.bind fun operand hoperand => ?_
  have hchildren : [bar, operand].map (·.sketch source) = .sign .bitOr :: right := by
    rw [← hoperand, List.map_cons, List.map_singleton, hbar]
    rfl
  refine (Yields.node_sketch hchildren (by simp)).mono fun m hm => ?_
  rw [hm]

end Operands

section Atoms

/-- The names of primitive types are those that the list has. -/
theorem primitiveType?_eq {name : String} (h : Keyword.findReserved? name = none) :
    primitiveType? name = primitiveNames.lookup name := by
  rw [primitiveType?]
  cases hfound : Keyword.find? name with
  | none =>
    have hspelling (w : Keyword) : w.spelling ≠ name := by
      simpa using List.find?_eq_none.mp hfound w w.mem_all
    refine (List.lookup_eq_none_iff.mpr fun entry hentry => ?_).symm
    have hspelled : ∀ entry ∈ primitiveNames, entry.1 = entry.2.spelling := by decide
    rw [hspelled entry hentry, bne_iff_ne]
    exact (hspelling entry.2).symm
  | some w =>
    obtain rfl : w.spelling = name := by simpa using List.find?_some hfound
    have hcontextual : w.isReserved = false := by
      rw [← Bool.not_eq_true]
      exact fun hreserved => Keyword.spelling_ne h w hreserved rfl
    have hall : ∀ w ∈ Keyword.all, w.isReserved = false →
        (some w).filter Keyword.isPrimitiveType = primitiveNames.lookup w.spelling := by
      decide
    exact hall w w.mem_all hcontextual

variable {source : String} {scope : Scope} (hspells : AllSpelled source scope.tokens)
include hspells

theorem typeAtom_name {text : String} (h : isName text = true) {rest : List TokenKind} :
    Yields scope typeAtom (.identifier text :: rest) rest (·.sketch source = nameSketch text) := by
  have hfree : Keyword.findReserved? text = none := by
    rw [isName, Bool.and_eq_true] at h
    exact Option.isNone_iff_eq_none.mp h.2
  refine Yields.peekKind.bind fun kind hkind => ?_
  subst hkind
  dsimp only
  rw [primitiveType?_eq hfree, nameSketch]
  cases primitiveNames.lookup text with
  | none => exact Yields.bumpAs_sketch hspells rfl
  | some w =>
    refine (Yields.sketch_leaf hspells rfl (Yields.bumpSymbol (by simp))).bind fun leaf hleaf => ?_
    refine Yields.node_sketch ?_ (by simp)
    rw [List.map_singleton, hleaf]
    rfl

theorem typeAtom_word {w : Keyword} {leaf : Sketch} (h : (w, leaf) ∈ wordTypes)
    {rest : List TokenKind} : Yields scope typeAtom (.keyword w :: rest) rest
      (·.sketch source = .node .primitiveType [leaf]) := by
  have hnode {m : Parse Node} (hm : Yields scope m (.keyword w :: rest) rest (·.sketch source = leaf)) :
      Yields scope (do node .primitiveType #[← m]) (.keyword w :: rest) rest
        (·.sketch source = .node .primitiveType [leaf]) := by
    refine hm.bind fun n hn => Yields.node_sketch ?_ (by simp)
    rw [List.map_singleton, hn]
  refine Yields.peekKind.bind fun kind hkind => ?_
  subst hkind
  simp only [wordTypes, List.mem_cons, Prod.mk.injEq, List.not_mem_nil, or_false] at h
  obtain ⟨rfl, rfl⟩ | ⟨rfl, rfl⟩ | ⟨rfl, rfl⟩ | ⟨rfl, rfl⟩ := h
  · exact hnode (Yields.bump_sketch hspells rfl)
  · exact hnode (Yields.bumpAs_sketch hspells rfl)
  · exact hnode (Yields.bumpAs_sketch hspells rfl)
  · exact hnode (Yields.bumpAs_sketch hspells rfl)

end Atoms

section Elements
variable {source : String} {tokens : Array Token} {maxDepth levels : Nat} {t : TypeTerm .union}
  {k : TokenKind} {rest : List TokenKind}

/-- One level deeper, a whole type is read. -/
theorem Reads.whole (h : Reads source tokens maxDepth t) (hlevels : t.nesting + 1 ≤ levels)
    (hends : Ends k) (hbar : k ≠ .operator .bitOr) :
    Yields (.withLevels tokens maxDepth levels) type (t.kinds ++ k :: rest) (k :: rest)
      fun n => [n.sketch source] = t.sketches := by
  obtain ⟨levels, rfl⟩ : ∃ n, levels = n + 1 := ⟨levels - 1, by omega⟩
  exact h levels k rest _ _ (Nat.le_of_succ_le_succ hlevels) hends
    fun n hn => operandBehind_ends hbar hn

/-- A round that reads an element. -/
theorem Reads.elementBehind (h : Reads source tokens maxDepth t) (hlevels : t.nesting + 1 ≤ levels)
    (hends : Ends k) (hbar : k ≠ .operator .bitOr) {children : Array Node} {ks' : List TokenKind}
    {post : Round (Array Node) → Prop}
    (hnext : ∀ n, [n.sketch source] = t.sketches →
      Yields (.withLevels tokens maxDepth levels) (do
        if ← sees .comma then return .more ((children.push n).push (← bump))
        return .done (children.push n)) (k :: rest) ks' post) :
    Yields (.withLevels tokens maxDepth levels) (elementBehind children) (t.kinds ++ k :: rest) ks'
      post := by
  obtain ⟨first, ks, hks, hclosing, _⟩ := t.exists_opens (by simp)
  have hwhole : Yields (.withLevels tokens maxDepth levels) type (t.kinds ++ k :: rest) (k :: rest)
      fun n => [n.sketch source] = t.sketches :=
    h.whole hlevels hends hbar
  rw [hks, List.cons_append] at hwhole ⊢
  refine Yields.sees.bind fun b hb => ?_
  rw [hb, show first.isPunctuation .rightBracket = false from beq_false_of_ne hclosing]
  exact hwhole.bind hnext

end Elements

section All
variable {source : String} {tokens : Array Token} {maxDepth : Nat} (hspells : AllSpelled source tokens)

theorem reads_last {element : TypeTerm .union} (h : Reads source tokens maxDepth element) :
    Reads source tokens maxDepth (last element) := by
  intro levels rest children hlevels
  refine .done (h.elementBehind hlevels (by simp [Ends]) (by simp) fun n hn => ?_)
  refine Yields.sees.bind fun b hb => ?_
  subst hb
  refine .pure ⟨_, rfl, ?_⟩
  rw [Array.toList_push, List.map_append, List.map_singleton, hn]
  rfl

include hspells

theorem reads_comma {element : TypeTerm .union} {behind : TypeTerm .elements}
    (h : Reads source tokens maxDepth element) (hbehind : Reads source tokens maxDepth behind) :
    Reads source tokens maxDepth (comma element behind) := by
  intro levels rest children hlevels
  obtain ⟨helement, hlevels⟩ := Nat.max_le.mp hlevels
  rw [kinds_comma, List.append_assoc, List.cons_append]
  have hround : Yields (.withLevels tokens maxDepth levels) (elementBehind children)
      (element.kinds ++ .punctuation .comma :: (behind.kinds ++ .punctuation .rightBracket :: rest))
      (behind.kinds ++ .punctuation .rightBracket :: rest)
      fun r => ∃ before : Array Node, r = .more before ∧
        Loops (.withLevels tokens maxDepth levels) elementBehind
          (behind.kinds ++ .punctuation .rightBracket :: rest) (.punctuation .rightBracket :: rest) before
          fun all => all.toList.map (·.sketch source) =
            children.toList.map (·.sketch source) ++ (comma element behind).sketches := by
    refine h.elementBehind helement (by simp [Ends]) (by simp) fun n hn => ?_
    refine Yields.sees.bind fun b hb => ?_
    subst hb
    refine (Yields.bump_sketch hspells rfl).bind fun mark hmark => .pure ⟨_, rfl, ?_⟩
    have hsofar : ((children.push n).push mark).toList.map (·.sketch source) =
        children.toList.map (·.sketch source) ++ (element.sketches ++ [.mark .comma]) := by
      rw [Array.toList_push, Array.toList_push, List.map_append, List.map_append, List.map_singleton,
        List.map_singleton, hn, hmark, List.append_assoc]
      rfl
    have hloops := hbehind levels rest ((children.push n).push mark) hlevels
    rw [hsofar] at hloops
    simpa [sketches] using hloops
  exact .more hround (by simp; omega)

theorem reads_tuple {elements : TypeTerm .elements} (h : Reads source tokens maxDepth elements) :
    Reads source tokens maxDepth (tuple elements) := by
  intro levels rest hlevels
  rw [kinds_tuple, List.cons_append, List.append_assoc, List.singleton_append]
  have htuple : Yields (.withLevels tokens maxDepth levels) tupleType
      (.punctuation .leftBracket :: (elements.kinds ++ .punctuation .rightBracket :: rest)) rest
      fun n => [n.sketch source] = (tuple elements).sketches := by
    rw [tupleType_eq]
    refine (Yields.bump_sketch hspells rfl).bind fun opening hopening => ?_
    refine (h levels rest #[opening] hlevels).repeatFrom.bind fun children hchildren => ?_
    refine (Yields.expect_sketch hspells).bind fun closing hclosing => ?_
    have hall : (children.push closing).toList.map (·.sketch source) =
        .mark .leftBracket :: (elements.sketches ++ [.mark .rightBracket]) := by
      rw [Array.toList_push, List.map_append, hchildren, List.map_singleton, List.map_singleton, hopening,
        hclosing]
      rfl
    refine (Yields.node_sketch hall (by simp)).mono fun n hn => ?_
    rw [hn, sketches]
  refine Yields.peekKind.bind fun kind hkind => ?_
  subst hkind
  exact htuple

/-- A type with everything behind it that goes on with it. -/
theorem reads {layer : TypeLayer} (t : TypeTerm layer) : Reads source tokens maxDepth t := by
  induction t with
  | name text spelled =>
    intro levels rest _
    rw [kinds_name]
    exact (typeAtom_name hspells spelled).mono fun n hn => congrArg (fun s => [s]) hn
  | word w leaf known =>
    intro levels rest _
    exact (typeAtom_word hspells known).mono fun n hn => congrArg (fun s => [s]) hn
  | tuple elements ih => exact reads_tuple hspells ih
  | bare atom ih =>
    intro levels rest ks' post hlevels hloops
    exact (ih levels rest hlevels).bind fun n hn => (hloops n hn).repeatFrom
  | array item ih =>
    intro levels rest ks' post hlevels hloops
    rw [kinds_array, List.append_assoc]
    exact ih levels _ ks' post hlevels fun n hn => suffix_array hspells hn hloops
  | optional item ih =>
    intro levels rest ks' post hlevels hloops
    rw [kinds_optional, List.append_assoc]
    exact ih levels _ ks' post hlevels fun n hn => suffix_optional hspells hn hloops
  | single operand ih =>
    intro levels k rest ks' post hlevels hends hloops
    exact (firstOperand_single (ih levels (k :: rest) _ _ hlevels fun n hn =>
      suffix_ends hends hn)).bind fun n hn => (hloops n hn).repeatFrom
  | barred operand ih =>
    intro levels k rest ks' post hlevels hends hloops
    rw [kinds_barred, List.cons_append]
    refine (firstOperand_barred hspells (ih levels (k :: rest) _ _ hlevels fun n hn =>
      suffix_ends hends hn)).bind fun n hn => (hloops n hn).repeatFrom
  | union left right ihleft ihright =>
    intro levels k rest ks' post hlevels hends hloops
    obtain ⟨hleft, hright⟩ := Nat.max_le.mp hlevels
    rw [kinds_union, List.append_assoc, List.cons_append]
    refine ihleft levels _ _ ks' post hleft (by simp [Ends]) fun n hn => ?_
    exact operandBehind_more hspells hn (ihright levels (k :: rest) _ _ hright fun n hn =>
      suffix_ends hends hn) (by simp) hloops
  | empty =>
    intro levels rest children _
    refine .done (Yields.sees.bind fun b hb => ?_)
    subst hb
    exact .pure ⟨children, rfl, (List.append_nil _).symm⟩
  | last element ih => exact reads_last ih
  | comma element behind ih ihbehind => exact reads_comma hspells ih ihbehind

end All

/-! ### Annotations -/

theorem forall_lexemes {p : Lexeme → Prop} {layer : TypeLayer} (t : TypeTerm layer)
    (hname : ∀ name, isName name = true → p (.identifier name.toList))
    (hword : ∀ entry ∈ wordTypes, p (.keyword entry.1)) (hbar : p (.operator .bitOr))
    (hmark : ∀ mark ∈ [.leftBracket, .rightBracket, .question, .comma], p (.punctuation mark)) :
    ∀ l ∈ t.lexemes, p l := by
  simp only [List.forall_mem_cons, List.not_mem_nil, false_implies, implies_true, and_true] at hmark
  obtain ⟨hopening, hclosing, hquestion, hcomma⟩ := hmark
  induction t with
  | name text spelled => exact List.forall_mem_singleton.mpr (hname text spelled)
  | word w leaf known => exact List.forall_mem_singleton.mpr (hword _ known)
  | tuple elements ih =>
    exact List.forall_mem_cons.mpr ⟨hopening, List.forall_mem_append.mpr
      ⟨ih, List.forall_mem_singleton.mpr hclosing⟩⟩
  | bare _ ih | single _ ih | last _ ih => exact ih
  | array item ih =>
    exact List.forall_mem_append.mpr ⟨ih, List.forall_mem_cons.mpr
      ⟨hopening, List.forall_mem_singleton.mpr hclosing⟩⟩
  | optional item ih => exact List.forall_mem_append.mpr ⟨ih, List.forall_mem_singleton.mpr hquestion⟩
  | barred operand ih => exact List.forall_mem_cons.mpr ⟨hbar, ih⟩
  | union left right ihleft ihright =>
    exact List.forall_mem_append.mpr ⟨ihleft, List.forall_mem_cons.mpr ⟨hbar, ihright⟩⟩
  | empty => exact List.forall_mem_nil p
  | comma element behind ih ihbehind =>
    exact List.forall_mem_append.mpr ⟨ih, List.forall_mem_cons.mpr ⟨hcomma, ihbehind⟩⟩

/-- The tokens of a variable with a type. -/
def declaration (name : String) (t : TypeTerm .union) : List Lexeme :=
  .keyword .letWord :: .identifier name.toList :: .punctuation .colon ::
    (t.lexemes ++ [.punctuation .semicolon])

/-- A variable with a type, with a space between the tokens. -/
def annotated (name : String) (t : TypeTerm .union) : String := .ofList (Lexeme.spaced (t.declaration name))

def annotationSketch (t : TypeTerm .union) : Sketch :=
  .node .typeAscription (.mark .colon :: t.sketches.map (·.withField .type))

def declarationSketch (name : String) (t : TypeTerm .union) : Sketch :=
  .node .variableDeclaration [(Sketch.named .letMark "let").withField .kind,
    (Sketch.named .identifier name).withField .declaredName, t.annotationSketch, .mark .semicolon]

section Annotated
variable {name : String} {t : TypeTerm .union}

theorem writtenIn_annotated (hname : isName name = true) :
    Lexeme.WrittenIn (t.annotated name) (t.declaration name) := by
  have hall : ∀ l ∈ t.declaration name, l.Writable ∧ l ≠ .operator .divide := by
    have hmark {mark : Punctuation} (h : mark ∉ [.backtick, .dollarBrace, .doubleQuote, .singleQuote]) :
        (Lexeme.punctuation mark).Writable ∧ Lexeme.punctuation mark ≠ .operator .divide :=
      ⟨Lexeme.writable_punctuation h, by simp⟩
    refine List.forall_mem_cons.mpr ⟨⟨Lexeme.writable_keyword rfl, by simp⟩, List.forall_mem_cons.mpr
      ⟨⟨Lexeme.writable_identifier hname, by simp⟩, List.forall_mem_cons.mpr ⟨hmark (by simp),
        List.forall_mem_append.mpr ⟨?_, List.forall_mem_singleton.mpr (hmark (by simp))⟩⟩⟩⟩
    refine t.forall_lexemes (fun name hname => ⟨Lexeme.writable_identifier hname, by simp⟩)
      (fun entry hentry => ⟨Lexeme.writable_keyword ?_, by simp⟩)
      ⟨Lexeme.writable_operator (o := .bitOr) rfl, by simp⟩ fun mark h => hmark ?_
    · revert hentry
      exact (by decide : ∀ word ∈ wordTypes.map Prod.fst, word.isReserved = true) _ ∘
        List.mem_map_of_mem
    · exact (by decide : ∀ mark ∈ [Punctuation.leftBracket, .rightBracket, .question, .comma],
        mark ∉ [Punctuation.backtick, .dollarBrace, .doubleQuote, .singleQuote]) mark h
  exact Lexeme.writtenIn_spaced (fun l hl => (hall l hl).1)
    (Lexeme.dividesBehind_of_ne (fun l hl => (hall l hl).2) false)

theorem kinds_declaration : (t.declaration name).filterMap (·.tokenKind? 0) =
    .keyword .letWord :: .identifier name :: .punctuation .colon ::
      (t.kinds ++ [.punctuation .semicolon]) := by
  simp [declaration, kinds]

variable {source : String} {tokens : Array Token} {maxDepth levels : Nat} {rest : List TokenKind}

/-- A variable with a type is a statement, two levels above the type. -/
theorem yields_statement (hspells : AllSpelled source tokens) (hlevels : t.nesting ≤ levels) :
    Yields (.withLevels tokens maxDepth (levels + 2)) statement
      (.keyword .letWord :: .identifier name :: .punctuation .colon ::
        (t.kinds ++ .punctuation .semicolon :: rest)) rest
      (·.sketch source = t.declarationSketch name) := by
  have hascription : Yields (.withLevels tokens maxDepth (levels + 1)) typeAscription
      (.punctuation .colon :: (t.kinds ++ .punctuation .semicolon :: rest))
      (.punctuation .semicolon :: rest) (·.sketch source = t.annotationSketch) := by
    refine (Yields.expect_sketch hspells).bind fun colon hcolon => ?_
    refine ((reads hspells t).whole (Nat.succ_le_succ hlevels) (by simp [Ends]) (by simp)).bind
      fun type htype => ?_
    have hchildren : [colon, type.withField .type].map (·.sketch source) =
        .mark .colon :: t.sketches.map (·.withField .type) := by
      rw [← htype, List.map_cons, List.map_singleton, hcolon, Node.sketch_withField]
      rfl
    exact Yields.node_sketch hchildren (by simp)
  have hdeclaration : Yields (.withLevels tokens maxDepth (levels + 1)) variableDeclaration
      (.keyword .letWord :: .identifier name :: .punctuation .colon ::
        (t.kinds ++ .punctuation .semicolon :: rest)) rest
      (·.sketch source = t.declarationSketch name) := by
    refine Yields.seesWord.bind fun b hb => ?_
    subst hb
    refine (Yields.bumpAs_sketch hspells rfl).bind fun word hword => ?_
    refine (Yields.expectIdentifier_sketch hspells).bind fun declared hdeclared => ?_
    refine Yields.sees.bind fun b hb => ?_
    subst hb
    refine (hascription.bind fun n hn => .pure ⟨n, rfl, hn⟩ :
      Yields _ _ _ _ fun type => ∃ n, type = #[n] ∧ n.sketch source = t.annotationSketch).bind
        fun type htype => ?_
    obtain ⟨ascription, rfl, htype⟩ := htype
    refine Yields.seesOperator.bind fun b hb => ?_
    subst hb
    refine Yields.bind (.pure rfl) fun value hvalue => ?_
    subst hvalue
    refine (Yields.expectOrMissing_sketch hspells).bind fun stop hstop => ?_
    refine Yields.node_sketch ?_ (by simp)
    replace hword : word.sketch source = .named .letMark "let" := hword
    simp [hword, hdeclared, htype, hstop]
  have hstatement : Yields (.withLevels tokens maxDepth (levels + 1)) anyStatement
      (.keyword .letWord :: .identifier name :: .punctuation .colon ::
        (t.kinds ++ .punctuation .semicolon :: rest)) rest
      (·.sketch source = t.declarationSketch name) := by
    refine Yields.peekKind.bind fun kind hkind => ?_
    subst hkind
    exact hdeclaration
  exact hstatement

end Annotated

end TypeTerm

/-- The annotation of a variable is read as the nodes that its type becomes, given a level for each tuple
around the type that stands deepest and two more. -/
theorem parse_annotated (t : TypeTerm .union) {name : String} (hname : isName name = true)
    {maxDepth : Nat} (hdepth : t.nesting + 2 ≤ maxDepth) :
    let tree := parse (t.annotated name) { maxDepth }
    tree.problems = [] ∧ tree.sketch 0 = .node .program [t.declarationSketch name] ∧
      ∃ declaration ascription type, tree.children 0 = #[declaration] ∧
        tree.child? declaration 2 = some ascription ∧
        tree.childWithField? ascription .type = some type ∧
        [tree.sketch type] = t.sketches.map (·.withField .type) := by
  intro tree
  obtain ⟨levels, rfl⟩ : ∃ levels, maxDepth = levels + 2 := ⟨maxDepth - 2, by omega⟩
  have hwritten := TypeTerm.writtenIn_annotated (t := t) hname
  obtain ⟨n, hn, htree⟩ := hwritten.parse_eq (by simp [TypeTerm.kinds_declaration]) (by
    rw [TypeTerm.kinds_declaration, List.cons_append, List.cons_append, List.cons_append,
      List.append_assoc]
    exact TypeTerm.yields_statement hwritten.spells (Nat.le_of_add_le_add_right hdepth))
  have hsits : Sits (rootNode (t.annotated name).utf8ByteSize [n]) 1 (some 0) n :=
    @Sits.child _ 0 none _ [] n [] .root rfl
  obtain ⟨ascription, m, hascription, hbelow, hm⟩ := hsits.exists_child?_of_sketch hn (i := 2) rfl
  obtain ⟨s, hs⟩ := t.exists_sketch (by simp)
  have hfield : (.mark .colon :: t.sketches.map (·.withField .type)).find?
      (·.field == some .type) = some (s.withField .type) := by
    simp [hs]
  obtain ⟨type, c, htype, hdeeper, hc⟩ := hbelow.exists_childWithField_of_sketch hm hfield
  rw [show tree = _ from htree]
  refine ⟨rfl, ?_, 1, ascription, type, Sits.root.children_eq, hascription, htype, ?_⟩
  · rw [Sits.root.sketch_eq, rootNode_sketch, hn]
  · rw [hdeeper.sketch_eq, hc, hs, List.map_singleton]

/-- `| string[]? | [Box, [],]` -/
def TypeTerm.sample : TypeTerm .union :=
  .union (.barred (.optional (.array (.bare (.name "string" (by decide +kernel))))))
    (.bare (.tuple (.comma (.single (.bare (.name "Box" (by decide +kernel))))
      (.comma (.single (.bare (.tuple .empty))) .empty))))

theorem parse_annotated_sample : isName "x" = true ∧ TypeTerm.sample.nesting + 2 ≤ 3 ∧
    (parse (TypeTerm.sample.annotated "x") { maxDepth := 3 }).problems = [] ∧
    (parse (TypeTerm.sample.annotated "x") { maxDepth := 3 }).sketch 0 =
      .node .program [TypeTerm.sample.declarationSketch "x"] := by
  have hname : isName "x" = true := by decide +kernel
  have hdepth : TypeTerm.sample.nesting + 2 ≤ 3 := by decide +kernel
  obtain ⟨hproblems, hsketch, _⟩ := parse_annotated TypeTerm.sample hname hdepth
  exact ⟨hname, hdepth, hproblems, hsketch⟩

example : TypeTerm.sample.annotated "x" = "let x : | string [ ] ? | [ Box , [ ] , ] ;" := by
  decide +kernel

end ScriptTree
