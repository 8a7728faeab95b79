import Mathlib
import ScriptTree.Proofs.Printing.Brackets
import ScriptTree.Proofs.Printing.Climbing
import ScriptTree.Proofs.Printing.Programs

/-! Patterns are read back from their text.

A pattern is written in layers: targets, targets with a default, the items of arrays and objects, and
lists of items (`PatternTerm`). Each says which tokens it is written with, and which nodes it becomes. What
is taken apart by a pattern is assigned to the nodes that the pattern becomes, given a level for each of
its tokens and four more (`parse_destructured`). -/
namespace ScriptTree

open Parsing

/-! ### Patterns as they are written -/

/-- A value that a default may have. -/
inductive SimpleValue where
  | name (text : String) (spelled : isName text = true)
  | integer (digits : String) (spelled : isInteger digits = true)

namespace SimpleValue

def lexeme : SimpleValue → Lexeme
  | name text _ => .identifier text.toList
  | integer digits _ => .number digits.toList none

def kind : SimpleValue → TokenKind
  | name text _ => .identifier text
  | integer digits _ => .number digits

def sketch : SimpleValue → Sketch
  | name text _ => .node .primaryExpression [.named .identifier text]
  | integer digits _ => .node .primaryExpression [.named .number digits]

end SimpleValue

/-- The name of a property, which is private with a mark in front. -/
inductive PropertyKey where
  | plain (text : String) (spelled : isName text = true)
  | hashed (text : String) (spelled : isName text = true)

namespace PropertyKey

def lexemes : PropertyKey → List Lexeme
  | plain text _ => [.identifier text.toList]
  | hashed text _ => [.punctuation .hash, .identifier text.toList]

def kinds : PropertyKey → List TokenKind
  | plain text _ => [.identifier text]
  | hashed text _ => [.punctuation .hash, .identifier text]

/-- The node of a name, where one that is not private is a leaf of this kind. -/
def sketch (leaf : NodeKind) : PropertyKey → Sketch
  | plain text _ => .named leaf text
  | hashed text _ => .node .privatePropertyIdentifier [.mark .hash, .named .identifier text]

/-- The node of a name by itself in an object. -/
def shorthandSketch : PropertyKey → Sketch
  | plain text _ => .named .shorthandPropertyIdentifierPattern text
  | hashed text h => .node .shorthandPropertyIdentifierPattern [sketch .identifier (hashed text h)]

end PropertyKey

inductive PatternShape where
  | array
  | object

namespace PatternShape

def opening : PatternShape → Punctuation
  | array => .leftBracket
  | object => .leftBrace

def closing : PatternShape → Punctuation
  | array => .rightBracket
  | object => .rightBrace

def kind : PatternShape → NodeKind
  | array => .arrayPattern
  | object => .objectPattern

/-- How a pattern is parsed. -/
def parser : PatternShape → Parse Node
  | array => arrayPattern
  | object => objectPattern

/-- How an item is parsed. -/
def item : PatternShape → Parse Node
  | array => patternWithDefault
  | object => objectPatternMember

theorem parser_eq (shape : PatternShape) :
    shape.parser = listOf shape.kind shape.opening shape.closing shape.item := by
  cases shape <;> rfl

end PatternShape

/-- The layers of patterns. -/
inductive PatternLayer where
  | target
  /-- A target with or without a default. -/
  | value
  | item (shape : PatternShape)
  /-- What stands in the brackets of a pattern. -/
  | items (shape : PatternShape)

/-- A pattern as it is written. -/
inductive PatternTerm : PatternLayer → Type where
  | name (text : String) (spelled : isName text = true) : PatternTerm .target
  | access (object : String) (spelled : isName object = true) (optional : Bool)
      (property : PropertyKey) : PatternTerm .target
  | nested (shape : PatternShape) (items : PatternTerm (.items shape)) : PatternTerm .target
  | bare (target : PatternTerm .target) : PatternTerm .value
  | withDefault (target : PatternTerm .target) (value : SimpleValue) : PatternTerm .value
  | element (value : PatternTerm .value) : PatternTerm (.item .array)
  | shorthand (key : PropertyKey) : PatternTerm (.item .object)
  | pair (key : PropertyKey) (value : PatternTerm .value) : PatternTerm (.item .object)
  | rest (shape : PatternShape) (target : PatternTerm .target) : PatternTerm (.item shape)
  | empty (shape : PatternShape) : PatternTerm (.items shape)
  | last (shape : PatternShape) (item : PatternTerm (.item shape)) : PatternTerm (.items shape)
  /-- A comma may stand behind the last item as well. -/
  | comma (shape : PatternShape) (item : PatternTerm (.item shape))
      (behind : PatternTerm (.items shape)) : PatternTerm (.items shape)
  | hole (shape : PatternShape) (behind : PatternTerm (.items shape)) : PatternTerm (.items shape)

namespace PatternTerm

/-- The mark of an access. -/
def chainMark (optional : Bool) : Punctuation := if optional then .questionDot else .dot

def chainSketch (optional : Bool) : Sketch :=
  if optional then (Sketch.named .optionalChain "?.").withField .optionalChain else .mark .dot

def accessSketch (object : String) (optional : Bool) (property : PropertyKey) : Sketch :=
  .node .memberExpression [
    (Sketch.node .primaryExpression [.named .identifier object]).withField .object,
    chainSketch optional, (property.sketch .propertyIdentifier).withField .property]

def lexemes : {layer : PatternLayer} → PatternTerm layer → List Lexeme
  | _, name text _ => [.identifier text.toList]
  | _, access object _ optional property =>
    .identifier object.toList :: .punctuation (chainMark optional) :: property.lexemes
  | _, nested shape items =>
    .punctuation shape.opening :: (items.lexemes ++ [.punctuation shape.closing])
  | _, bare target => target.lexemes
  | _, withDefault target value => target.lexemes ++ [.operator .assign, value.lexeme]
  | _, element value => value.lexemes
  | _, shorthand key => key.lexemes
  | _, pair key value => key.lexemes ++ .punctuation .colon :: value.lexemes
  | _, rest _ target => .punctuation .ellipsis :: target.lexemes
  | _, empty _ => []
  | _, last _ item => item.lexemes
  | _, comma _ item behind => item.lexemes ++ .punctuation .comma :: behind.lexemes
  | _, hole _ behind => .punctuation .comma :: behind.lexemes

/-- The nodes that a pattern becomes: one, and between brackets the items with their commas. -/
def sketches : {layer : PatternLayer} → PatternTerm layer → List Sketch
  | _, name text _ => [.named .identifier text]
  | _, access object _ optional property => [accessSketch object optional property]
  | _, nested shape items =>
    [.node shape.kind (.mark shape.opening :: (items.sketches ++ [.mark shape.closing]))]
  | _, bare target => [.node .pattern target.sketches]
  | _, withDefault target value =>
    [.node .assignmentPattern [(Sketch.node .pattern target.sketches).withField .left, .sign .assign,
      value.sketch.withField .right]]
  | _, element value => value.sketches
  | _, shorthand key => [key.shorthandSketch]
  | _, pair key value =>
    [.node .pairPattern ((key.sketch .identifier).withField .key :: .mark .colon ::
      value.sketches.map (·.withField .value))]
  | _, rest .array target =>
    [.node .pattern [.node .restPattern (.mark .ellipsis :: target.sketches)]]
  | _, rest .object target => [.node .restPattern (.mark .ellipsis :: target.sketches)]
  | _, empty _ => []
  | _, last _ item => item.sketches
  | _, comma _ item behind => item.sketches ++ .mark .comma :: behind.sketches
  | _, hole _ behind => .mark .comma :: behind.sketches

def kinds {layer : PatternLayer} (t : PatternTerm layer) : List TokenKind :=
  t.lexemes.filterMap (·.tokenKind? 0)

section Kinds
variable {shape : PatternShape} {items : PatternTerm (.items shape)} {item : PatternTerm (.item shape)}
  {target : PatternTerm .target} {value : PatternTerm .value}

@[simp] theorem tokenKind?_simple (v : SimpleValue) (start : Nat) :
    v.lexeme.tokenKind? start = some v.kind := by
  cases v <;> simp [SimpleValue.lexeme, SimpleValue.kind]

@[simp] theorem filterMap_key (key : PropertyKey) :
    key.lexemes.filterMap (·.tokenKind? 0) = key.kinds := by
  cases key <;> simp [PropertyKey.lexemes, PropertyKey.kinds]

@[simp] theorem kinds_name (text : String) (h : isName text = true) :
    (name text h).kinds = [.identifier text] := by
  simp [kinds, lexemes]

@[simp] theorem kinds_access (object : String) (h : isName object = true) (optional : Bool)
    (property : PropertyKey) : (access object h optional property).kinds =
      .identifier object :: .punctuation (chainMark optional) :: property.kinds := by
  simp [kinds, lexemes]

@[simp] theorem kinds_nested : (nested shape items).kinds =
    .punctuation shape.opening :: (items.kinds ++ [.punctuation shape.closing]) := by
  simp [kinds, lexemes]

@[simp] theorem kinds_bare : (bare target).kinds = target.kinds := rfl

@[simp] theorem kinds_withDefault (v : SimpleValue) :
    (withDefault target v).kinds = target.kinds ++ [.operator .assign, v.kind] := by
  simp [kinds, lexemes]

@[simp] theorem kinds_element : (element value).kinds = value.kinds := rfl

@[simp] theorem kinds_shorthand (key : PropertyKey) : (shorthand key).kinds = key.kinds :=
  filterMap_key key

@[simp] theorem kinds_pair (key : PropertyKey) :
    (pair key value).kinds = key.kinds ++ .punctuation .colon :: value.kinds := by
  simp [kinds, lexemes]

@[simp] theorem kinds_rest : (rest shape target).kinds = .punctuation .ellipsis :: target.kinds := by
  simp [kinds, lexemes]

@[simp] theorem kinds_empty : (empty shape).kinds = [] := rfl

@[simp] theorem kinds_last : (last shape item).kinds = item.kinds := rfl

@[simp] theorem kinds_comma :
    (comma shape item items).kinds = item.kinds ++ .punctuation .comma :: items.kinds := by
  simp [kinds, lexemes]

@[simp] theorem kinds_hole : (hole shape items).kinds = .punctuation .comma :: items.kinds := by
  simp [kinds, lexemes]

end Kinds

/-- Whether what is no list may begin with a token. Only items may begin with an ellipsis. -/
def Opens (layer : PatternLayer) (k : TokenKind) : Prop :=
  k ∉ [.punctuation .rightBracket, .punctuation .rightBrace, .punctuation .comma] ∧
    (layer = .target ∨ layer = .value → k ≠ .punctuation .ellipsis)

theorem exists_opens {layer : PatternLayer} (t : PatternTerm layer) (h : ∀ shape, layer ≠ .items shape) :
    ∃ k ks, t.kinds = k :: ks ∧ Opens layer k := by
  have hkey {layer : PatternLayer} (key : PropertyKey) (behind : List TokenKind) :
      ∃ k ks, key.kinds ++ behind = k :: ks ∧ Opens layer k := by
    cases key <;> exact ⟨_, _, rfl, by simp [Opens]⟩
  induction t with
  | name text spelled => exact ⟨_, _, kinds_name text spelled, by simp [Opens]⟩
  | access => exact ⟨_, _, kinds_access .., by simp [Opens]⟩
  | nested shape => exact ⟨_, _, kinds_nested, by cases shape <;> simp [Opens, PatternShape.opening]⟩
  | bare target ih =>
    obtain ⟨k, ks, hks, hclosing, hdots⟩ := ih (by simp)
    exact ⟨k, ks, hks, hclosing, fun _ => hdots (.inl rfl)⟩
  | withDefault target v ih =>
    obtain ⟨k, ks, hks, hclosing, hdots⟩ := ih (by simp)
    exact ⟨k, _, by rw [kinds_withDefault, hks, List.cons_append], hclosing, fun _ => hdots (.inl rfl)⟩
  | element value ih =>
    obtain ⟨k, ks, hks, hclosing, _⟩ := ih (by simp)
    exact ⟨k, ks, hks, hclosing, by simp⟩
  | shorthand key =>
    rw [kinds_shorthand, ← List.append_nil key.kinds]
    exact hkey key []
  | pair key value =>
    rw [kinds_pair]
    exact hkey key _
  | rest shape target => exact ⟨_, _, kinds_rest, by simp [Opens]⟩
  | empty shape | last shape | comma shape | hole shape => exact absurd rfl (h shape)

/-- An item begins with no mark of the list that it stands in. -/
theorem opensItem {shape : PatternShape} (t : PatternTerm (.item shape)) :
    OpensItem shape.closing t.kinds := by
  obtain ⟨k, ks, hks, hclosing, _⟩ := t.exists_opens (by simp)
  refine ⟨k, ks, hks, ?_, fun hk => hclosing (by simp [hk])⟩
  cases shape
  · exact fun hk => hclosing (by simp [hk, PatternShape.closing])
  · exact fun hk => hclosing (by simp [hk, PatternShape.closing])

/-- The brackets of a pattern are closed. -/
theorem wellBracketed {layer : PatternLayer} (t : PatternTerm layer) : WellBracketed t.kinds := by
  have hmark {mark : Punctuation} {ks : List TokenKind} (hflat : bracket? (.punctuation mark) = none)
      (h : WellBracketed ks) : WellBracketed (.punctuation mark :: ks) :=
    .cons hflat (by simp) h
  have hkey (key : PropertyKey) : WellBracketed key.kinds := by
    cases key with
    | plain => exact .atom rfl (by simp)
    | hashed => exact hmark rfl (.atom rfl (by simp))
  induction t with
  | name text spelled =>
    rw [kinds_name]
    exact .atom rfl (by simp)
  | access object _ optional property =>
    rw [kinds_access]
    exact .cons rfl (by simp) (hmark (by cases optional <;> rfl) (hkey property))
  | nested shape items ih =>
    rw [kinds_nested]
    exact .bracketed (by cases shape <;> rfl) ih (by cases shape <;> rfl)
  | bare _ ih | element _ ih | last _ _ ih => exact ih
  | withDefault target v ih =>
    rw [kinds_withDefault]
    exact .append ih (.cons rfl (by simp) (.atom (by cases v <;> rfl) (by cases v <;> simp [SimpleValue.kind])))
  | shorthand key =>
    rw [kinds_shorthand]
    exact hkey key
  | pair key value ih =>
    rw [kinds_pair]
    exact .append (hkey key) (hmark rfl ih)
  | rest shape target ih =>
    rw [kinds_rest]
    exact hmark rfl ih
  | empty => exact .nil
  | comma shape item behind ih ihbehind =>
    rw [kinds_comma]
    exact .append ih (hmark rfl ihbehind)
  | hole shape behind ih =>
    rw [kinds_hole]
    exact hmark rfl ih

/-! ### What is read -/

/-- The marks that end an item. -/
def Ends (mark : Punctuation) : Prop := mark ∈ [.comma, .rightBracket, .rightBrace]

/-- Whether an operand is over in front of a token. -/
def EndsOperand (k : TokenKind) : Prop :=
  k ∉ [.punctuation .leftParen, .punctuation .dot, .punctuation .questionDot]

theorem Ends.stops {mark : Punctuation} (h : Ends mark) : Stops 0 (.punctuation mark) := by
  refine .of_mark 0 ?_
  revert mark
  exact (by decide : ∀ mark ∈ [Punctuation.comma, .rightBracket, .rightBrace],
    mark ∈ [Punctuation.rightParen, .rightBracket, .rightBrace, .comma, .semicolon]) _

theorem Ends.ne_colon {mark : Punctuation} (h : Ends mark) :
    (TokenKind.punctuation mark).isPunctuation .colon = false := by
  revert mark
  exact (by decide : ∀ mark ∈ [Punctuation.comma, .rightBracket, .rightBrace],
    (TokenKind.punctuation mark).isPunctuation .colon = false) _

theorem ends_closing (shape : PatternShape) : Ends shape.closing := by
  cases shape <;> simp [Ends, PatternShape.closing]

section Simple
variable {source : String} {rest : List TokenKind}

/-- A simple value is read as its node. -/
theorem yields_simple {tokens : Array Token} (hspells : AllSpelled source tokens) (v : SimpleValue)
    {k : TokenKind} (hstops : Stops 0 k) (maxDepth levels : Nat) :
    Yields (.withLevels tokens maxDepth (levels + 1)) expression (v.kind :: k :: rest) (k :: rest)
      (·.sketch source = v.sketch) := by
  have hwrapped {kind : NodeKind} {text : String} {ks : List TokenKind}
      (h : Yields (.withLevels tokens maxDepth levels) primaryContent ks (k :: rest)
        (·.sketch source = .named kind text)) :
      Yields (.withLevels tokens maxDepth levels) operand ks (k :: rest)
        (·.sketch source = .node .primaryExpression [.named kind text]) := by
    refine .operand h fun inner hinner => extend_stops hstops.uncalled ?_
    rw [Node.sketch_ofChildren (by simp), List.map_singleton, hinner]
  have hoperand : Yields (.withLevels tokens maxDepth levels) operand (v.kind :: k :: rest) (k :: rest)
      (·.sketch source = v.sketch) := by
    cases v with
    | name text => exact hwrapped (.sketch_leaf hspells rfl (Yields.primaryContent_name text))
    | integer digits => exact hwrapped (.sketch_leaf hspells rfl (Yields.primaryContent_number digits))
  have hwhole : Yields (.withLevels tokens maxDepth levels) (do assignmentOr (← operand))
      (v.kind :: k :: rest) (k :: rest) (·.sketch source = v.sketch) :=
    hoperand.bind fun n hn => assignmentOr_stops hstops hn
  have hunary : Yields (.withLevels tokens maxDepth levels) unary (v.kind :: k :: rest) (k :: rest)
      (·.sketch source = v.sketch) := by
    refine Yields.peekKind.bind fun kind hkind => ?_
    subst hkind
    cases v <;> exact hwhole
  have hbinary : Yields (.withLevels tokens maxDepth levels) (binary 0) (v.kind :: k :: rest) (k :: rest)
      (·.sketch source = v.sketch) :=
    hunary.bind fun n hn => (operateOn_stops hstops hn).repeatFrom
  exact hbinary

variable {scope : Scope} (hspells : AllSpelled source scope.tokens)
include hspells

/-- A private name. -/
theorem yields_privateName (text : String) :
    Yields scope privateName (.punctuation .hash :: .identifier text :: rest) rest
      (·.sketch source = .node .privatePropertyIdentifier [.mark .hash, .named .identifier text]) := by
  refine (Yields.expect_sketch hspells).bind fun mark hmark => ?_
  refine (Yields.expectIdentifier_sketch hspells).bind fun name hname => ?_
  refine Yields.node_sketch ?_ (by simp)
  simp [hmark, hname]

theorem yields_propertyName (key : PropertyKey) :
    Yields scope propertyName (key.kinds ++ rest) rest
      (·.sketch source = key.sketch .propertyIdentifier) := by
  cases key with
  | plain text =>
    refine Yields.sees.bind fun b hb => ?_
    subst hb
    exact Yields.expectIdentifier_sketch hspells
  | hashed text =>
    refine Yields.sees.bind fun b hb => ?_
    subst hb
    exact yields_privateName hspells text

theorem yields_accessMark (optional : Bool) :
    Yields scope accessMark (.punctuation (chainMark optional) :: rest) rest
      (·.sketch source = chainSketch optional) := by
  refine Yields.sees.bind fun b hb => ?_
  subst hb
  cases optional with
  | false => exact Yields.bump_sketch hspells rfl
  | true =>
    refine (Yields.bumpAs_sketch hspells rfl).bind fun n hn => .pure ?_
    rw [Node.sketch_withField, hn]
    rfl

omit hspells in
/-- A name or member that is assigned to. -/
theorem yields_target {text : String} {ks ks' : List TokenKind} {s : Sketch}
    (h : Yields scope operand (.identifier text :: ks) ks' fun n => ∃ inner,
      (inner.kind? = some .identifier ∨ inner.kind? = some .memberExpression) ∧
        inner.sketch source = s ∧ n = .ofChildren .primaryExpression [inner]) :
    Yields scope target (.identifier text :: ks) ks' (·.sketch source = s) := by
  refine Yields.peekKind.bind fun kind hkind => ?_
  subst hkind
  refine h.bind fun n hn => ?_
  obtain ⟨inner, hkind, hsketch, rfl⟩ := hn
  have hallowed : inner.kind?.any [NodeKind.identifier, .memberExpression].contains = true := by
    rcases hkind with hkind | hkind <;> rw [hkind] <;> rfl
  have htarget : assignmentTarget (.ofChildren .primaryExpression [inner])
      [.identifier, .memberExpression] = pure inner := by
    rw [assignmentTarget, Node.ofChildren]
    dsimp only
    rw [hallowed]
    rfl
  rw [htarget]
  exact .pure hsketch

theorem yields_target_name (text : String) {k : TokenKind} (hends : EndsOperand k) :
    Yields scope target (.identifier text :: k :: rest) (k :: rest)
      (·.sketch source = .named .identifier text) := by
  refine yields_target ((Yields.operand_name text hends).mono fun n hn => ?_)
  obtain ⟨i, hkind, rfl⟩ := hn
  exact ⟨_, .inl rfl, by rw [Node.sketch_leaf, hspells.slice_eq hkind rfl]; rfl, rfl⟩

theorem yields_target_access (object : String) (optional : Bool) (property : PropertyKey) {k : TokenKind}
    (hends : EndsOperand k) :
    Yields scope target
      (.identifier object :: .punctuation (chainMark optional) :: (property.kinds ++ k :: rest))
      (k :: rest) (·.sketch source = accessSketch object optional property) := by
  obtain ⟨first, behind, hfirst, hcall⟩ : ∃ first behind, property.kinds = first :: behind ∧
      first ≠ .punctuation .leftParen := by
    cases property <;> exact ⟨_, _, rfl, by simp⟩
  have hproperty : Yields scope propertyName (property.kinds ++ k :: rest) (k :: rest)
      (·.sketch source = property.sketch .propertyIdentifier) :=
    yields_propertyName hspells property
  rw [hfirst, List.cons_append] at hproperty ⊢
  refine yields_target (.operand (Yields.sketch_leaf hspells rfl (Yields.primaryContent_name object))
    fun inner hinner => .more (.extend_access (by cases optional <;> simp [chainMark, hcall])
      ((Yields.access rfl (yields_accessMark hspells optional) hproperty).mono fun n hn => ?_)) (by simp; omega))
  obtain ⟨mark, name, hmark, hname, rfl⟩ := hn
  refine extend_stops hends ⟨_, .inr rfl, ?_, rfl⟩
  rw [Node.sketch_ofChildren (by simp)]
  simp [Node.sketch_ofChildren, hinner, hmark, hname, accessSketch, Sketch.named, TokenKind.spelling]

end Simple

section Reading
variable (source : String) (tokens : Array Token) (maxDepth : Nat)

/-- Whether a pattern is read as the nodes that it becomes, given a level for each token. A target needs
one less. -/
def Reads : {layer : PatternLayer} → PatternTerm layer → Prop
  | .target, t => ∀ levels k rest, t.lexemes.length ≤ levels + 1 → EndsOperand k →
    Yields (.withLevels tokens maxDepth levels) target (t.kinds ++ k :: rest) (k :: rest)
      fun n => [n.sketch source] = t.sketches
  | .value, t => ∀ levels mark rest, t.lexemes.length ≤ levels → Ends mark →
    Yields (.withLevels tokens maxDepth levels) patternWithDefault
      (t.kinds ++ .punctuation mark :: rest) (.punctuation mark :: rest)
      fun n => [n.sketch source] = t.sketches
  | .item shape, t => ∀ levels mark rest, t.lexemes.length ≤ levels → Ends mark →
    Yields (.withLevels tokens maxDepth levels) shape.item
      (t.kinds ++ .punctuation mark :: rest) (.punctuation mark :: rest)
      fun n => [n.sketch source] = t.sketches
  | .items shape, t => ∀ levels rest, t.lexemes.length ≤ levels →
    ReadsList source (.withLevels tokens maxDepth levels) shape.closing shape.item rest t.kinds t.sketches

end Reading

section Steps
variable {source : String} {tokens : Array Token} {maxDepth levels : Nat} {rest : List TokenKind}
  {shape : PatternShape} {t : PatternTerm .target} {v : PatternTerm .value}

theorem length_pos {layer : PatternLayer} (t : PatternTerm layer) (h : ∀ shape, layer ≠ .items shape) :
    0 < t.lexemes.length := by
  obtain ⟨k, ks, hks, _⟩ := t.exists_opens h
  refine List.length_pos_of_ne_nil fun hnil => ?_
  simp [kinds, hnil] at hks

/-- A pattern, one level below what stands in it. -/
theorem yields_pattern {ks ks' : List TokenKind} {below : List Sketch}
    (h : Yields (.withLevels tokens maxDepth levels) patternContent ks ks'
      fun n => [n.sketch source] = below) :
    Yields (.withLevels tokens maxDepth (levels + 1)) (descend .pattern) ks ks'
      (·.sketch source = .node .pattern below) := by
  have hpattern : Yields (.withLevels tokens maxDepth levels) pattern ks ks'
      (·.sketch source = .node .pattern below) := by
    refine h.bind fun n hn => Yields.node_sketch ?_ (by simp [← hn])
    rw [← hn]
    rfl
  exact hpattern

theorem Reads.pattern (h : Reads source tokens maxDepth t) {k : TokenKind}
    (hlevels : t.lexemes.length ≤ levels) (hends : EndsOperand k) :
    Yields (.withLevels tokens maxDepth levels) (descend .pattern) (t.kinds ++ k :: rest) (k :: rest)
      (·.sketch source = .node .pattern t.sketches) := by
  have hpositive := t.length_pos (by simp)
  obtain ⟨levels, rfl⟩ : ∃ n, levels = n + 1 := ⟨levels - 1, by omega⟩
  obtain ⟨first, ks, hks, _, hdots⟩ := t.exists_opens (by simp)
  have htarget := h levels k rest hlevels hends
  rw [hks, List.cons_append] at htarget ⊢
  refine yields_pattern (Yields.sees.bind fun b hb => ?_)
  rw [hb, show first.isPunctuation .ellipsis = false from beq_false_of_ne (hdots (.inl rfl))]
  exact htarget

/-- A pattern without a default behind it. -/
theorem yields_withoutDefault {scope : Scope} {ks : List TokenKind} {mark : Punctuation}
    {post : Node → Prop}
    (h : Yields scope (descend .pattern) ks (.punctuation mark :: rest) post) :
    Yields scope patternWithDefault ks (.punctuation mark :: rest) post := by
  refine h.bind fun n hn => Yields.seesOperator.bind fun b hb => ?_
  subst hb
  exact .pure hn

theorem reads_bare (h : Reads source tokens maxDepth t) : Reads source tokens maxDepth (bare t) := by
  intro levels mark rest hlevels hends
  refine (yields_withoutDefault (h.pattern hlevels hends.stops.uncalled)).mono fun n hn => ?_
  rw [hn, sketches]

variable (hspells : AllSpelled source tokens)
include hspells

/-- What collects everything left over. -/
theorem Reads.restPattern (h : Reads source tokens maxDepth t) {k : TokenKind}
    (hlevels : t.lexemes.length ≤ levels + 1) (hends : EndsOperand k) :
    Yields (.withLevels tokens maxDepth levels) restPattern
      (.punctuation .ellipsis :: (t.kinds ++ k :: rest)) (k :: rest)
      (·.sketch source = .node .restPattern (.mark .ellipsis :: t.sketches)) := by
  refine (Yields.bump_sketch hspells rfl).bind fun dots hdots => ?_
  refine (h levels k rest hlevels hends).bind fun n hn => Yields.node_sketch ?_ (by simp)
  rw [← hn, List.map_cons, List.map_singleton, hdots]
  rfl

theorem reads_nested {items : PatternTerm (.items shape)} (h : Reads source tokens maxDepth items) :
    Reads source tokens maxDepth (nested shape items) := by
  intro levels k rest hlevels _
  simp only [lexemes, List.length_cons, List.length_append, List.length_nil] at hlevels
  obtain ⟨levels, rfl⟩ : ∃ n, levels = n + 1 := ⟨levels - 1, by omega⟩
  rw [kinds_nested, List.cons_append, List.append_assoc, List.singleton_append]
  have hlist : Yields (.withLevels tokens maxDepth levels) shape.parser
      (.punctuation shape.opening :: (items.kinds ++ .punctuation shape.closing :: k :: rest)) (k :: rest)
      fun n => [n.sketch source] = (nested shape items).sketches := by
    rw [shape.parser_eq]
    refine (Yields.listOf_sketch hspells (h levels (k :: rest) (by omega))).mono fun n hn => ?_
    rw [hn, sketches]
  refine Yields.peekKind.bind fun kind hkind => ?_
  subst hkind
  cases shape <;> exact hlist

theorem reads_withDefault (h : Reads source tokens maxDepth t) (value : SimpleValue) :
    Reads source tokens maxDepth (withDefault t value) := by
  intro levels mark rest hlevels hends
  simp only [lexemes, List.length_cons, List.length_append, List.length_nil] at hlevels
  obtain ⟨levels, rfl⟩ : ∃ n, levels = n + 1 := ⟨levels - 1, by omega⟩
  rw [kinds_withDefault, List.append_assoc]
  refine (h.pattern (by omega) (by simp [EndsOperand])).bind fun n hn => ?_
  refine Yields.seesOperator.bind fun b hb => ?_
  subst hb
  refine (Yields.bump_sketch hspells rfl).bind fun sign hsign => ?_
  refine (yields_simple hspells value hends.stops maxDepth levels).bind fun default hdefault => ?_
  have hchildren : [n.withField .left, sign, default.withField .right].map (·.sketch source) =
      [(Sketch.node .pattern t.sketches).withField .left, .sign .assign,
        value.sketch.withField .right] := by
    simp [hn, hsign, hdefault, TokenKind.sketch, Sketch.sign, symbolOf, TokenKind.spelling]
  refine (Yields.node_sketch hchildren (by simp)).mono fun m hm => ?_
  rw [hm, sketches]

theorem reads_shorthand (key : PropertyKey) : Reads source tokens maxDepth (shorthand key) := by
  intro levels mark rest _ hends
  rw [kinds_shorthand]
  cases key with
  | plain text =>
    refine Yields.peekKind.bind fun kind hkind => ?_
    subst hkind
    refine (Yields.kindAhead_of rfl).bind fun next hnext => ?_
    subst hnext
    rw [hends.ne_colon]
    exact (Yields.bumpAs_sketch hspells rfl).mono fun n hn => congrArg (fun s => [s]) hn
  | hashed text spelled =>
    refine Yields.peekKind.bind fun kind hkind => ?_
    subst hkind
    refine (Yields.kindAhead_of rfl).bind fun next hnext => ?_
    subst hnext
    refine (yields_privateName hspells text).bind fun name hname => ?_
    rw [hends.ne_colon]
    have hchildren : [name].map (·.sketch source) =
        [PropertyKey.sketch .identifier (.hashed text spelled)] := by
      rw [List.map_singleton, hname]
      rfl
    exact (Yields.node_sketch hchildren (by simp)).mono fun n hn => congrArg (fun s => [s]) hn

/-- What stands behind the key of a pair. -/
theorem Reads.pairRest (h : Reads source tokens maxDepth v) {mark : Punctuation}
    (hlevels : v.lexemes.length ≤ levels) (hends : Ends mark) {key : Node} {s : Sketch}
    (hkey : key.sketch source = s) :
    Yields (.withLevels tokens maxDepth levels) (pairRest key)
      (.punctuation .colon :: (v.kinds ++ .punctuation mark :: rest)) (.punctuation mark :: rest)
      (·.sketch source =
        .node .pairPattern (s.withField .key :: .mark .colon :: v.sketches.map (·.withField .value))) := by
  refine (Yields.expect_sketch hspells).bind fun colon hcolon => ?_
  refine (h levels mark rest hlevels hends).bind fun n hn => Yields.node_sketch ?_ (by simp)
  simp [← hn, hkey, hcolon]

theorem reads_pair (key : PropertyKey) (h : Reads source tokens maxDepth v) :
    Reads source tokens maxDepth (pair key v) := by
  intro levels mark rest hlevels hends
  rw [lexemes, List.length_append, List.length_cons] at hlevels
  rw [kinds_pair, List.append_assoc, List.cons_append]
  cases key with
  | plain text =>
    refine Yields.peekKind.bind fun kind hkind => ?_
    subst hkind
    refine (Yields.kindAhead_of rfl).bind fun next hnext => ?_
    subst hnext
    refine (Yields.bumpAs_sketch hspells rfl).bind fun name hname => ?_
    exact (h.pairRest hspells (by omega) hends hname).mono fun n hn => congrArg (fun s => [s]) hn
  | hashed text =>
    refine Yields.peekKind.bind fun kind hkind => ?_
    subst hkind
    refine (Yields.kindAhead_of rfl).bind fun next hnext => ?_
    subst hnext
    refine (yields_privateName hspells text).bind fun name hname => ?_
    exact (h.pairRest hspells (by omega) hends hname).mono fun n hn => congrArg (fun s => [s]) hn

theorem reads_rest (shape : PatternShape) (h : Reads source tokens maxDepth t) :
    Reads source tokens maxDepth (PatternTerm.rest shape t) := by
  intro levels mark rest hlevels hends
  rw [lexemes, List.length_cons] at hlevels
  rw [kinds_rest, List.cons_append]
  cases shape with
  | array =>
    obtain ⟨levels, rfl⟩ : ∃ n, levels = n + 1 := ⟨levels - 1, by omega⟩
    refine (yields_withoutDefault (yields_pattern (Yields.sees_self.bind fun b hb => ?_))).mono
      fun n hn => congrArg (fun s => [s]) hn
    subst hb
    exact (h.restPattern hspells (by omega) hends.stops.uncalled).mono
      fun n hn => congrArg (fun s => [s]) hn
  | object =>
    refine Yields.peekKind.bind fun kind hkind => ?_
    subst hkind
    exact (h.restPattern hspells (by omega) hends.stops.uncalled).mono
      fun n hn => congrArg (fun s => [s]) hn

/-- A pattern with everything in it. -/
theorem reads {layer : PatternLayer} (p : PatternTerm layer) : Reads source tokens maxDepth p := by
  induction p with
  | name text spelled =>
    intro levels k rest _ hends
    rw [kinds_name]
    exact (yields_target_name hspells text hends).mono fun n hn => congrArg (fun s => [s]) hn
  | access object spelled optional property =>
    intro levels k rest _ hends
    rw [kinds_access]
    exact (yields_target_access hspells object optional property hends).mono
      fun n hn => congrArg (fun s => [s]) hn
  | nested shape items ih => exact reads_nested hspells ih
  | bare target ih => exact reads_bare ih
  | withDefault target value ih => exact reads_withDefault hspells ih value
  | element value ih => exact ih
  | shorthand key => exact reads_shorthand hspells key
  | pair key value ih => exact reads_pair hspells key ih
  | rest shape target ih => exact reads_rest hspells shape ih
  | empty shape => exact fun _ _ _ => .nil
  | last shape item ih =>
    intro levels rest hlevels
    exact .last item.opensItem (by cases shape <;> simp [PatternShape.closing])
      (ih levels shape.closing rest hlevels (ends_closing shape))
  | comma shape item behind ih ihbehind =>
    intro levels rest hlevels
    rw [lexemes, List.length_append, List.length_cons] at hlevels
    rw [kinds_comma]
    exact .comma hspells (ihbehind levels rest (by omega)) item.opensItem
      (ih levels .comma _ (by omega) (by simp [Ends]))
  | hole shape behind ih =>
    intro levels rest hlevels
    rw [lexemes, List.length_cons] at hlevels
    rw [kinds_hole]
    exact .hole hspells (ih levels rest (by omega)) (by cases shape <;> simp [PatternShape.closing])

end Steps

/-! ### Assignments -/

/-- The tokens of the assignment of a name to a pattern. -/
def assignment (value : String) (p : PatternTerm .target) : List Lexeme :=
  p.lexemes ++ [.operator .assign, .identifier value.toList, .punctuation .semicolon]

/-- The assignment of a name to a pattern, with a space between the tokens. -/
def assigned (value : String) (p : PatternTerm .target) : String :=
  .ofList (Lexeme.spaced (p.assignment value))

def assignmentSketch (value : String) (p : PatternTerm .target) : Sketch :=
  .node .assignmentExpression (p.sketches.map (·.withField .left) ++ [.sign .assign,
    (Sketch.node .primaryExpression [.named .identifier value]).withField .right, .mark .semicolon])

theorem forall_lexemes {p : Lexeme → Prop} {layer : PatternLayer} (t : PatternTerm layer)
    (hname : ∀ name, isName name = true → p (.identifier name.toList))
    (hnumber : ∀ digits, isInteger digits = true → p (.number digits.toList none))
    (hassign : p (.operator .assign))
    (hmark : ∀ mark ∉ [.backtick, .dollarBrace, .doubleQuote, .singleQuote], p (.punctuation mark)) :
    ∀ l ∈ t.lexemes, p l := by
  have hcons {mark : Punctuation} {ls : List Lexeme}
      (h : mark ∉ [.backtick, .dollarBrace, .doubleQuote, .singleQuote]) (hls : ∀ l ∈ ls, p l) :
      ∀ l ∈ .punctuation mark :: ls, p l :=
    List.forall_mem_cons.mpr ⟨hmark mark h, hls⟩
  have hkey (key : PropertyKey) : ∀ l ∈ key.lexemes, p l := by
    cases key with
    | plain text spelled => exact List.forall_mem_singleton.mpr (hname text spelled)
    | hashed text spelled => exact hcons (by simp) (List.forall_mem_singleton.mpr (hname text spelled))
  have hsimple (value : SimpleValue) : p value.lexeme := by
    cases value with
    | name text spelled => exact hname text spelled
    | integer digits spelled => exact hnumber digits spelled
  induction t with
  | name text spelled => exact List.forall_mem_singleton.mpr (hname text spelled)
  | access object spelled optional property =>
    exact List.forall_mem_cons.mpr ⟨hname object spelled,
      hcons (by cases optional <;> simp [chainMark]) (hkey property)⟩
  | nested shape items ih =>
    refine hcons (by cases shape <;> simp [PatternShape.opening]) (List.forall_mem_append.mpr ⟨ih, ?_⟩)
    exact hcons (by cases shape <;> simp [PatternShape.closing]) (List.forall_mem_nil p)
  | bare _ ih | element _ ih | last _ _ ih => exact ih
  | withDefault target value ih =>
    exact List.forall_mem_append.mpr ⟨ih, List.forall_mem_cons.mpr ⟨hassign,
      List.forall_mem_singleton.mpr (hsimple value)⟩⟩
  | shorthand key => exact hkey key
  | pair key value ih => exact List.forall_mem_append.mpr ⟨hkey key, hcons (by simp) ih⟩
  | rest shape target ih => exact hcons (by simp) ih
  | empty => exact List.forall_mem_nil p
  | comma shape item behind ih ihbehind =>
    exact List.forall_mem_append.mpr ⟨ih, hcons (by simp) ihbehind⟩
  | hole shape behind ih => exact hcons (by simp) ih

section Assigned
variable {value : String} {p : PatternTerm .target}

theorem writtenIn_assigned (hvalue : isName value = true) :
    Lexeme.WrittenIn (p.assigned value) (p.assignment value) := by
  have hname (name : String) (h : isName name = true) :
      (Lexeme.identifier name.toList).Writable ∧ Lexeme.identifier name.toList ≠ .operator .divide :=
    ⟨Lexeme.writable_identifier h, by simp⟩
  have hassign : (Lexeme.operator .assign).Writable ∧ Lexeme.operator .assign ≠ .operator .divide :=
    ⟨Lexeme.writable_operator (o := .assign) rfl, by simp⟩
  have hmark (mark : Punctuation) (h : mark ∉ [.backtick, .dollarBrace, .doubleQuote, .singleQuote]) :
      (Lexeme.punctuation mark).Writable ∧ Lexeme.punctuation mark ≠ .operator .divide :=
    ⟨Lexeme.writable_punctuation h, by simp⟩
  have hnumber (digits : String) (h : isInteger digits = true) :
      (Lexeme.number digits.toList none).Writable ∧
        Lexeme.number digits.toList none ≠ .operator .divide :=
    ⟨Lexeme.writable_number h, by simp⟩
  have hpattern : ∀ l ∈ p.lexemes, l.Writable ∧ l ≠ .operator .divide :=
    p.forall_lexemes hname hnumber hassign hmark
  have hall : ∀ l ∈ p.assignment value, l.Writable ∧ l ≠ .operator .divide :=
    List.forall_mem_append.mpr ⟨hpattern, List.forall_mem_cons.mpr ⟨hassign, List.forall_mem_cons.mpr
      ⟨hname value hvalue, List.forall_mem_singleton.mpr (hmark .semicolon (by simp))⟩⟩⟩
  exact Lexeme.writtenIn_spaced (fun l hl => (hall l hl).1)
    (Lexeme.dividesBehind_of_ne (fun l hl => (hall l hl).2) false)

theorem kinds_assignment : (p.assignment value).filterMap (·.tokenKind? 0) =
    p.kinds ++ [.operator .assign, .identifier value, .punctuation .semicolon] := by
  simp [assignment, kinds]

/-- The assignment to a pattern is a statement, one level above the pattern. -/
theorem yields_statement {source : String} {tokens : Array Token} {maxDepth levels : Nat}
    {rest : List TokenKind} {shape : PatternShape} {items : PatternTerm (.items shape)}
    (hspells : AllSpelled source tokens) (hvalue : isName value = true)
    (hlevels : items.lexemes.length ≤ levels + 1) :
    Yields (.withLevels tokens maxDepth (levels + 2)) statement
      ((nested shape items).kinds ++ .operator .assign :: .identifier value ::
        .punctuation .semicolon :: rest) rest
      (·.sketch source = (nested shape items).assignmentSketch value) := by
  rw [kinds_nested, List.cons_append, List.append_assoc, List.singleton_append]
  have hpattern {k : TokenKind} {ks : List TokenKind} :
      Yields (.withLevels tokens maxDepth (levels + 1)) destructuringPattern
        (.punctuation shape.opening :: (items.kinds ++ .punctuation shape.closing :: k :: ks)) (k :: ks)
        fun n => [n.sketch source] = (nested shape items).sketches := by
    have hlist : Yields (.withLevels tokens maxDepth (levels + 1)) shape.parser
        (.punctuation shape.opening :: (items.kinds ++ .punctuation shape.closing :: k :: ks)) (k :: ks)
        fun n => [n.sketch source] = (nested shape items).sketches := by
      rw [shape.parser_eq]
      refine (Yields.listOf_sketch hspells (reads hspells items (levels + 1) _ hlevels)).mono
        fun n hn => ?_
      rw [hn, sketches]
    refine Yields.sees.bind fun b hb => ?_
    subst hb
    cases shape <;> exact hlist
  have hassignment : Yields (.withLevels tokens maxDepth (levels + 1)) destructuringAssignment
      (.punctuation shape.opening :: (items.kinds ++ .punctuation shape.closing :: .operator .assign ::
        .identifier value :: .punctuation .semicolon :: rest)) rest
      (·.sketch source = (nested shape items).assignmentSketch value) := by
    refine hpattern.bind fun left hleft => ?_
    refine (Yields.expectOperator_sketch hspells).bind fun sign hsign => ?_
    refine (yields_simple hspells (.name value hvalue) (.of_mark 0 (by simp)) maxDepth levels).bind
      fun right hright => ?_
    refine (Yields.expectOrMissing_sketch hspells).bind fun stop hstop => Yields.node_sketch ?_ (by simp)
    simp [← hleft, hsign, hright, hstop, SimpleValue.sketch]
  have hopens {ks : List TokenKind} : Yields (.withLevels tokens maxDepth (levels + 1)) opensAssignment
      (.punctuation shape.opening :: (items.kinds ++ .punctuation shape.closing :: .operator .assign :: ks))
      (.punctuation shape.opening :: (items.kinds ++ .punctuation shape.closing :: .operator .assign :: ks))
      (· = true) :=
    Yields.closesBefore_of_behind (items.wellBracketed.behindClosing_bracketed (by cases shape <;> rfl)
      (by cases shape <;> rfl) _)
  have hstatement : Yields (.withLevels tokens maxDepth (levels + 1)) anyStatement
      (.punctuation shape.opening :: (items.kinds ++ .punctuation shape.closing :: .operator .assign ::
        .identifier value :: .punctuation .semicolon :: rest)) rest
      (·.sketch source = (nested shape items).assignmentSketch value) := by
    refine Yields.peekKind.bind fun kind hkind => ?_
    subst hkind
    cases shape with
    | array =>
      refine hopens.bind fun b hb => ?_
      subst hb
      exact hassignment
    | object =>
      refine hopens.bind fun b hb => ?_
      subst hb
      exact hassignment
  exact hstatement

end Assigned

end PatternTerm

/-- What is taken apart by a pattern is assigned to the nodes that the pattern becomes, given a level for
each token of the pattern and four more. -/
theorem parse_destructured (shape : PatternShape) (items : PatternTerm (.items shape)) {value : String}
    (hvalue : isName value = true) {maxDepth : Nat}
    (hdepth : (PatternTerm.nested shape items).lexemes.length + 4 ≤ maxDepth) :
    let p := PatternTerm.nested shape items
    let tree := parse (p.assigned value) { maxDepth }
    tree.problems = [] ∧ tree.sketch 0 = .node .program [p.assignmentSketch value] ∧
      ∃ statement left, tree.children 0 = #[statement] ∧
        tree.kind? statement = some .assignmentExpression ∧
        tree.childWithField? statement .left = some left ∧
        [tree.sketch left] = p.sketches.map (·.withField .left) := by
  intro p tree
  have hlength : (PatternTerm.nested shape items).lexemes.length = items.lexemes.length + 2 := by
    simp [PatternTerm.lexemes]
  obtain ⟨levels, rfl⟩ : ∃ levels, maxDepth = levels + 2 := ⟨maxDepth - 2, by omega⟩
  have hlevels : items.lexemes.length ≤ levels + 1 := by omega
  have hwritten := PatternTerm.writtenIn_assigned (p := p) hvalue
  obtain ⟨n, hn, htree⟩ := hwritten.parse_eq (by simp [PatternTerm.kinds_assignment]) (by
    rw [PatternTerm.kinds_assignment, List.append_assoc]
    exact PatternTerm.yields_statement hwritten.spells hvalue hlevels)
  have hfield : (p.sketches.map (·.withField .left) ++ [Sketch.sign .assign,
      (Sketch.node .primaryExpression [.named .identifier value]).withField .right,
      .mark .semicolon]).find? (·.field == some .left) = (p.sketches.map (·.withField .left)).head? := rfl
  have hsits : Sits (rootNode (p.assigned value).utf8ByteSize [n]) 1 (some 0) n :=
    @Sits.child _ 0 none _ [] n [] .root rfl
  obtain ⟨left, c, hleft, hbelow, hc⟩ := hsits.exists_childWithField_of_sketch hn hfield
  rw [show tree = _ from htree]
  refine ⟨rfl, ?_, 1, left, Sits.root.children_eq, ?_, hleft, ?_⟩
  · rw [Sits.root.sketch_eq, rootNode_sketch, hn]
  · rw [Tree.kind?, hsits.node_eq]
    exact (Node.of_sketch_eq hn).1
  · rw [hbelow.sketch_eq, hc]
    rfl

/-- What stands in `[ , a.b = 1, { c, #d: [] = e, ...f }, ...g?.#h]`. -/
def PatternTerm.sample : PatternTerm (.items .array) :=
  .hole .array (.comma .array
    (.element (.withDefault (.access "a" (by decide +kernel) false (.plain "b" (by decide +kernel)))
      (.integer "1" (by decide +kernel))))
    (.comma .array
      (.element (.bare (.nested .object (.comma .object (.shorthand (.plain "c" (by decide +kernel)))
        (.comma .object
          (.pair (.hashed "d" (by decide +kernel))
            (.withDefault (.nested .array (.empty .array)) (.name "e" (by decide +kernel))))
          (.last .object (.rest .object (.name "f" (by decide +kernel)))))))))
      (.last .array
        (.rest .array (.access "g" (by decide +kernel) true (.hashed "h" (by decide +kernel)))))))

theorem parse_destructured_sample : isName "v" = true ∧
    (PatternTerm.nested .array .sample).lexemes.length + 4 ≤ 256 ∧
    (parse ((PatternTerm.nested .array .sample).assigned "v")).problems = [] ∧
    (parse ((PatternTerm.nested .array .sample).assigned "v")).sketch 0 =
      .node .program [(PatternTerm.nested .array .sample).assignmentSketch "v"] := by
  have hvalue : isName "v" = true := by decide +kernel
  have hdepth : (PatternTerm.nested .array .sample).lexemes.length + 4 ≤ 256 := by decide +kernel
  obtain ⟨hproblems, hsketch, _⟩ := parse_destructured .array .sample hvalue hdepth
  exact ⟨hvalue, hdepth, hproblems, hsketch⟩

example : (PatternTerm.nested .array .sample).assigned "v" =
    "[ , a . b = 1 , { c , # d : [ ] = e , ... f } , ... g ?. # h ] = v ;" := by
  decide +kernel

end ScriptTree
