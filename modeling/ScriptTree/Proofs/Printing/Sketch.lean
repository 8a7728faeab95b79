import Mathlib
import ScriptTree.Proofs.Printing.Yielding
import ScriptTree.Text.Source

/-! Nodes without their places.

A sketch is what a tree says apart from offsets: the symbol of each node, the field it fills, what is
below it, and the texts of leaves. What a tree should look like is said with a sketch, and a node of a
source has one of its own (`Node.sketch`). Where tokens have the texts that their kinds say (`Spells`), the
sketch of a leaf is known from the kind of its token (`TokenKind.sketch`). -/
namespace ScriptTree

open Parsing

/-- A node without its place. The text is that of a leaf. -/
inductive Sketch where
  | mk (symbol : Symbol) (field : Option Field) (text : String) (children : List Sketch)

namespace Sketch

/-- A leaf. -/
def token (symbol : Symbol) (text : String) : Sketch := ⟨symbol, none, text, []⟩

/-- A leaf of a kind. -/
def named (kind : NodeKind) (text : String) : Sketch := token (.named kind) text

def mark (m : Punctuation) : Sketch := token (.punctuation m) m.spelling

def sign (o : Operator) : Sketch := token (.operator o) o.spelling

/-- An inner node. -/
def node (kind : NodeKind) (children : List Sketch) : Sketch := ⟨.named kind, none, "", children⟩

/-- The sketch in the role of a field. -/
def withField : Sketch → Field → Sketch
  | ⟨symbol, _, text, children⟩, field => ⟨symbol, some field, text, children⟩

def field : Sketch → Option Field
  | ⟨_, field, _, _⟩ => field

@[simp] theorem field_mark (m : Punctuation) : (mark m).field = none := rfl

@[simp] theorem field_withField (s : Sketch) (f : Field) : (s.withField f).field = some f := by
  cases s
  rfl

end Sketch

namespace Node

mutual

/-- What a node of a source is apart from its place. -/
def sketch (source : String) : Node → Sketch
  | ⟨symbol, span, field, _, _, children⟩ =>
    ⟨symbol, field, if children.isEmpty then span.slice source else "", sketches source children⟩

def sketches (source : String) : List Node → List Sketch
  | [] => []
  | n :: nodes => n.sketch source :: sketches source nodes

end

section Sketches
variable {source : String} {n : Node}

theorem sketches_eq_map (nodes : List Node) : sketches source nodes = nodes.map (·.sketch source) := by
  induction nodes with
  | nil => rfl
  | cons n nodes ih => rw [sketches, ih, List.map_cons]

theorem sketch_eq (n : Node) : n.sketch source = ⟨n.symbol, n.field,
    if n.children.isEmpty then n.span.slice source else "", n.children.map (·.sketch source)⟩ := by
  obtain ⟨symbol, span, field, missing, extra, children⟩ := n
  rw [sketch.eq_def, ← sketches_eq_map]

@[simp] theorem sketch_leaf (symbol : Symbol) (span : Span) :
    (leaf symbol span).sketch source = .token symbol (span.slice source) := by
  rw [sketch_eq]
  rfl

@[simp] theorem sketch_withField (n : Node) (field : Field) :
    (n.withField field).sketch source = (n.sketch source).withField field := by
  rw [sketch_eq, sketch_eq]
  rfl

@[simp] theorem field_sketch (n : Node) : (n.sketch source).field = n.field := by
  rw [sketch_eq]
  rfl

/-- An inner node has its children's sketches below it. -/
theorem sketch_ofChildren {kind : NodeKind} {children : List Node} (h : children ≠ []) :
    (ofChildren kind children).sketch source = .node kind (children.map (·.sketch source)) := by
  rw [sketch_eq]
  simp [ofChildren, h, Sketch.node]

/-- The sketches below a sketch are those of the children. -/
theorem of_sketch_eq {kind : NodeKind} {sketches : List Sketch}
    (h : n.sketch source = .node kind sketches) :
    n.kind? = some kind ∧ n.children.map (·.sketch source) = sketches := by
  rw [sketch_eq] at h
  obtain ⟨hsymbol, -, -, hchildren⟩ := Sketch.mk.inj h
  exact ⟨by rw [kind?, hsymbol]; rfl, hchildren⟩

/-- The child that fills a field is found among the sketches. -/
theorem exists_childAt?_of_sketch {kind : NodeKind} {sketches : List Sketch} {s : Sketch} {field : Field}
    (h : n.sketch source = .node kind sketches)
    (hs : sketches.find? (·.field == some field) = some s) :
    ∃ c, n.childAt? field = some c ∧ c.sketch source = s := by
  rw [← (of_sketch_eq h).2, List.find?_map] at hs
  obtain ⟨c, hc, hsketch⟩ := Option.map_eq_some_iff.mp hs
  refine ⟨c, ?_, hsketch⟩
  rw [← hc, childAt?]
  refine congrArg (n.children.find? ·) (funext fun c => ?_)
  rw [Function.comp_apply, field_sketch]

end Sketches

end Node

/-! ### Tokens and their texts -/

namespace TokenKind

/-- How a token is spelled, if its kind says so. -/
def spelling : TokenKind → String
  | keyword word => word.spelling
  | operator o => o.spelling
  | punctuation mark => mark.spelling
  | identifier text | number text => text
  | _ => ""

/-- Whether the kind says how the token is spelled. -/
def isSpelled : TokenKind → Bool
  | keyword _ | operator _ | punctuation _ | identifier _ | number _ => true
  | _ => false

/-- The leaf that a token becomes by itself. -/
def sketch (k : TokenKind) : Sketch := .token (symbolOf k) k.spelling

end TokenKind

/-- Whether a source has the spelling of a token where the token stands. -/
def Spells (source : String) (span : Span) (k : TokenKind) : Prop :=
  k.isSpelled = true → span.slice source = k.spelling

/-- Whether all tokens have the texts that their kinds say. -/
def AllSpelled (source : String) (tokens : Array Token) : Prop :=
  ∀ i, Spells source (spanAt tokens i) (kindAt tokens i)

theorem AllSpelled.slice_eq {source : String} {tokens : Array Token} (hspells : AllSpelled source tokens)
    {i : Nat} {k : TokenKind} (h : kindAt tokens i = k) (hk : k.isSpelled = true) :
    (spanAt tokens i).slice source = k.spelling :=
  h ▸ hspells i (h ▸ hk)

section Spelled
variable {source : String} {scope : Scope} (hspells : AllSpelled source scope.tokens)
include hspells

namespace Parsing.Yields
variable {k : TokenKind} {ks : List TokenKind}

/-- A leaf with the text of its token. -/
theorem sketch_leaf {m : Parse Node} {symbol : Symbol} (hk : k.isSpelled = true)
    (h : Yields scope m (k :: ks) ks fun n => ∃ i, kindAt scope.tokens i = k ∧
      n = .leaf symbol (spanAt scope.tokens i)) :
    Yields scope m (k :: ks) ks (·.sketch source = .token symbol k.spelling) := by
  refine h.mono fun n hn => ?_
  obtain ⟨i, hkind, rfl⟩ := hn
  rw [Node.sketch_leaf, hspells.slice_eq hkind hk]

theorem bump_sketch (hk : k.isSpelled = true) :
    Yields scope Parsing.bump (k :: ks) ks (·.sketch source = k.sketch) :=
  .sketch_leaf hspells hk (Yields.bump (by rintro rfl; cases hk))

theorem bumpAs_sketch {kind : NodeKind} (hk : k.isSpelled = true) :
    Yields scope (bumpAs kind) (k :: ks) ks (·.sketch source = .named kind k.spelling) :=
  .sketch_leaf hspells hk (Yields.bumpSymbol (by rintro rfl; cases hk))

theorem expect_sketch {mark : Punctuation} :
    Yields scope (Parsing.expect mark) (.punctuation mark :: ks) ks (·.sketch source = .mark mark) :=
  .sketch_leaf hspells rfl Yields.expect

theorem expectOrMissing_sketch {mark : Punctuation} :
    Yields scope (Parsing.expectOrMissing mark) (.punctuation mark :: ks) ks
      (·.sketch source = .mark mark) :=
  .sketch_leaf hspells rfl Yields.expectOrMissing

theorem expectOperator_sketch {o : Operator} :
    Yields scope (Parsing.expectOperator o) (.operator o :: ks) ks (·.sketch source = .sign o) :=
  .sketch_leaf hspells rfl Yields.expectOperator

theorem expectIdentifier_sketch {kind : NodeKind} {what : Expected} {name : String} :
    Yields scope (Parsing.expectIdentifier kind what) (.identifier name :: ks) ks
      (·.sketch source = .named kind name) :=
  .sketch_leaf hspells rfl Yields.expectIdentifier

end Parsing.Yields

end Spelled

/-- A node whose children have been sketched. -/
theorem Parsing.Yields.node_sketch {source : String} {scope : Scope} {ks : List TokenKind}
    {kind : NodeKind} {children : Array Node} {sketches : List Sketch}
    (h : children.toList.map (·.sketch source) = sketches) (hne : sketches ≠ []) :
    Yields scope (Parsing.node kind children) ks ks (·.sketch source = .node kind sketches) := by
  refine Yields.node.mono fun n hn => ?_
  rw [hn, Node.sketch_ofChildren, h]
  rintro hnil
  rw [hnil] at h
  exact hne h.symm

end ScriptTree
