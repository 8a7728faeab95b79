import Mathlib
import ScriptTree.Proofs.Mirror.Lockstep
import ScriptTree.Proofs.Parsing.Outcome

/-! What the shape of a tree depends on.

The class of a token tells what the parser may ask of it, and no more: neither where it stands nor how
a name is spelled. Sources whose tokens have the same classes, and whose signs touch the same numbers,
are read in lockstep, and so their trees have the same shape (`parse_shape`): blanks, comments and
names make no difference. -/
namespace ScriptTree

/-! ### Classes of tokens -/

inductive TokenClass where
  | keyword (word : Keyword)
  | operator (o : Operator)
  | punctuation (mark : Punctuation)
  /-- A name; some stand for builtin types. -/
  | identifier (builtin : Option Keyword)
  | number (decimal : Bool)
  | string (quote : Punctuation) (escapes : List Bool) (closed : Bool)
  | regex (flagged closed : Bool)
  | templateChars
  | templateEscape
  | endOfFile
deriving DecidableEq, Repr

def StringPart.isEscape : StringPart → Bool
  | fragment _ => false
  | escape _ => true

/-- The class of a token. A string or regular expression is closed if something of the token stands
behind what is between its marks. -/
def Token.tokenClass (t : Token) : TokenClass :=
  match t.kind with
  | .keyword word => .keyword word
  | .operator o => .operator o
  | .punctuation mark => .punctuation mark
  | .identifier name => .identifier (Parsing.primitiveType? name)
  | .number text => .number (text.toList.all Char.isDigit)
  | .string quote parts =>
    .string quote (parts.map StringPart.isEscape)
      (Parsing.contentStop t.span.start parts < t.span.stop)
  | .regex pattern flags => .regex flags.isSome (pattern.stop < t.span.stop)
  | .templateChars => .templateChars
  | .templateEscape => .templateEscape
  | .endOfFile => .endOfFile

/-- What is left of a node without comments and offsets. -/
def Node.shape (n : Node) : Node := n.strip.relocate fun _ => 0

namespace Parsing

/-- Whether the token at an index is a sign that touches a number behind it. -/
def signsNumber (tokens : Array Token) (i : Nat) : Bool :=
  isSign (kindAt tokens i) && (tokenAt tokens (i + 1)).tokenClass matches .number _ &&
    (spanAt tokens i).stop == (spanAt tokens (i + 1)).start

/-- Token lists that differ in nothing that the parser asks for. -/
structure SameClasses (tokens tokens' : Array Token) : Prop where
  classes : tokens.map Token.tokenClass = tokens'.map Token.tokenClass
  signs : ∀ i < tokens.size, signsNumber tokens i = signsNumber tokens' i

section Classes
variable {t t' : Token}

theorem kindLike_of_tokenClass (h : t.tokenClass = t'.tokenClass) : KindLike t.kind t'.kind := by
  obtain ⟨kind, span⟩ := t
  obtain ⟨kind', span'⟩ := t'
  -- Tokens of one class are of one kind.
  cases kind <;> cases kind' <;> first | (cases h; done) | injection h
  case keyword.keyword h => exact h ▸ .refl _
  case operator.operator h => exact h ▸ .refl _
  case punctuation.punctuation h => exact h ▸ .refl _
  case identifier.identifier h => exact .identifier h
  case number.number h => exact .number (by rw [String.all_bool_eq, String.all_bool_eq, h])
  case string.string h _ _ => exact h ▸ .string
  case regex.regex => exact .regex
  case templateChars.templateChars => exact .refl _
  case templateEscape.templateEscape => exact .refl _
  case endOfFile.endOfFile => exact .refl _

/-- The shape of the leaf of a piece of a string. -/
def partShape (escape : Bool) : Node :=
  .leaf (.named (if escape then .escapeSequence else .stringFragment)) (.empty 0)

theorem relocate_partNode (part : StringPart) :
    (partNode part).relocate (fun _ => 0) = partShape part.isEscape := by
  cases part <;> exact Node.relocate_leaf ..

theorem relocate_closingNode (symbol : Symbol) (closed : Bool) (offset : Nat) :
    (closingNode symbol closed offset).relocate (fun _ => 0) =
      if closed then .leaf symbol (.empty 0) else .absent symbol 0 := by
  cases closed
  · exact Node.relocate_absent ..
  · exact Node.relocate_leaf ..

theorem literalNode?_shape (h : t.tokenClass = t'.tokenClass) {n n' : Node}
    (hn : literalNode? t = some n) (hn' : literalNode? t' = some n') :
    n.relocate (fun _ => 0) = n'.relocate fun _ => 0 := by
  have hmono : Monotone fun _ : Nat => 0 := monotone_const
  obtain ⟨kind, span⟩ := t
  obtain ⟨kind', span'⟩ := t'
  cases kind <;> cases kind' <;> first | (cases h; done) | (cases hn; done) | (cases hn'; done) | skip
  case string.string quote parts quote' parts' =>
    injection h with hquote hparts hclosed
    cases hn
    cases hn'
    rw [Node.relocate_ofChildren hmono (by simp [stringPieces]),
      Node.relocate_ofChildren hmono (by simp [stringPieces])]
    have hpieces : (parts.map partNode).map (Node.relocate fun _ => 0) =
        (parts'.map partNode).map (Node.relocate fun _ => 0) := by
      have hshape : Node.relocate (fun _ => 0) ∘ partNode = partShape ∘ StringPart.isEscape :=
        funext relocate_partNode
      rw [List.map_map, List.map_map, hshape, ← List.map_map, ← List.map_map, hparts]
    simp only [stringPieces, List.map_cons, List.map_append, List.map_nil, hpieces,
      relocate_closingNode, Node.relocate_leaf, hquote, hclosed]
    rfl
  case regex.regex pattern flags pattern' flags' =>
    injection h with hflags hclosed
    cases hn
    cases hn'
    rw [Node.relocate_ofChildren hmono (by simp [regexPieces]),
      Node.relocate_ofChildren hmono (by simp [regexPieces])]
    cases flags <;> cases flags' <;> first | (cases hflags; done) | skip
    all_goals
      simp only [regexPieces, List.map_cons, List.map_append, List.map_nil,
        Option.toList, relocate_closingNode, Node.relocate_leaf, Node.relocate_withField, hclosed]
      rfl

end Classes

/-! ### Runs on tokens of the same classes -/

/-- Two runs of which only the shapes are compared. -/
def Lockstep.classes (tokens tokens' : Array Token) : Lockstep where
  left := tokens
  right := tokens'
  shift := 0
  place _ := 0
  place' _ := 0
  faithful := False
  earlier := []
  live _ := True

namespace SameClasses
variable {tokens tokens' : Array Token} (h : SameClasses tokens tokens')
include h

theorem size_eq : tokens.size = tokens'.size := by
  simpa using congrArg Array.size h.classes

theorem tokenClass_eq {i : Nat} (hi : i < tokens.size) :
    (tokenAt tokens i).tokenClass = (tokenAt tokens' i).tokenClass := by
  have hi' : i < tokens'.size := h.size_eq ▸ hi
  have hget := congrArg (·[i]?) h.classes
  simp only [Array.getElem?_map, Array.getElem?_eq_getElem hi, Array.getElem?_eq_getElem hi',
    Option.map_some, Option.some.injEq] at hget
  rw [tokenAt, tokenAt, Array.getD, Array.getD, dif_pos hi, dif_pos hi']
  exact hget

theorem touching_eq {i : Nat} (hi : i + 1 < tokens.size) (hsign : isSign (kindAt tokens i) = true)
    (hnumber : ∃ text, kindAt tokens (i + 1) = .number text) :
    ((spanAt tokens i).stop == (spanAt tokens (i + 1)).start) =
      ((spanAt tokens' i).stop == (spanAt tokens' (i + 1)).start) := by
  obtain ⟨text, hnumber⟩ := hnumber
  have hclass := h.tokenClass_eq hi
  have hsign' : isSign (kindAt tokens' i) = true := by
    rw [← hsign]
    exact (kindLike_of_tokenClass (h.tokenClass_eq (by omega))).isSign_eq.symm
  have hdecimal : (tokenAt tokens (i + 1)).tokenClass = .number (text.toList.all Char.isDigit) := by
    rw [Token.tokenClass, show (tokenAt tokens (i + 1)).kind = _ from hnumber]
  have hsigns := h.signs i (by omega)
  rw [signsNumber, signsNumber, hsign, hsign', ← hclass, hdecimal] at hsigns
  exact hsigns

theorem valid (hs : IsStream tokens) (hs' : IsStream tokens') :
    (Lockstep.classes tokens tokens').Valid where
  place := monotone_const
  place' := monotone_const
  streamLeft := hs
  streamRight := hs'
  size := h.size_eq
  agree i hi := by
    have hclass := h.tokenClass_eq hi
    exact ⟨kindLike_of_tokenClass hclass, rfl, fun n n' => literalNode?_shape hclass, False.elim⟩
  touching i hsign hnumber := by
    obtain ⟨text, hkind⟩ := hnumber
    exact h.touching_eq (lt_size_of_real (hkind ▸ nofun)) hsign ⟨text, hkind⟩
  alive _ _ := trivial
  start _ _ _ _ := rfl

end SameClasses

end Parsing

open Parsing

variable {source source' : String} {options : ParseOptions}

theorem bareRoot_shape (h : SameClasses (lex source).tokens (lex source').tokens) (maxDepth : Nat) :
    (bareRoot source maxDepth).relocate (fun _ => 0) =
      (bareRoot source' maxDepth).relocate fun _ => 0 := by
  obtain ⟨hnodes, _⟩ := (h.valid (lex_isStream source) (lex_isStream source')).programs rfl rfl
    (.inl ⟨rfl, rfl⟩) (Nat.zero_add maxDepth).symm trivial
  have hnodes : (runProgram (lex source).tokens maxDepth).1.toList.map (Node.relocate fun _ => 0) =
      (runProgram (lex source').tokens maxDepth).1.toList.map (Node.relocate fun _ => 0) := hnodes
  rw [bareRoot, bareRoot, Node.relocate_eq, Node.relocate_eq, rootNode, rootNode, hnodes]
  rfl

/-- **The shape of a tree depends on the classes of the tokens only.** -/
theorem parse_shape (hlimit : options.maxLength = none)
    (h : SameClasses (lex source).tokens (lex source').tokens) :
    ((parse source options).node 0).shape = ((parse source' options).node 0).shape := by
  have hfits {source : String} : ∀ limit ∈ options.maxLength, source.utf8ByteSize ≤ limit := by
    rw [hlimit]
    exact nofun
  have hroot (source : String) :
      ((parse source options).node 0).shape =
        (bareRoot source options.maxDepth).relocate fun _ => 0 := by
    rw [parse_eq hfits, Tree.node, Sits.root.entry_eq, Node.shape, Entry.complete, strip_dressedRoot]
  rw [hroot, hroot, bareRoot_shape h]

theorem parse_shape_renamed : ({} : ParseOptions).maxLength = none ∧
    SameClasses (lex "a = -1;").tokens (lex "/* name */ b\n= -2 ;").tokens ∧
      ((parse "a = -1;").node 0).shape = ((parse "/* name */ b\n= -2 ;").node 0).shape := by
  have hclasses : SameClasses (lex "a = -1;").tokens (lex "/* name */ b\n= -2 ;").tokens :=
    ⟨by decide +kernel, by decide +kernel⟩
  exact ⟨rfl, hclasses, parse_shape rfl hclasses⟩

end ScriptTree
