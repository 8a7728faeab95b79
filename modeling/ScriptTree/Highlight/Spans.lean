import ScriptTree.Tree.Navigation

/-! Classes of source text for highlighting, and the classified stretches of a source.

A leaf is classified by its symbol, and a name by the node it stands in and its place there. Leaves
that no class fits, such as strings that could not be taken apart, have none.

Leaves are taken in the order of the source. A leaf that touches the stretch before it and has the
same class extends it, so that a string literal is one stretch and not a quote, a fragment and a
quote. -/
namespace ScriptTree

/-! ### Classes -/

/-- A class of source text. -/
inductive Capture where
  | keyword
  | operator
  | bracket
  | delimiter
  | string
  | stringEscape
  | stringSpecial
  | number
  | builtinConstant
  | comment
  | function
  | builtinFunction
  | type
  | builtinType
  | variable
  | parameter
  | property
  | embedded
deriving DecidableEq, Repr

namespace Capture

/-- The name under which editors know the class. -/
def name : Capture → String
  | keyword => "keyword"
  | operator => "operator"
  | bracket => "punctuation.bracket"
  | delimiter => "punctuation.delimiter"
  | string => "string"
  | stringEscape => "string.escape"
  | stringSpecial => "string.special"
  | number => "number"
  | builtinConstant => "constant.builtin"
  | comment => "comment"
  | function => "function"
  | builtinFunction => "function.builtin"
  | type => "type"
  | builtinType => "type.builtin"
  | «variable» => "variable"
  | parameter => "variable.parameter"
  | property => "property"
  | embedded => "embedded"

/-- The class of a mark in a node of kind `parent`. -/
def ofPunctuation (mark : Punctuation) (parent : Option NodeKind) : Capture :=
  match mark with
  | .dollarBrace => embedded
  | .doubleQuote | .singleQuote | .backtick => string
  | .atSign => builtinFunction
  | .hash => property
  | .fatArrow | .question | .dotDot | .ellipsis => operator
  | _ =>
    if mark = .rightBrace && parent = some .templateSubstitution then embedded
    else if mark.category = .delimiter then bracket
    else delimiter

end Capture

namespace Tree

/-- The kind of the node that lists this one. -/
def parentKind? (t : Tree) (id : Nat) : Option NodeKind :=
  (t.parent? id).bind fun parent => (t.node parent).kind?

/-- Whether the node is what a call calls. -/
def isCalled (t : Tree) (id : Nat) : Bool :=
  (t.node id).field = some .function && t.parentKind? id = some .callExpression

/-- Whether the node is a called primary expression or the member inside one. -/
def isCallee (t : Tree) (id : Nat) : Bool :=
  match (t.node id).kind? with
  | some .primaryExpression => t.isCalled id
  | some .memberExpression =>
    t.parentKind? id = some .primaryExpression && (t.parent? id).any t.isCalled
  | _ => false

/-- Whether the node that lists this one is called. -/
def inCallee (t : Tree) (id : Nat) : Bool := (t.parent? id).any t.isCallee

/-- The class of an identifier. The first name in an enumeration is the name of the type, the others
are members. -/
def identifierCapture (t : Tree) (id : Nat) : Capture :=
  match t.parentKind? id with
  | some .comptimeIdentifier => .builtinFunction
  | some .privatePropertyIdentifier => .property
  | some .functionDeclaration => .function
  | some .argumentDeclaration => .parameter
  | some .enumDeclaration => if (t.previousNamedSibling? id).isNone then .type else .property
  | some .objectLiteral | some .pairPattern =>
    if (t.node id).field = some .key then .property else .variable
  | some .primaryExpression => if t.inCallee id then .function else .variable
  | _ => .variable

/-- The class of a named leaf. -/
def namedCapture? (t : Tree) (id : Nat) : NodeKind → Option Capture
  | .comment | .htmlComment => some .comment
  | .number => some .number
  | .stringFragment => some .string
  | .escapeSequence => some .stringEscape
  | .regexPattern | .regexFlags => some .stringSpecial
  | .trueLiteral | .falseLiteral | .undefinedLiteral => some .builtinConstant
  | .constMark | .letMark => some .keyword
  | .typeIdentifier => some .type
  | .optionalChain => some .delimiter
  | .shorthandPropertyIdentifier => some .property
  | .shorthandPropertyIdentifierPattern => some .variable
  | .propertyIdentifier => some (if t.inCallee id then .function else .property)
  | .identifier => some (t.identifierCapture id)
  | _ => none

/-- The class of a leaf. -/
def capture? (t : Tree) (id : Nat) : Option Capture :=
  let parent := t.parentKind? id
  if parent = some .primitiveType then some .builtinType
  else match (t.node id).symbol with
    | .keyword _ => some .keyword
    | .operator _ => some (if parent = some .regex then .stringSpecial else .operator)
    | .punctuation mark => some (.ofPunctuation mark parent)
    | .named kind => t.namedCapture? id kind

end Tree

/-! ### Stretches -/

/-- A classified stretch of source text. -/
structure Highlight where
  span : Span
  capture : Capture
deriving DecidableEq, Repr

namespace Highlight

/-- Adds a stretch, which may extend the last one. -/
def add (found : Array Highlight) (h : Highlight) : Array Highlight :=
  match found.back? with
  | some last =>
    if last.capture = h.capture && last.span.stop = h.span.start then
      found.pop.push { last with span := last.span.merge h.span }
    else found.push h
  | none => found.push h

/-- The stretch of one node: of a leaf that stands for source text, if it has a class. -/
def ofNode? (t : Tree) (id : Nat) : Option Highlight :=
  let n := t.node id
  if n.children.isEmpty && !n.missing && !n.span.isEmpty then
    (t.capture? id).map fun capture => ⟨n.span, capture⟩
  else none

end Highlight

/-- The classified stretches of a tree's source, in order. -/
def Tree.highlights (t : Tree) : Array Highlight :=
  ((List.range t.nodeCount).filterMap (Highlight.ofNode? t)).foldl Highlight.add #[]

end ScriptTree
