import ScriptTree.Grammar.Field
import ScriptTree.Grammar.Symbol
import ScriptTree.Text.JsonValue

/-! The description of node types that editors and generators read.

`Slot.all` says what each kind of node holds: per field, and for the named children without a field.
A slot lists symbols, where a supertype stands for the kinds it groups. `NodeType.all` lays the
slots out as one description per kind and token, and `NodeType.text` is its text. -/
namespace ScriptTree

/-! ### What nodes hold -/

/-- One place for children in nodes of a kind. -/
structure Slot where
  kind : NodeKind
  /-- The field of the children; the slot without one holds the named children that have none. -/
  field : Option Field
  multiple : Bool
  required : Bool
  types : List Symbol
deriving DecidableEq, Repr

namespace Slot

/-- Exactly one child. -/
def one (kind : NodeKind) (field : Field) (types : List Symbol) : Slot :=
  ⟨kind, field, false, true, types⟩

/-- At most one child. -/
def optional (kind : NodeKind) (field : Field) (types : List Symbol) : Slot :=
  ⟨kind, field, false, false, types⟩

/-- Any number of children. -/
def zeroOrMore (kind : NodeKind) (field : Field) (types : List Symbol) : Slot :=
  ⟨kind, field, true, false, types⟩

/-- At least one child. -/
def oneOrMore (kind : NodeKind) (field : Field) (types : List Symbol) : Slot :=
  ⟨kind, field, true, true, types⟩

/-- The children without a field. -/
def unlabelled (kind : NodeKind) (multiple required : Bool) (types : List Symbol) : Slot :=
  ⟨kind, none, multiple, required, types⟩

/-- Node kinds as the types of a slot. -/
def kinds (list : List NodeKind) : List Symbol := list.map .named

/-- The operators with a property as the types of a slot. -/
def operators (p : Operator → Bool) : List Symbol := (Operator.all.filter p).map Operator.symbol

def expression : List Symbol := kinds [.expression]

def block : List Symbol := kinds [.blockStatement]

def blockOrExpression : List Symbol := kinds [.blockStatement, .expression]

def typeAscription : List Symbol := kinds [.typeAscription]

def identifier : List Symbol := kinds [.identifier]

/-- What can be assigned to. -/
def target : List Symbol := kinds [.arrayPattern, .identifier, .memberExpression, .objectPattern]

/-- The slots of statements and declarations. -/
def ofStatements : List Slot :=
  [unlabelled .program true false (kinds [.statement]),
    unlabelled .blockStatement true false (kinds [.statement]),
    unlabelled .callStatement false true (kinds [.callExpression]),
    unlabelled .returnStatement false true expression,
    one .ifStatement .condition (kinds [.parenthesizedExpression]),
    one .ifStatement .consequence block,
    optional .ifStatement .alternative (kinds [.blockStatement, .ifStatement]),
    one .variableDeclaration .kind (kinds [.constMark, .letMark]),
    one .variableDeclaration .declaredName identifier,
    optional .variableDeclaration .value expression,
    unlabelled .variableDeclaration false false typeAscription,
    unlabelled .enumDeclaration true true identifier,
    one .functionDeclaration .body block,
    one .functionDeclaration .returnType typeAscription,
    unlabelled .functionDeclaration true true (kinds [.argumentListDeclaration, .identifier]),
    unlabelled .argumentListDeclaration true false (kinds [.argumentDeclaration]),
    one .argumentDeclaration .declaredName identifier,
    optional .argumentDeclaration .spread [.punctuation .ellipsis],
    one .argumentDeclaration .type typeAscription]

/-- The slots of types. -/
def ofTypes : List Slot :=
  [one .typeAscription .type (kinds [.type]),
    unlabelled .primitiveType false false (kinds [.falseLiteral, .trueLiteral, .undefinedLiteral]),
    unlabelled .orUndefinedType false true (kinds [.type]),
    unlabelled .arrayType false true (kinds [.type]),
    unlabelled .tupleType true false (kinds [.type]),
    unlabelled .unionType true true (kinds [.type])]

/-- The slots of expressions. -/
def ofExpressions : List Slot :=
  [unlabelled .primaryExpression false true (kinds
      [.anonymousFunctionExpression, .arrayLiteral, .arrowFunctionExpression, .comptimeIdentifier,
        .falseLiteral, .identifier, .matchExpression, .memberExpression, .number, .objectLiteral,
        .parenthesizedExpression, .regex, .string, .templateString, .trueLiteral,
        .undefinedLiteral]),
    unlabelled .parenthesizedExpression false true expression,
    one .ifTernaryExpression .condition (kinds [.parenthesizedExpression]),
    one .ifTernaryExpression .consequence expression,
    one .ifTernaryExpression .alternative expression,
    one .matchExpression .value (kinds [.parenthesizedExpression]),
    oneOrMore .matchExpression .body
      ([.punctuation .leftBrace, .punctuation .rightBrace] ++ kinds [.matchCase, .matchElse]),
    oneOrMore .matchCase .condition
      ([.punctuation .comma, .punctuation .dot] ++ kinds
        [.falseLiteral, .identifier, .matchRange, .number, .string, .trueLiteral,
          .undefinedLiteral]),
    one .matchCase .consequence blockOrExpression,
    one .matchElse .consequence blockOrExpression,
    one .matchRange .rangeStart (kinds [.number]),
    one .matchRange .rangeEnd (kinds [.number]),
    unlabelled .argumentList true false (kinds [.expression, .spreadArgument]),
    unlabelled .spreadArgument false true expression,
    one .anonymousFunctionExpression .body block,
    one .anonymousFunctionExpression .returnType typeAscription,
    unlabelled .anonymousFunctionExpression false true (kinds [.argumentListDeclaration]),
    one .arrowFunctionExpression .body blockOrExpression,
    one .arrowFunctionExpression .returnType typeAscription,
    unlabelled .arrowFunctionExpression false true (kinds [.argumentListDeclaration]),
    unlabelled .arrayLiteral true true expression,
    zeroOrMore .objectLiteral .key identifier,
    zeroOrMore .objectLiteral .value expression,
    zeroOrMore .objectLiteral .member (kinds [.shorthandPropertyIdentifier]),
    one .assignmentExpression .left target,
    one .assignmentExpression .right expression,
    one .augmentedAssignmentExpression .left
      (kinds [.identifier, .memberExpression, .parenthesizedExpression]),
    one .augmentedAssignmentExpression .operator (operators Operator.isAugmentedAssignment),
    one .augmentedAssignmentExpression .right expression,
    one .memberExpression .object (kinds [.primaryExpression]),
    optional .memberExpression .optionalChain (kinds [.optionalChain]),
    one .memberExpression .property (kinds [.privatePropertyIdentifier, .propertyIdentifier]),
    one .callExpression .function (kinds [.expression, .primaryExpression]),
    optional .callExpression .optionalChain (kinds [.optionalChain]),
    one .callExpression .arguments (kinds [.argumentList]),
    one .binaryExpression .left (kinds [.expression, .privatePropertyIdentifier]),
    one .binaryExpression .operator (operators Operator.isBinary),
    one .binaryExpression .right expression,
    one .unaryExpression .operator (operators Operator.isUnary),
    one .unaryExpression .argument expression]

/-- The slots of patterns. -/
def ofPatterns : List Slot :=
  [unlabelled .pattern false true
      (kinds [.arrayPattern, .identifier, .memberExpression, .objectPattern, .restPattern]),
    unlabelled .restPattern false true target,
    one .assignmentPattern .left (kinds [.pattern]),
    one .assignmentPattern .right expression,
    one .pairPattern .key (kinds [.identifier, .privatePropertyIdentifier]),
    one .pairPattern .value (kinds [.assignmentPattern, .pattern]),
    unlabelled .objectPattern true false
      (kinds [.pairPattern, .restPattern, .shorthandPropertyIdentifierPattern]),
    unlabelled .arrayPattern true false (kinds [.assignmentPattern, .pattern]),
    unlabelled .shorthandPropertyIdentifierPattern false false (kinds [.privatePropertyIdentifier])]

/-- The slots of literals and names. -/
def ofLiterals : List Slot :=
  [unlabelled .string true false (kinds [.escapeSequence, .stringFragment]),
    unlabelled .templateString true false
      (kinds [.escapeSequence, .stringFragment, .templateSubstitution]),
    unlabelled .templateSubstitution false true expression,
    one .regex .pattern (kinds [.regexPattern]),
    optional .regex .flags (kinds [.regexFlags]),
    unlabelled .comptimeIdentifier false true identifier,
    unlabelled .privatePropertyIdentifier false true identifier]

def all : List Slot := ofStatements ++ ofTypes ++ ofExpressions ++ ofPatterns ++ ofLiterals

/-- The slot of a kind for the children with a field, or for those without one. -/
def find? (kind : NodeKind) (field : Option Field) : Option Slot :=
  all.find? fun slot => slot.kind == kind && slot.field == field

end Slot

/-! ### Descriptions -/

/-- A node type, by name. -/
structure TypeName where
  name : String
  named : Bool
deriving DecidableEq, Repr

namespace TypeName

def ofSymbol (s : Symbol) : TypeName := ⟨s.name, s.isNamed⟩

/-- The order of descriptions: by name, a token before the kind of the same name. -/
def le (a b : TypeName) : Bool :=
  if a.name = b.name then !a.named || b.named else decide (a.name < b.name)

/-- The names of symbols in order, each once. -/
def ofSymbols (symbols : List Symbol) : List TypeName :=
  ((symbols.map ofSymbol).mergeSort le).eraseReps

end TypeName

/-- What a field, or the children without one, may hold. -/
structure Contents where
  multiple : Bool
  required : Bool
  types : List TypeName
deriving DecidableEq, Repr

def Slot.contents (slot : Slot) : Contents :=
  ⟨slot.multiple, slot.required, TypeName.ofSymbols slot.types⟩

/-- The description of one node type. -/
structure NodeType where
  type : TypeName
  /-- The fields, ordered by name. -/
  fields : List (Field × Contents) := []
  children : Option Contents := none
  subtypes : List TypeName := []
deriving DecidableEq, Repr

namespace NodeType

/-- The description of a kind. -/
def ofKind (kind : NodeKind) : NodeType :=
  { type := ⟨kind.name, true⟩
    fields := Field.all.filterMap fun field =>
      (Slot.find? kind (some field)).map fun slot => (field, slot.contents)
    children := (Slot.find? kind none).map Slot.contents
    subtypes := TypeName.ofSymbols (kind.subtypes.map .named) }

/-- The tokens without a name of their own; a word operator is a keyword. -/
def tokens : List Symbol :=
  Keyword.all.map .keyword ++ (Operator.all.filter (!·.isWord)).map .operator ++
    Punctuation.all.map .punctuation

/-- All descriptions: the kinds but for the one that stands for damage, then the tokens. -/
def all : List NodeType :=
  (NodeKind.all.filter (· != .error)).map ofKind ++
    tokens.map fun s => { type := TypeName.ofSymbol s }

/-! ### Text -/

def typeJson (t : TypeName) : JsonValue :=
  .object [("type", .string t.name), ("named", .bool t.named)]

def contentsJson (c : Contents) : JsonValue :=
  .object [("multiple", .bool c.multiple), ("required", .bool c.required),
    ("types", .array (c.types.map typeJson))]

/-- The description as JSON, without the members that are empty. -/
def json (t : NodeType) : JsonValue :=
  let fields := t.fields.map fun (field, contents) => (field.name, contentsJson contents)
  .object <|
    [("type", .string t.type.name), ("named", .bool t.type.named)] ++
    (if fields.isEmpty then [] else [("fields", .object fields)]) ++
    (match t.children with
      | some contents => [("children", contentsJson contents)]
      | none => []) ++
    if t.subtypes.isEmpty then [] else [("subtypes", .array (t.subtypes.map typeJson))]

/-- All descriptions as indented JSON. -/
def text (pretty : JsonValue → String := JsonValue.pretty) : String := pretty (.array (all.map json))

end NodeType

end ScriptTree
