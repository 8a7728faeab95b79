import Mathlib
import ScriptTree.Grammar.NodeTypes
import ScriptTree.Tree.Node

/-! What the children of a node look like, kind by kind.

A node's children are a row of items: one child, a child that may be left out, or any number of
children. An item lists the roles that its children may have, a role being a field and a symbol.
`NodeKind.row` is the row of every kind as the productions make it; damage is left out, since its
children are whatever was skipped.

`conforms` compares these rows with the exported description of node types: `row_conforms` says
that whatever matches the row of a kind also fits the kind's slots. -/
namespace ScriptTree

/-- A field and a symbol: what a node is for its parent. -/
abbrev Role := Option Field × Symbol

def Node.role (n : Node) : Role := (n.field, n.symbol)

/-- A place in a row of children. -/
inductive Item where
  | one (roles : List Role)
  | optional (roles : List Role)
  | many (roles : List Role)
deriving DecidableEq, Repr

def Item.roles : Item → List Role
  | one roles => roles
  | optional roles => roles
  | many roles => roles

/-- Whether children fill a row of items, from left to right. -/
inductive Matches : List Item → List Node → Prop
  | nil : Matches [] []
  | one {roles row c cs} : c.role ∈ roles → Matches row cs → Matches (.one roles :: row) (c :: cs)
  | absent {roles row cs} : Matches row cs → Matches (.optional roles :: row) cs
  | present {roles row c cs} : c.role ∈ roles → Matches row cs →
      Matches (.optional roles :: row) (c :: cs)
  | many {roles row here cs} : (∀ c ∈ here, c.role ∈ roles) → Matches row cs →
      Matches (.many roles :: row) (here ++ cs)

namespace Role

/-! ### Roles -/

/-- Kinds without a field. -/
def plain (kinds : List NodeKind) : List Role := kinds.map fun kind => (none, .named kind)

def mark (m : Punctuation) : List Role := [(none, .punctuation m)]

def word (w : Keyword) : List Role := [(none, .keyword w)]

def sign (o : Operator) : List Role := [(none, .operator o)]

/-- Operators as they stand in trees. -/
def operators (p : Operator → Bool) : List Role :=
  (Operator.all.filter p).map fun o => (none, o.symbol)

/-- The same symbols in the role of a field. -/
def labelled (field : Field) (roles : List Role) : List Role :=
  roles.map fun role => (some field, role.2)

def expressions : List Role := plain NodeKind.expression.subtypes

def statements : List Role := plain NodeKind.statement.subtypes

def types : List Role := plain NodeKind.type.subtypes

/-- Expressions to which a call or a member access can be added. -/
def operands : List Role := plain [.primaryExpression, .callExpression]

/-- What an assignment assigns to. -/
def targets : List Role := plain [.arrayPattern, .identifier, .memberExpression, .objectPattern]

def blockOrExpression : List Role := plain [.blockStatement] ++ expressions

def literals : List Role := plain [.trueLiteral, .falseLiteral, .undefinedLiteral]

/-- What stands inside a primary expression. -/
def primaries : List Role :=
  plain [.anonymousFunctionExpression, .arrayLiteral, .arrowFunctionExpression, .comptimeIdentifier,
    .falseLiteral, .identifier, .matchExpression, .memberExpression, .number, .objectLiteral,
    .parenthesizedExpression, .regex, .string, .templateString, .trueLiteral, .undefinedLiteral]

/-- The words under which the builtin types stand in trees. -/
def primitiveWords : List Role :=
  ((Keyword.all.filter Keyword.isPrimitiveType).map fun w => (none, .keyword w)) ++ word .voidWord

/-- The conditions of a case, without the marks between them. -/
def conditions : List Role :=
  plain [.number, .matchRange, .string, .identifier] ++ literals

/-- Statements, and damage in their place. -/
def recovered : List Role := statements ++ plain [.error]

end Role

namespace NodeKind
open Item Role

/-- The children of nodes of a kind. Leaves have none. -/
def row : NodeKind → List Item
  | program => [many recovered]
  | blockStatement => [one (mark .leftBrace), many recovered, one (mark .rightBrace)]
  | breakStatement => [one (word .breakWord), one (mark .semicolon)]
  | returnStatement => [one (word .returnWord), one expressions, one (mark .semicolon)]
  | ifStatement =>
    [one (word .ifWord), one (labelled .condition (plain [parenthesizedExpression])),
      one (labelled .consequence (plain [blockStatement])), optional (word .elseWord),
      optional (labelled .alternative (plain [blockStatement, ifStatement]))]
  | callStatement => [one (plain [callExpression]), one (mark .semicolon)]
  | variableDeclaration =>
    [one (labelled .kind (plain [constMark, letMark])),
      one (labelled .declaredName (plain [identifier])), optional (plain [typeAscription]),
      optional (sign .assign), optional (labelled .value expressions), one (mark .semicolon)]
  | enumDeclaration =>
    [one (word .enumWord), one (plain [identifier]), one (mark .leftBrace), one (plain [identifier]),
      many (plain [identifier] ++ mark .comma), one (mark .rightBrace)]
  | functionDeclaration =>
    [one (word .functionWord), one (plain [identifier]), one (plain [argumentListDeclaration]),
      one (labelled .returnType (plain [typeAscription])),
      one (labelled .body (plain [blockStatement]))]
  | argumentListDeclaration =>
    [one (mark .leftParen), many (plain [argumentDeclaration] ++ mark .comma),
      one (mark .rightParen)]
  | argumentDeclaration =>
    [optional (labelled .spread (mark .ellipsis)),
      one (labelled .declaredName (plain [identifier])),
      one (labelled .type (plain [typeAscription]))]
  | typeAscription => [one (mark .colon), one (labelled .type types)]
  | primitiveType => [one (primitiveWords ++ literals)]
  | orUndefinedType => [one types, one (mark .question)]
  | arrayType => [one types, one (mark .leftBracket), one (mark .rightBracket)]
  | tupleType => [one (mark .leftBracket), many (types ++ mark .comma), one (mark .rightBracket)]
  | unionType => [optional types, one (sign .bitOr), one types]
  | primaryExpression => [one primaries]
  | parenthesizedExpression => [one (mark .leftParen), one expressions, one (mark .rightParen)]
  | ifTernaryExpression =>
    [one (word .ifWord), one (labelled .condition (plain [parenthesizedExpression])),
      one (labelled .consequence expressions), one (word .elseWord),
      one (labelled .alternative expressions)]
  | matchExpression =>
    [one (word .matchWord), one (labelled .value (plain [parenthesizedExpression])),
      one (labelled .body (mark .leftBrace)), many (labelled .body (plain [matchCase])),
      optional (labelled .body (plain [matchElse])), one (labelled .body (mark .rightBrace))]
  | matchCase =>
    [one (word .caseWord), one (labelled .condition conditions),
      many (labelled .condition (conditions ++ mark .comma ++ mark .dot)), one (mark .colon),
      one (labelled .consequence blockOrExpression), one (mark .semicolon)]
  | matchRange =>
    [one (labelled .rangeStart (plain [number])), one (mark .dotDot),
      one (labelled .rangeEnd (plain [number]))]
  | matchElse =>
    [one (word .elseWord), one (mark .colon), one (labelled .consequence blockOrExpression),
      one (mark .semicolon)]
  | argumentList =>
    [one (mark .leftParen), many (expressions ++ plain [spreadArgument] ++ mark .comma),
      one (mark .rightParen)]
  | spreadArgument => [one (mark .ellipsis), one expressions]
  | anonymousFunctionExpression =>
    [one (word .functionWord), one (plain [argumentListDeclaration]),
      one (labelled .returnType (plain [typeAscription])),
      one (labelled .body (plain [blockStatement]))]
  | arrowFunctionExpression =>
    [one (plain [argumentListDeclaration]), one (labelled .returnType (plain [typeAscription])),
      one (mark .fatArrow), one (labelled .body blockOrExpression)]
  | arrayLiteral =>
    [one (mark .leftBracket), one expressions, many (expressions ++ mark .comma),
      one (mark .rightBracket)]
  | objectLiteral =>
    [one (mark .leftBrace),
      many (labelled .key (plain [identifier]) ++ mark .colon ++ labelled .value expressions ++
        labelled .member (plain [shorthandPropertyIdentifier]) ++ mark .comma),
      one (mark .rightBrace)]
  | assignmentExpression =>
    [one (labelled .left targets), one (sign .assign), one (labelled .right expressions),
      one (mark .semicolon)]
  | augmentedAssignmentExpression =>
    [one (labelled .left (plain [identifier, memberExpression, parenthesizedExpression])),
      one (labelled .operator (operators Operator.isAugmentedAssignment)),
      one (labelled .right expressions)]
  | memberExpression =>
    [one (labelled .object (plain [primaryExpression])),
      optional (labelled .optionalChain (plain [optionalChain])), optional (mark .dot),
      one (labelled .property (plain [privatePropertyIdentifier, propertyIdentifier]))]
  | callExpression =>
    [one (labelled .function operands), optional (labelled .optionalChain (plain [optionalChain])),
      one (labelled .arguments (plain [argumentList]))]
  | binaryExpression =>
    [one (labelled .left (expressions ++ plain [privatePropertyIdentifier])),
      one (labelled .operator (operators Operator.isBinary)), one (labelled .right expressions)]
  | unaryExpression =>
    [one (labelled .operator (operators Operator.isUnary)), one (labelled .argument expressions)]
  | pattern => [one (targets ++ plain [restPattern])]
  | restPattern => [one (mark .ellipsis), one targets]
  | assignmentPattern =>
    [one (labelled .left (plain [pattern])), one (sign .assign), one (labelled .right expressions)]
  | pairPattern =>
    [one (labelled .key (plain [identifier, privatePropertyIdentifier])), one (mark .colon),
      one (labelled .value (plain [pattern, assignmentPattern]))]
  | objectPattern =>
    [one (mark .leftBrace),
      many (plain [pairPattern, restPattern, shorthandPropertyIdentifierPattern] ++ mark .comma),
      one (mark .rightBrace)]
  | arrayPattern =>
    [one (mark .leftBracket), many (plain [pattern, assignmentPattern] ++ mark .comma),
      one (mark .rightBracket)]
  | shorthandPropertyIdentifierPattern => [optional (plain [privatePropertyIdentifier])]
  | string =>
    [one (mark .doubleQuote ++ mark .singleQuote), many (plain [stringFragment, escapeSequence]),
      one (mark .doubleQuote ++ mark .singleQuote)]
  | templateString =>
    [one (mark .backtick), many (plain [stringFragment, escapeSequence, templateSubstitution]),
      one (mark .backtick)]
  | templateSubstitution => [one (mark .dollarBrace), one expressions, one (mark .rightBrace)]
  | regex =>
    [one (sign .divide), one (labelled .pattern (plain [regexPattern])), one (sign .divide),
      optional (labelled .flags (plain [regexFlags]))]
  | comptimeIdentifier => [one (mark .atSign), one (plain [identifier])]
  | privatePropertyIdentifier => [one (mark .hash), one (plain [identifier])]
  | _ => []

end NodeKind

/-- The children under a symbol; tokens have none. -/
def Symbol.row : Symbol → List Item
  | named kind => kind.row
  | _ => []

/-! ### Facts about rows -/

theorem Matches.uncons {roles : List Role} {row : List Item} {c : Node} {cs : List Node}
    (h : Matches (.one roles :: row) (c :: cs)) : c.role ∈ roles ∧ Matches row cs := by
  cases h with
  | one hrole hrest => exact ⟨hrole, hrest⟩

theorem Role.field_of_mem_labelled {field : Field} {roles : List Role} {n : Node}
    (h : n.role ∈ labelled field roles) : n.field = some field := by
  obtain ⟨_, _, hrole⟩ := List.mem_map.mp h
  exact (congrArg Prod.fst hrole).symm

theorem Matches.role_mem {row : List Item} {cs : List Node} (h : Matches row cs) :
    ∀ c ∈ cs, ∃ item ∈ row, c.role ∈ item.roles := by
  induction h with
  | nil => intro c hc; cases hc
  | one hrole _ ih | present hrole _ ih =>
    intro c hc
    rcases List.mem_cons.mp hc with rfl | hc
    · exact ⟨_, List.mem_cons_self .., hrole⟩
    · obtain ⟨item, hi, hr⟩ := ih c hc
      exact ⟨item, List.mem_cons_of_mem _ hi, hr⟩
  | absent _ ih =>
    intro c hc
    obtain ⟨item, hi, hr⟩ := ih c hc
    exact ⟨item, List.mem_cons_of_mem _ hi, hr⟩
  | many hroles _ ih =>
    intro c hc
    rcases List.mem_append.mp hc with hc | hc
    · exact ⟨_, List.mem_cons_self .., hroles c hc⟩
    · obtain ⟨item, hi, hr⟩ := ih c hc
      exact ⟨item, List.mem_cons_of_mem _ hi, hr⟩

/-- The roles that a first child may have. -/
def headRoles : List Item → List Role
  | [] => []
  | .one roles :: _ => roles
  | item :: row => item.roles ++ headRoles row

theorem Matches.head_role {row : List Item} {c : Node} {cs : List Node}
    (h : Matches row (c :: cs)) : c.role ∈ headRoles row := by
  generalize hl : c :: cs = nodes at h
  induction h with
  | nil => cases hl
  | one hrole =>
    cases hl
    exact hrole
  | absent _ ih => exact List.mem_append_right _ (ih hl)
  | present hrole =>
    cases hl
    exact List.mem_append_left _ hrole
  | @many roles row here cs' hroles _ ih =>
    cases here with
    | nil => exact List.mem_append_right _ (ih hl)
    | cons c' here =>
      cases hl
      exact List.mem_append_left _ (hroles c (List.mem_cons_self ..))

end ScriptTree
