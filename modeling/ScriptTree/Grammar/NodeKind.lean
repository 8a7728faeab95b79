/-! Node kinds: what the named nodes of a tree are.

The kinds are listed in the order in which symbols are numbered. The last three are supertypes,
which group other kinds in the description of the grammar and never occur in a tree. -/
namespace ScriptTree

/-- What a named node is. -/
inductive NodeKind where
  | program
  | identifier
  | privatePropertyIdentifier
  | comptimeIdentifier
  | propertyIdentifier
  | shorthandPropertyIdentifier
  | shorthandPropertyIdentifierPattern
  | trueLiteral
  | falseLiteral
  | undefinedLiteral
  | number
  | string
  | stringFragment
  | escapeSequence
  | templateString
  | templateSubstitution
  | regex
  | regexPattern
  | regexFlags
  | comment
  | htmlComment
  | typeAscription
  | typeIdentifier
  | primitiveType
  | orUndefinedType
  | arrayType
  | tupleType
  | unionType
  | blockStatement
  | breakStatement
  | returnStatement
  | ifStatement
  | callStatement
  | variableDeclaration
  | constMark
  | letMark
  | enumDeclaration
  | functionDeclaration
  | argumentListDeclaration
  | argumentDeclaration
  | primaryExpression
  | parenthesizedExpression
  | ifTernaryExpression
  | matchExpression
  | matchCase
  | matchRange
  | matchElse
  | argumentList
  | spreadArgument
  | anonymousFunctionExpression
  | arrowFunctionExpression
  | arrayLiteral
  | objectLiteral
  | assignmentExpression
  | augmentedAssignmentExpression
  | optionalChain
  | memberExpression
  | callExpression
  | binaryExpression
  | unaryExpression
  | pattern
  | restPattern
  | assignmentPattern
  | pairPattern
  | objectPattern
  | arrayPattern
  | error
  | statement
  | expression
  | type
deriving DecidableEq, Repr, Inhabited

namespace NodeKind

/-- All kinds, in the order in which symbols are numbered. -/
def all : List NodeKind :=
  [program, identifier, privatePropertyIdentifier, comptimeIdentifier, propertyIdentifier,
    shorthandPropertyIdentifier, shorthandPropertyIdentifierPattern, trueLiteral, falseLiteral,
    undefinedLiteral, number, string, stringFragment, escapeSequence, templateString,
    templateSubstitution, regex, regexPattern, regexFlags, comment, htmlComment, typeAscription,
    typeIdentifier, primitiveType, orUndefinedType, arrayType, tupleType, unionType, blockStatement,
    breakStatement, returnStatement, ifStatement, callStatement, variableDeclaration, constMark,
    letMark, enumDeclaration, functionDeclaration, argumentListDeclaration, argumentDeclaration,
    primaryExpression, parenthesizedExpression, ifTernaryExpression, matchExpression, matchCase,
    matchRange, matchElse, argumentList, spreadArgument, anonymousFunctionExpression,
    arrowFunctionExpression, arrayLiteral, objectLiteral, assignmentExpression,
    augmentedAssignmentExpression, optionalChain, memberExpression, callExpression,
    binaryExpression, unaryExpression, pattern, restPattern, assignmentPattern, pairPattern,
    objectPattern, arrayPattern, error, statement, expression, type]

/-- The position in `all`. -/
def index (kind : NodeKind) : Nat := kind.ctorIdx

def name : NodeKind → String
  | program => "program"
  | identifier => "identifier"
  | privatePropertyIdentifier => "private_property_identifier"
  | comptimeIdentifier => "comptime_identifier"
  | propertyIdentifier => "property_identifier"
  | shorthandPropertyIdentifier => "shorthand_property_identifier"
  | shorthandPropertyIdentifierPattern => "shorthand_property_identifier_pattern"
  | trueLiteral => "true"
  | falseLiteral => "false"
  | undefinedLiteral => "undefined"
  | number => "number"
  | string => "string"
  | stringFragment => "string_fragment"
  | escapeSequence => "escape_sequence"
  | templateString => "template_string"
  | templateSubstitution => "template_substitution"
  | regex => "regex"
  | regexPattern => "regex_pattern"
  | regexFlags => "regex_flags"
  | comment => "comment"
  | htmlComment => "html_comment"
  | typeAscription => "type_annotation"
  | typeIdentifier => "type_identifier"
  | primitiveType => "primitive_type"
  | orUndefinedType => "or_undefined_type"
  | arrayType => "array_type"
  | tupleType => "tuple_type"
  | unionType => "union_type"
  | blockStatement => "block_statement"
  | breakStatement => "break_statement"
  | returnStatement => "return_statement"
  | ifStatement => "if_statement"
  | callStatement => "call_statement"
  | variableDeclaration => "variable_declaration"
  | constMark => "const"
  | letMark => "let"
  | enumDeclaration => "enum_declaration"
  | functionDeclaration => "function_declaration"
  | argumentListDeclaration => "argument_list_declaration"
  | argumentDeclaration => "argument_declaration"
  | primaryExpression => "primary_expression"
  | parenthesizedExpression => "parenthesized_expression"
  | ifTernaryExpression => "if_ternary_expression"
  | matchExpression => "match_expression"
  | matchCase => "match_case"
  | matchRange => "match_range"
  | matchElse => "match_else"
  | argumentList => "argument_list"
  | spreadArgument => "spread_argument"
  | anonymousFunctionExpression => "anonymous_function_expression"
  | arrowFunctionExpression => "arrow_function_expression"
  | arrayLiteral => "array_literal"
  | objectLiteral => "object_literal"
  | assignmentExpression => "assignment_expression"
  | augmentedAssignmentExpression => "augmented_assignment_expression"
  | optionalChain => "optional_chain"
  | memberExpression => "member_expression"
  | callExpression => "call_expression"
  | binaryExpression => "binary_expression"
  | unaryExpression => "unary_expression"
  | pattern => "pattern"
  | restPattern => "rest_pattern"
  | assignmentPattern => "assignment_pattern"
  | pairPattern => "pair_pattern"
  | objectPattern => "object_pattern"
  | arrayPattern => "array_pattern"
  | error => "ERROR"
  | statement => "statement"
  | expression => "expression"
  | type => "type"

/-- Whether the kind groups other kinds. -/
def isSupertype : NodeKind → Bool
  | statement | expression | type => true
  | _ => false

/-- Whether nodes of the kind occur in trees. -/
def isVisible (kind : NodeKind) : Bool := !kind.isSupertype

/-- Whether nodes of the kind may stand between any two tokens. -/
def isExtra : NodeKind → Bool
  | comment | htmlComment => true
  | _ => false

/-- The kinds that a supertype groups. -/
def subtypes : NodeKind → List NodeKind
  | statement =>
    [blockStatement, breakStatement, callStatement, enumDeclaration, functionDeclaration,
      ifStatement, matchExpression, returnStatement, variableDeclaration, assignmentExpression]
  | expression =>
    [anonymousFunctionExpression, arrowFunctionExpression, assignmentExpression,
      augmentedAssignmentExpression, binaryExpression, callExpression, ifTernaryExpression,
      primaryExpression, unaryExpression]
  | type => [arrayType, orUndefinedType, primitiveType, tupleType, typeIdentifier, unionType]
  | _ => []

end NodeKind

end ScriptTree
