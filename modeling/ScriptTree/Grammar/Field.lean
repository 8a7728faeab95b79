/-! Fields: the roles that children play in their parent.

Fields are ordered by name and numbered from one; zero means no field. -/
namespace ScriptTree

/-- The role of a child. -/
inductive Field where
  | alternative
  | argument
  | arguments
  | body
  | condition
  | consequence
  | rangeEnd
  | flags
  | function
  | key
  | kind
  | left
  | member
  | declaredName
  | object
  | operator
  | optionalChain
  | pattern
  | property
  | returnType
  | right
  | spread
  | rangeStart
  | type
  | value
deriving DecidableEq, Repr, Inhabited

namespace Field

/-- All fields, ordered by name. -/
def all : List Field :=
  [alternative, argument, arguments, body, condition, consequence, rangeEnd, flags, function, key,
    kind, left, member, declaredName, object, operator, optionalChain, pattern, property,
    returnType, right, spread, rangeStart, type, value]

def name : Field → String
  | alternative => "alternative"
  | argument => "argument"
  | arguments => "arguments"
  | body => "body"
  | condition => "condition"
  | consequence => "consequence"
  | rangeEnd => "end"
  | flags => "flags"
  | function => "function"
  | key => "key"
  | kind => "kind"
  | left => "left"
  | member => "member"
  | declaredName => "name"
  | object => "object"
  | operator => "operator"
  | optionalChain => "optional_chain"
  | pattern => "pattern"
  | property => "property"
  | returnType => "return_type"
  | right => "right"
  | spread => "spread"
  | rangeStart => "start"
  | type => "type"
  | value => "value"

/-- The number of the field, from one. -/
def id (field : Field) : Nat := field.ctorIdx + 1

def ofId? (id : Nat) : Option Field := if id = 0 then none else all[id - 1]?

def ofName? (name : String) : Option Field := all.find? fun field => field.name == name

end Field

end ScriptTree
