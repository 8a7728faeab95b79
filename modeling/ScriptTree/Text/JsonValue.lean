/-! JSON values and their text.

What writes trees does not depend on how the text of a value is made; the one that is made here is what it
is run with (`JsonValue.text`). Only quotes, backslashes and control characters are escaped in strings. On
one line, members of an object come by name; the indented form keeps the order in which they are listed,
and puts every item on a line of its own, two spaces deeper than its container; an empty container stays on
one line. -/
namespace ScriptTree

/-- A JSON value whose numbers are natural. -/
inductive JsonValue where
  | bool (value : Bool)
  | number (value : Nat)
  | string (value : String)
  | array (items : List JsonValue)
  | object (members : List (String × JsonValue))
deriving Inhabited

namespace JsonValue

/-! ### Strings -/

/-- `n` in hexadecimal, with four digits. -/
def fourDigits (n : Nat) : String :=
  let digits := Nat.toDigits 16 n
  String.ofList (List.replicate (4 - digits.length) '0' ++ digits)

/-- How one character is written in a string. -/
def escape (c : Char) : String :=
  if c == '\x22' then "\\\x22"
  else if c == '\\' then "\\\\"
  else if c == '\x08' then "\\b"
  else if c == '\x0C' then "\\f"
  else if c == '\n' then "\\n"
  else if c == '\r' then "\\r"
  else if c == '\t' then "\\t"
  else if c.toNat < 0x20 then "\\u" ++ fourDigits c.toNat
  else c.toString

def quote (text : String) : String :=
  "\x22" ++ text.foldl (fun written c => written ++ escape c) "" ++ "\x22"

/-! ### Compact text -/

mutual

/-- The text on one line, without blanks. -/
def compact : JsonValue → String
  | bool value => toString value
  | number value => toString value
  | string value => quote value
  | array items => "[" ++ ",".intercalate (compactItems items) ++ "]"
  | object members => "\x7b" ++ ",".intercalate (compactMembers members) ++ "\x7d"

def compactItems : List JsonValue → List String
  | [] => []
  | item :: items => item.compact :: compactItems items

def compactMembers : List (String × JsonValue) → List String
  | [] => []
  | (name, value) :: members => (quote name ++ ":" ++ value.compact) :: compactMembers members

end

/-- Members by name. -/
def byName (members : List (String × JsonValue)) : List (String × JsonValue) :=
  members.mergeSort fun a b => a.1 ≤ b.1

mutual

/-- The value with the members of every object by name. -/
def ordered : JsonValue → JsonValue
  | bool value => bool value
  | number value => number value
  | string value => string value
  | array items => array (orderedItems items)
  | object members => object (byName (orderedMembers members))

def orderedItems : List JsonValue → List JsonValue
  | [] => []
  | item :: items => item.ordered :: orderedItems items

def orderedMembers : List (String × JsonValue) → List (String × JsonValue)
  | [] => []
  | (name, value) :: members => (name, value.ordered) :: orderedMembers members

end

/-- The text on one line, with the members of every object by name. -/
def text (value : JsonValue) : String := value.ordered.compact

/-! ### Indented text -/

/-- The items of a container between its brackets, each on a line of its own. -/
def enclose (indent : Nat) (opening closing : String) (items : List String) : String :=
  let margin := String.ofList (List.replicate indent ' ')
  if items.isEmpty then opening ++ closing
  else
    opening ++ ",".intercalate (items.map fun item => "\n  " ++ margin ++ item) ++ "\n" ++ margin ++
      closing

mutual

/-- The indented text of a value whose own line is indented by `indent`. -/
def indented (indent : Nat) : JsonValue → String
  | bool value => toString value
  | number value => toString value
  | string value => quote value
  | array items => enclose indent "[" "]" (indentedItems (indent + 2) items)
  | object members => enclose indent "\x7b" "\x7d" (indentedMembers (indent + 2) members)

def indentedItems (indent : Nat) : List JsonValue → List String
  | [] => []
  | item :: items => item.indented indent :: indentedItems indent items

def indentedMembers (indent : Nat) : List (String × JsonValue) → List String
  | [] => []
  | (name, value) :: members =>
    (quote name ++ ": " ++ value.indented indent) :: indentedMembers indent members

end

/-- The indented text of a value. -/
def pretty (value : JsonValue) : String := value.indented 0

end JsonValue

end ScriptTree
