import Mathlib
import ScriptTree.Proofs.Grammar.Precedence
import ScriptTree.Token.Lexer

/-! Expressions as terms, apart from any text.

A term is written as a list of lexemes, without a bracket that it does not have itself
(`Term.lexemes`). It can be written so only if the operands of its operators fit them, and if what is
called and accessed can be; such a term is `Proper`. A node is read back as the term that it stands for
(`Node.term?`): the nodes around primary expressions are left out, every other one has its
counterpart. -/
namespace ScriptTree

/-! ### Names and integers -/

/-- Whether a word is an identifier. -/
def isName (name : String) : Bool :=
  name.toList.head?.any Lexeme.isIdentifierStart && name.toList.all Lexeme.isIdentifierPart &&
    (Keyword.findReserved? name).isNone

/-- Whether a text is a decimal integer. -/
def isInteger (digits : String) : Bool := !digits.toList.isEmpty && digits.toList.all Char.isDigit

/-- How the lexer reads an operator. -/
def Operator.lexeme : Operator → Lexeme
  | instanceOf => .keyword .instanceofWord
  | membership => .keyword .inWord
  | typeOf => .keyword .typeofWord
  | voidOf => .keyword .voidWord
  | o => .operator o

instance (own left : Nat × Associativity) : Decidable (LeftFits own left) :=
  match own with
  | (precedence, .left) => inferInstanceAs (Decidable (precedence ≤ left.1))
  | (precedence, .right) => inferInstanceAs (Decidable (precedence < left.1))

instance (own right : Nat × Associativity) : Decidable (RightFits own right) :=
  match own with
  | (precedence, .left) => inferInstanceAs (Decidable (precedence < right.1))
  | (precedence, .right) => inferInstanceAs (Decidable (precedence ≤ right.1))

/-! ### Terms -/

/-- An expression of names, integers and operators. -/
inductive Term where
  | identifier (name : String)
  | number (digits : String)
  | parenthesized (inner : Term)
  | member (object : Term) (name : String)
  | call (callee : Term) (arguments : List Term)
  | unary (o : Operator) (argument : Term)
  | binary (o : Operator) (left right : Term)

namespace Term

mutual

/-- The tokens of a term. -/
def lexemes : Term → List Lexeme
  | identifier name => [.identifier name.toList]
  | number digits => [.number digits.toList none]
  | parenthesized inner => .punctuation .leftParen :: inner.lexemes ++ [.punctuation .rightParen]
  | member object name => object.lexemes ++ [.punctuation .dot, .identifier name.toList]
  | call callee arguments =>
    callee.lexemes ++ .punctuation .leftParen :: argumentLexemes arguments ++ [.punctuation .rightParen]
  | unary o argument => o.lexeme :: argument.lexemes
  | binary o left right => left.lexemes ++ o.lexeme :: right.lexemes

/-- The tokens of arguments, with commas between them. -/
def argumentLexemes : List Term → List Lexeme
  | [] => []
  | [argument] => argument.lexemes
  | argument :: next :: arguments =>
    argument.lexemes ++ .punctuation .comma :: argumentLexemes (next :: arguments)

end

/-- Whether the term can be the object of a member access. -/
def isPrimary : Term → Bool
  | identifier _ | number _ | parenthesized _ | member .. => true
  | _ => false

/-- Whether the term can be called. -/
def isOperand : Term → Bool
  | call .. => true
  | e => e.isPrimary

/-- Precedence and grouping of a binary term. -/
def binding? : Term → Option (Nat × Associativity)
  | binary o .. => o.binding?
  | _ => none

def isBinary : Term → Bool
  | binary .. => true
  | _ => false

/-- Whether a term needs no more brackets than it has. -/
inductive Proper : Term → Prop
  | identifier {name} (spelled : isName name) : Proper (.identifier name)
  | number {digits} (spelled : isInteger digits) : Proper (.number digits)
  | parenthesized {inner} (below : Proper inner) : Proper (.parenthesized inner)
  | member {object name} (accessible : object.isPrimary) (below : Proper object)
      (spelled : isName name) : Proper (.member object name)
  | call {callee arguments} (callable : callee.isOperand) (below : Proper callee)
      (items : ∀ a ∈ arguments, Proper a) : Proper (.call callee arguments)
  | unary {o argument} (prefixed : o.isUnary) (bare : ¬argument.isBinary) (below : Proper argument) :
      Proper (.unary o argument)
  | binary {o left right own} (between : o.binding? = some own)
      (fitsLeft : ∀ other ∈ left.binding?, LeftFits own other)
      (fitsRight : ∀ other ∈ right.binding?, RightFits own other) (below : Proper left)
      (behind : Proper right) : Proper (.binary o left right)

end Term

/-! ### Terms of nodes -/

namespace Node

/-- Whether nodes begin and end with these marks. -/
def bracketed (opening closing : Punctuation) (children : List Node) : Bool :=
  children.head?.any (·.symbol == .punctuation opening) &&
    children.getLast?.any (·.symbol == .punctuation closing)

mutual

/-- The term that a node stands for, if it is an expression of names, integers and operators. -/
def term? (source : String) : Node → Option Term
  | ⟨symbol, span, _, _, _, children⟩ =>
    match symbol.kind?, children with
    | some .identifier, [] => some (.identifier (span.slice source))
    | some .number, [] => some (.number (span.slice source))
    | some .primaryExpression, [inner] => inner.term? source
    | some .parenthesizedExpression, [opening, inner, closing] =>
      if bracketed .leftParen .rightParen [opening, closing] then
        (inner.term? source).map .parenthesized
      else none
    | some .memberExpression, [object, mark, property] =>
      if mark.symbol = .punctuation .dot ∧ property.kind? = some .propertyIdentifier then
        (object.term? source).map (.member · (property.span.slice source))
      else none
    | some .callExpression, [callee, ⟨.named .argumentList, _, _, _, _, opening :: items⟩] =>
      if bracketed .leftParen .rightParen (opening :: items) then do
        return .call (← callee.term? source) (← arguments? source items)
      else none
    | some .unaryExpression, [sign, argument] => do
      return .unary (← sign.symbol.operator?) (← argument.term? source)
    | some .binaryExpression, [left, sign, right] => do
      return .binary (← sign.symbol.operator?) (← left.term? source) (← right.term? source)
    | _, _ => none

/-- The terms of arguments, with the marks behind them. -/
def arguments? (source : String) : List Node → Option (List Term)
  | [] => none
  | [_] => some []
  | argument :: mark :: items => do
    let first ← argument.term? source
    if mark.symbol = .punctuation .comma then
      return first :: (← arguments? source items)
    else if items = [] then return [first] else none

end

section Reading
variable {source : String} {n mark opening closing : Node} {e : Term}

@[simp] theorem term?_withField (n : Node) (field : Field) :
    (n.withField field).term? source = n.term? source := by
  obtain ⟨symbol, span, field, missing, extra, children⟩ := n
  rw [term?.eq_def, term?.eq_def source ⟨symbol, span, field, missing, extra, children⟩, withField]

/-- What stands for a term is no assignment. -/
theorem isAssignment_of_term? (h : n.term? source = some e) : Parsing.isAssignment n = false := by
  obtain ⟨symbol, span, field, missing, extra, children⟩ := n
  rw [term?.eq_def] at h
  rw [Parsing.isAssignment, kind?]
  dsimp only at h ⊢
  split at h
  case h_9 => cases h
  all_goals
    rename_i hkind
    rw [hkind]
    rfl

theorem term?_parenthesized (h : n.term? source = some e)
    (hopening : opening.symbol = .punctuation .leftParen)
    (hclosing : closing.symbol = .punctuation .rightParen) :
    (ofChildren .parenthesizedExpression [opening, n, closing]).term? source =
      some (.parenthesized e) := by
  rw [term?.eq_def, ofChildren]
  simp [Symbol.kind?, bracketed, h, hopening, hclosing]

theorem term?_member {property : Node} {name : String} (h : n.term? source = some e)
    (hmark : mark.symbol = .punctuation .dot)
    (hproperty : property.kind? = some .propertyIdentifier)
    (hname : property.span.slice source = name) :
    (ofChildren .memberExpression [n, mark, property]).term? source = some (.member e name) := by
  rw [term?.eq_def, ofChildren]
  simp [Symbol.kind?, h, hmark, hproperty, hname]

theorem term?_call {items : List Node} {arguments : List Term} {field : Option Field}
    (h : n.term? source = some e)
    (hopening : opening.symbol = .punctuation .leftParen)
    (hclosing : closing.symbol = .punctuation .rightParen)
    (hitems : arguments? source (items ++ [closing]) = some arguments) :
    (ofChildren .callExpression
      [n, { ofChildren .argumentList (opening :: (items ++ [closing])) with field }]).term? source =
      some (.call e arguments) := by
  have hlast : (opening :: (items ++ [closing])).getLast? = some closing := by
    rw [← List.cons_append, List.getLast?_concat]
  rw [term?.eq_def, ofChildren]
  simp [Symbol.kind?, ofChildren, bracketed, h, hopening, hlast, hclosing, hitems]

theorem term?_unary {sign : Node} {o : Operator} (hsign : sign.symbol.operator? = some o)
    (h : n.term? source = some e) :
    (ofChildren .unaryExpression [sign, n]).term? source = some (.unary o e) := by
  rw [term?.eq_def, ofChildren]
  simp [Symbol.kind?, h, hsign]

theorem term?_binary {sign m : Node} {o : Operator} {e' : Term} (h : n.term? source = some e)
    (hsign : sign.symbol.operator? = some o) (h' : m.term? source = some e') :
    (ofChildren .binaryExpression [n, sign, m]).term? source = some (.binary o e e') := by
  rw [term?.eq_def, ofChildren]
  simp [Symbol.kind?, h, hsign, h']

theorem arguments?_last (h : n.term? source = some e)
    (hclosing : closing.symbol = .punctuation .rightParen) :
    arguments? source [n, closing] = some [e] := by
  simp [arguments?, h, hclosing]

theorem arguments?_cons {items : List Node} {arguments : List Term} (h : n.term? source = some e)
    (hmark : mark.symbol = .punctuation .comma) (hitems : arguments? source items = some arguments) :
    arguments? source (n :: mark :: items) = some (e :: arguments) := by
  simp [arguments?, h, hmark, hitems]

end Reading

end Node

end ScriptTree
