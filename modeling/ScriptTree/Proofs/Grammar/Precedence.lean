import Mathlib
import ScriptTree.Parsing.Operation
import ScriptTree.Proofs.Grammar.Shape
import ScriptTree.Proofs.Tree.Preorder

/-! What an operator demands of its operands.

An operand that is a binary expression itself binds tighter than the operator, or as tight on the
side to which operators of that precedence group (`LeftFits`, `RightFits`). The test for a private
member is left out on the right: its first operand is no expression. `Grouped` says this of two
operands; where an assignment inside ends a chain early it does not hold, which `FitsOperator`
allows for. -/
namespace ScriptTree

/-- The operator that a symbol stands for in trees. -/
def Symbol.operator? (symbol : Symbol) : Option Operator :=
  Operator.all.find? fun o => o.symbol == symbol

/-- Whether a binary expression may stand on the left of an operator. -/
def LeftFits : (own left : Nat × Associativity) → Prop
  | (precedence, .left), left => precedence ≤ left.1
  | (precedence, .right), left => precedence < left.1

/-- Whether a binary expression may stand on the right of an operator. -/
def RightFits : (own right : Nat × Associativity) → Prop
  | (precedence, .left), right => precedence < right.1
  | (precedence, .right), right => precedence ≤ right.1

namespace Node

/-- The first child in the role of a field. -/
def childAt? (n : Node) (field : Field) : Option Node := n.children.find? (·.field == some field)

/-- The operator of an expression that has one. -/
def operator? (n : Node) : Option Operator :=
  (n.childAt? .operator).bind fun sign => sign.symbol.operator?

/-- Precedence and grouping of the operator of a binary expression. -/
def binding? (n : Node) : Option (Nat × Associativity) := n.operator?.bind Operator.binding?

/-- Whether the left operand of a binary expression is a private name. -/
def namesPrivate (n : Node) : Bool :=
  (n.childAt? .left).any fun left => left.kind? = some .privatePropertyIdentifier

/-- Whether the node is the test for a private member, if it is a binary expression. -/
def testsPrivate (n : Node) : Bool := n.namesPrivate && n.operator? = some .membership

/-- Whether an assignment is in the subtree. -/
def Assigns (n : Node) : Prop := ∃ m ∈ n.preorder, m.kind? = some .assignmentExpression

theorem assigns_iff {n : Node} : n.Assigns ↔
    n.kind? = some .assignmentExpression ∨ ∃ c ∈ n.children, c.Assigns := by
  rw [Assigns, preorder_eq, List.exists_mem_cons_iff]
  refine or_congr_right ⟨?_, ?_⟩
  · rintro ⟨m, hm, hkind⟩
    obtain ⟨c, hc, hm⟩ := mem_preorderAll.mp hm
    exact ⟨c, hc, m, hm, hkind⟩
  · rintro ⟨c, hc, m, hm, hkind⟩
    exact ⟨m, mem_preorderAll.mpr ⟨c, hc, hm⟩, hkind⟩

@[simp] theorem assigns_withField {n : Node} {field : Field} :
    (n.withField field).Assigns ↔ n.Assigns := by
  rw [assigns_iff, assigns_iff (n := n)]
  rfl

@[simp] theorem binding?_withField {n : Node} {field : Field} :
    (n.withField field).binding? = n.binding? := rfl

@[simp] theorem testsPrivate_withField {n : Node} {field : Field} :
    (n.withField field).testsPrivate = n.testsPrivate := rfl

@[simp] theorem kind?_withField {n : Node} {field : Field} :
    (n.withField field).kind? = n.kind? := rfl

theorem exists_operator_of_binding? {n : Node} {binding : Nat × Associativity}
    (h : n.binding? = some binding) : ∃ o : Operator, o.binding? = some binding :=
  (Option.bind_eq_some_iff.mp h).imp fun _ => And.right

end Node

/-- Whether an operand, if it is a binary expression, binds in a certain way. -/
def Node.Binds (n : Node) (p : Nat × Associativity → Prop) : Prop :=
  n.kind? = some .binaryExpression → ∃ binding, n.binding? = some binding ∧ p binding

theorem Node.Binds.of_kind {n : Node} {p : Nat × Associativity → Prop}
    (h : n.kind? ≠ some .binaryExpression) : n.Binds p :=
  fun hkind => absurd hkind h

/-- Whether two operands fit the operator between them. -/
structure Grouped (own : Nat × Associativity) (left right : Node) : Prop where
  left : left.Binds (LeftFits own)
  right : right.testsPrivate = false → right.Binds (RightFits own)

/-- Whether the children of an expression with an operator fit it. -/
def FitsOperator : NodeKind → List Node → Prop
  | .binaryExpression, children => ∃ left sign right own, children = [left, sign, right] ∧
    sign.symbol.operator?.bind Operator.binding? = some own ∧
    (¬left.Assigns → ¬right.Assigns → Grouped own left right)
  | .unaryExpression, children => ∃ sign argument, children = [sign, argument] ∧
    (argument.kind? = some .binaryExpression → argument.testsPrivate = true)
  | _, _ => True

end ScriptTree
