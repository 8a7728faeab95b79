import ScriptTree.Text.JsonValue
import ScriptTree.Tree.Basic

/-! Trees as text.

The S-expression lists named and missing nodes with their fields. The JSON form has an object per
node: type, named, start and end, then the field, a mark for missing nodes and the children, where
there are any; the texts of its strings and points are made elsewhere. Both are written from a list of
what is still to be written, since chains nest without bound. -/
namespace ScriptTree

namespace Node

/-- Something still to be written. -/
inductive Pending where
  /-- Text in front of a node, and the node. -/
  | node (lead : String) (n : Node)
  /-- The end of a node whose children have been written. -/
  | closing

namespace Pending

/-- A bound for the steps that remain. -/
def size : List Pending → Nat
  | [] => 0
  | node _ n :: rest => 2 * n.count + size rest
  | closing :: rest => 1 + size rest

theorem size_append (a b : List Pending) : size (a ++ b) = size a + size b := by
  induction a with
  | nil => simp [size]
  | cons p rest ih => cases p <;> simp [size, ih, Nat.add_assoc]

theorem size_map_node (lead : Node → String) (nodes : List Node) :
    size (nodes.map fun n => node (lead n) n) = 2 * countAll nodes := by
  induction nodes with
  | nil => rfl
  | cons n rest ih => simp only [List.map_cons, size, ih, countAll]; omega

end Pending

/-! ### S-expressions -/

/-- Whether an S-expression shows the node. -/
def isShown (n : Node) : Bool := n.isNamed || n.missing

theorem countAll_filter_le (p : Node → Bool) (nodes : List Node) :
    countAll (nodes.filter p) ≤ countAll nodes := by
  induction nodes with
  | nil => simp
  | cons n rest ih =>
    rw [List.filter_cons]
    split <;> simp only [countAll] <;> omega

/-- How a missing node is shown. -/
def missingText (n : Node) : String :=
  if n.isNamed then s!"(MISSING {n.name})" else s!"(MISSING \x22{n.name}\x22)"

/-- What stands in front of a child. -/
def fieldLead (n : Node) : String :=
  match n.field with
  | some field => s!" {field.name}: "
  | none => " "

/-- The children that an S-expression shows, each with what stands in front of it. -/
def shownChildren (nodes : List Node) : List Pending :=
  (nodes.filter isShown).map fun child => .node child.fieldLead child

theorem size_shownChildren (nodes : List Node) :
    Pending.size (shownChildren nodes) ≤ 2 * countAll nodes := by
  have := countAll_filter_le isShown nodes
  rw [shownChildren, Pending.size_map_node]
  omega

/-- Writes the pending nodes as S-expressions. -/
def writeSexp (out : String) (pending : List Pending) : String :=
  match pending with
  | [] => out
  | .closing :: rest => writeSexp (out ++ ")") rest
  | .node lead n :: rest =>
    if n.missing then writeSexp (out ++ lead ++ n.missingText) rest
    else writeSexp (out ++ lead ++ "(" ++ n.name) (shownChildren n.children ++ .closing :: rest)
termination_by Pending.size pending
decreasing_by
  · simp only [Pending.size]; omega
  · have := n.count_eq
    simp only [Pending.size]; omega
  · have := n.count_eq
    have := size_shownChildren n.children
    simp only [Pending.size, Pending.size_append]; omega

/-- The S-expression of a node. -/
def sexp (n : Node) : String := writeSexp "" [.node "" n]

/-! ### JSON -/

/-- A point as an object. -/
def pointJson (p : Point) : JsonValue :=
  .object [("row", .number p.row), ("column", .number p.column)]

section Json
variable (print : JsonValue → String) (lines : LineIndex)

/-- The member for the field that a node fills, if it does. -/
def fieldJson (n : Node) : String :=
  match n.field with
  | some field => ",\x22field\x22:" ++ print (.string field.name)
  | none => ""

/-- The object of a node, up to the brackets that close it. -/
def openJson (n : Node) : String :=
  "\x7b\x22type\x22:" ++ print (.string n.name) ++
    ",\x22named\x22:" ++ toString n.isNamed ++
    ",\x22start\x22:" ++ print (pointJson (lines.point n.span.start)) ++
    ",\x22end\x22:" ++ print (pointJson (lines.point n.span.stop)) ++
    n.fieldJson print ++
    (if n.missing then ",\x22missing\x22:true" else "") ++
    if n.children.isEmpty then "\x7d" else ",\x22children\x22:["

/-- The children of a node, commas between them. -/
def separated : List Node → List Pending
  | [] => []
  | n :: nodes => .node "" n :: nodes.map (.node ",")

theorem size_separated (nodes : List Node) :
    Pending.size (separated nodes) = 2 * countAll nodes := by
  cases nodes with
  | nil => rfl
  | cons n rest =>
    simp only [separated, Pending.size, Pending.size_map_node (fun _ => ","), countAll]; omega

/-- Writes the pending nodes as JSON. -/
def writeJson (out : String) (pending : List Pending) : String :=
  match pending with
  | [] => out
  | .closing :: rest => writeJson (out ++ "]\x7d") rest
  | .node lead n :: rest =>
    writeJson (out ++ lead ++ n.openJson print lines)
      (if n.children.isEmpty then rest else separated n.children ++ .closing :: rest)
termination_by Pending.size pending
decreasing_by
  · simp only [Pending.size]; omega
  · have := n.count_eq
    split <;> simp only [Pending.size, Pending.size_append, size_separated] <;> omega

/-- The JSON text of a node. -/
def json (n : Node) : String := writeJson print lines "" [.node "" n]

end Json

end Node

namespace Tree

def sexp (t : Tree) : String := (t.node 0).sexp

/-- The JSON text, where the texts of strings and points are made by `print`. -/
def json (t : Tree) (print : JsonValue → String := JsonValue.text) : String := (t.node 0).json print t.lines

end Tree

end ScriptTree
