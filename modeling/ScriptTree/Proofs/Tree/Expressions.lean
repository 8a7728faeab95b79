import Mathlib
import ScriptTree.Proofs.Parsing.Outcome
import ScriptTree.Tree.Text

/-! S-expressions by recursion.

An S-expression is written from a list of what is still to be written. `Node.expression` says by
recursion what it should be: the kind and the expressions of the children that are shown, between
parentheses. What is pending has a text of its own, whatever has been written so far, and writing puts
these texts one behind the other (`writeSexp_eq`), so the two agree. In a tree the recursion goes by
the numbers of the children (`Tree.Expressed`). -/
namespace ScriptTree

namespace Node

/-- The name of the field that a node fills, if it fills one. -/
def label (n : Node) : String :=
  match n.field with
  | some field => field.name ++ ": "
  | none => ""

mutual

/-- The S-expression of a node. -/
def expression : Node → String
  | ⟨symbol, _, _, missing, _, children⟩ =>
    if missing then
      if symbol.isNamed then "(MISSING " ++ symbol.name ++ ")"
      else "(MISSING \x22" ++ symbol.name ++ "\x22)"
    else "(" ++ symbol.name ++ expressions children ++ ")"

/-- Those of siblings, where they are named or missing, each behind a blank and the name of its
field. -/
def expressions : List Node → String
  | [] => ""
  | n :: nodes =>
    (if n.isNamed || n.missing then " " ++ n.label ++ n.expression else "") ++
      expressions nodes

end

theorem expression_missing {n : Node} (h : n.missing = true) : n.expression =
    if n.isNamed then "(MISSING " ++ n.name ++ ")" else "(MISSING \x22" ++ n.name ++ "\x22)" := by
  obtain ⟨symbol, span, field, missing, extra, children⟩ := n
  obtain rfl : missing = true := h
  rw [expression]
  rfl

theorem expression_present {n : Node} (h : n.missing = false) :
    n.expression = "(" ++ n.name ++ expressions n.children ++ ")" := by
  obtain ⟨symbol, span, field, missing, extra, children⟩ := n
  obtain rfl : missing = false := h
  rw [expression]
  rfl

theorem expressions_eq (nodes : List Node) : expressions nodes =
    String.join ((nodes.filter fun n => n.isNamed || n.missing).map fun n =>
      " " ++ n.label ++ n.expression) := by
  induction nodes with
  | nil => rfl
  | cons n nodes ih =>
    rw [expressions, ih, List.filter_cons]
    split
    · rw [List.map_cons, String.join_cons]
    · rw [String.empty_append]

/-! ### What is pending -/

/-- The text that something pending will become. -/
def Pending.expression : Pending → String
  | .node lead n => lead ++ n.expression
  | .closing => ")"

theorem fieldLead_eq (n : Node) : n.fieldLead = " " ++ n.label := by
  rw [fieldLead, label]
  cases n.field with
  | none => rfl
  | some field => exact String.append_assoc

theorem missingText_eq {n : Node} (h : n.missing = true) : n.missingText = n.expression := by
  rw [missingText, expression_missing h]
  rfl

theorem join_shownChildren (nodes : List Node) :
    String.join ((shownChildren nodes).map Pending.expression) = expressions nodes := by
  rw [shownChildren, List.map_map, expressions_eq]
  refine congrArg String.join (List.map_congr_left fun n _ => ?_)
  rw [Function.comp_apply, Pending.expression, fieldLead_eq]

/-- Writing puts the texts of what is pending behind what has been written. -/
theorem writeSexp_eq (out : String) (pending : List Pending) :
    writeSexp out pending = out ++ String.join (pending.map Pending.expression) := by
  fun_induction writeSexp out pending with
  | case1 out => rw [List.map_nil, String.join_nil, String.append_empty]
  | case2 out rest ih =>
    rw [ih, List.map_cons, String.join_cons, String.append_assoc, Pending.expression]
  | case3 out lead n rest hmissing ih =>
    rw [ih, missingText_eq hmissing, List.map_cons, String.join_cons, Pending.expression]
    simp only [String.append_assoc]
  | case4 out lead n rest hpresent ih =>
    rw [ih, List.map_append, List.map_cons, String.join_append, String.join_cons, join_shownChildren,
      List.map_cons, String.join_cons, Pending.expression, Pending.expression,
      expression_present (Bool.eq_false_iff.mpr hpresent)]
    simp only [String.append_assoc]

theorem sexp_eq (n : Node) : n.sexp = n.expression := by
  rw [sexp, writeSexp_eq, List.map_singleton, String.join_cons, String.join_nil, String.append_empty,
    Pending.expression, String.empty_append, String.empty_append]

end Node

/-! ### Trees -/

namespace Tree

/-- The S-expression of the node with a number. -/
def expression (t : Tree) (id : Nat) : String := (t.node id).expression

/-- What the S-expressions of a tree are: those of a recursion over the children by their numbers. -/
structure Expressed (t : Tree) : Prop where
  root : t.sexp = t.expression 0
  sexp : ∀ id < t.nodeCount, (t.node id).sexp = t.expression id
  missing : ∀ id < t.nodeCount, (t.node id).missing = true → t.expression id =
    if t.isNamed id then "(MISSING " ++ (t.node id).name ++ ")"
    else "(MISSING \x22" ++ (t.node id).name ++ "\x22)"
  present : ∀ id < t.nodeCount, (t.node id).missing = false → t.expression id =
    "(" ++ (t.node id).name ++
      String.join (((t.children id).toList.filter fun c => t.isNamed c || (t.node c).missing).map
        fun c => " " ++ (t.node c).label ++ t.expression c) ++ ")"

theorem ofRoot_expressed (source : String) (root : Node) (problems : List Problem) :
    (ofRoot source root problems).Expressed where
  root := Node.sexp_eq _
  sexp _ _ := Node.sexp_eq _
  missing _ _ h := Node.expression_missing h
  present id hid h := by
    rw [nodeCount_ofRoot] at hid
    obtain ⟨parent, n, hn⟩ := Sits.exists_of_lt hid
    have hchildren : _ = n.children := @Sits.map_children _ _ _ _ source problems hn
    rw [expression, Node.expression_present h, hn.node_eq, ← hchildren, Node.expressions_eq,
      List.filter_map, List.map_map]
    rfl

end Tree

/-- **The S-expressions of a parse are those of the recursion over its nodes.** -/
theorem parse_expressed (source : String) (options : ParseOptions) :
    (parse source options).Expressed := by
  rcases parse_cases source options with h | ⟨limit, h⟩ <;> rw [h] <;>
    exact Tree.ofRoot_expressed _ _ _

end ScriptTree
