import Mathlib
import ScriptTree.Proofs.Parsing.Outcome
import ScriptTree.Proofs.Text.JsonReading
import ScriptTree.Tree.Text

/-! Trees as JSON values.

The JSON text of a tree is written from a list of what is still to be written, with brackets and
commas put in on the way. `Node.value` says by recursion which value it should be: an object for each
node, with the values of the children in an array. What is written is the text of that by the same
recursion (`json_eq`), put together of the texts of strings and points. All that has to be known of these is
that they are read back (`JsonValue.ReadBack`); then the whole text is (`writtens_denote`). In a tree the
recursion goes by the numbers of the children, and there are as many objects of nodes as nodes
(`Tree.Serialized`). -/
namespace ScriptTree

namespace JsonValue

mutual

/-- The number of objects in a value that have a member with this name. -/
def countWith (name : String) : JsonValue → Nat
  | bool _ | number _ | string _ => 0
  | array items => countWithAll name items
  | object members => (if members.any (·.1 == name) then 1 else 0) + countWithMembers name members

def countWithAll (name : String) : List JsonValue → Nat
  | [] => 0
  | item :: items => item.countWith name + countWithAll name items

def countWithMembers (name : String) : List (String × JsonValue) → Nat
  | [] => 0
  | (_, value) :: members => value.countWith name + countWithMembers name members

end

theorem countWithMembers_append (name : String) (a b : List (String × JsonValue)) :
    countWithMembers name (a ++ b) = countWithMembers name a + countWithMembers name b := by
  induction a with
  | nil => exact (Nat.zero_add _).symm
  | cons member a ih =>
    rw [List.cons_append, countWithMembers, countWithMembers, ih, Nat.add_assoc]

/-- Texts with commas between them are the first one and the others, each behind a comma. -/
theorem intercalate_cons (text : String) (texts : List String) :
    ",".intercalate (text :: texts) = text ++ String.join (texts.map ("," ++ ·)) := by
  induction texts generalizing text with
  | nil => rw [String.intercalate_singleton, List.map_nil, String.join_nil, String.append_empty]
  | cons next texts ih =>
    rw [String.intercalate_cons_cons, ih, List.map_cons, String.join_cons, String.append_assoc,
      String.append_assoc]

theorem countWithMembers_perm (name : String) {a b : List (String × JsonValue)} (h : a.Perm b) :
    countWithMembers name a = countWithMembers name b := by
  induction h with
  | nil => rfl
  | cons member _ ih => rw [countWithMembers, countWithMembers, ih]
  | swap a b rest => simp only [countWithMembers, Nat.add_left_comm]
  | trans _ _ ih ih' => exact ih.trans ih'

theorem orderedMembers_append (a b : List (String × JsonValue)) :
    orderedMembers (a ++ b) = orderedMembers a ++ orderedMembers b := by
  simp only [orderedMembers_eq, List.map_append]

theorem byName_perm (members : List (String × JsonValue)) : (byName members).Perm members :=
  List.mergeSort_perm ..

mutual

/-- Counting does not depend on the order of members. -/
theorem countWith_ordered (name : String) : ∀ value : JsonValue, value.ordered.countWith name = value.countWith name
  | .bool _ | .number _ | .string _ => by simp only [ordered]
  | .array items => by rw [ordered, countWith, countWith, countWithAll_ordered]
  | .object members => by
    have hnames : (byName (orderedMembers members)).any (·.1 == name) = members.any (·.1 == name) := by
      rw [(byName_perm _).any_eq, orderedMembers_eq, List.any_map]
      rfl
    rw [ordered, countWith, countWith, hnames, countWithMembers_perm name (byName_perm _),
      countWithMembers_ordered]

theorem countWithAll_ordered (name : String) : ∀ items : List JsonValue,
    countWithAll name (orderedItems items) = countWithAll name items
  | [] => rfl
  | item :: items => by
    rw [orderedItems, countWithAll, countWithAll, countWith_ordered, countWithAll_ordered]

theorem countWithMembers_ordered (name : String) : ∀ members : List (String × JsonValue),
    countWithMembers name (orderedMembers members) = countWithMembers name members
  | [] => rfl
  | (_, value) :: members => by
    rw [orderedMembers, countWithMembers, countWithMembers, countWith_ordered, countWithMembers_ordered]

end

/-- No letter is escaped. -/
theorem escape_of_isAlpha {c : Char} (h : c.isAlpha = true) : escape c = c.toString := by
  have hne (d : Char) (hd : d.isAlpha = false) : (c == d) = false := by
    rw [beq_eq_false_iff_ne]
    rintro rfl
    rw [h] at hd
    cases hd
  have hge : ¬c.toNat < 0x20 := by
    simp only [Char.isAlpha, Char.isUpper, Char.isLower, ge_iff_le, Bool.or_eq_true, Bool.and_eq_true,
      decide_eq_true_eq, UInt32.le_iff_toNat_le] at h
    have hle : 65 ≤ c.toNat := by
      rcases h with ⟨h, -⟩ | ⟨h, -⟩
      · exact h
      · exact le_trans (by decide) h
    omega
  rw [escape, hne _ (by decide), hne _ (by decide), hne _ (by decide), hne _ (by decide), hne _ (by decide),
    hne _ (by decide), hne _ (by decide), if_neg hge]
  rfl

/-- A name of letters stands between its quotes as it is. -/
theorem quote_letters {name : String} (h : name.toList.all Char.isAlpha = true) :
    quote name = "\x22" ++ name ++ "\x22" := by
  have hplain : (name.toList.flatMap fun c => (escape c).toList) = name.toList := by
    rw [List.flatMap_congr fun c hc => by
      rw [escape_of_isAlpha (List.all_eq_true.mp h c hc), Char.toString_eq_singleton, String.toList_singleton],
      List.flatMap_singleton']
  apply String.toList_inj.mp
  rw [toList_quote, hplain, String.toList_append, String.toList_append]
  rfl

end JsonValue

namespace Node

open JsonValue

/-! ### The value of a node -/

section Value
variable (point : Point → JsonValue) (lines : LineIndex)

/-- The members of a node's object but for the children; `point` makes the values of its ends. -/
def members (n : Node) : List (String × JsonValue) :=
  [("type", .string n.name), ("named", .bool n.isNamed), ("start", point (lines.point n.span.start)),
    ("end", point (lines.point n.span.stop))] ++
  (n.field.map fun field => ("field", JsonValue.string field.name)).toList ++
  if n.missing then [("missing", .bool true)] else []

mutual

/-- The value of a node: an object that describes it, with the values of its children, if there are
any. -/
def value : Node → JsonValue
  | ⟨symbol, span, field, missing, extra, children⟩ =>
    .object (members point lines ⟨symbol, span, field, missing, extra, children⟩ ++
      if children.isEmpty then [] else [("children", .array (values children))])

def values : List Node → List JsonValue
  | [] => []
  | n :: nodes => n.value :: values nodes

end

theorem value_eq (n : Node) : n.value point lines = .object (n.members point lines ++
    if n.children.isEmpty then [] else [("children", .array (values point lines n.children))]) := by
  cases n
  rw [value]

theorem values_eq (nodes : List Node) : values point lines nodes = nodes.map (value point lines) := by
  induction nodes with
  | nil => rfl
  | cons n nodes ih => rw [values, ih, List.map_cons]

/-! ### Counting objects -/

theorem countWith_value (n : Node) : (n.value pointJson lines).countWith "type" =
    countWithAll "type" (values pointJson lines n.children) + 1 := by
  have hplain : countWithMembers "type" (n.members pointJson lines) = 0 := by
    rw [members]
    cases n.field <;> cases n.missing <;> rfl
  rw [value_eq, countWith, countWithMembers_append, hplain, if_pos (by simp [members])]
  cases n.children with
  | nil => rfl
  | cons c children =>
    show 1 + (0 + (countWithAll "type" (values pointJson lines (c :: children)) + 0)) = _
    omega

theorem countWithAll_values (nodes : List Node) :
    countWithAll "type" (values pointJson lines nodes) = countAll nodes := by
  induction nodes using forest_induction with
  | nil => rfl
  | cons n nodes ihn ih => rw [values, countWithAll, countWith_value, ihn, ih, countAll, count_eq]

/-! ### Members in any order -/

variable {point} in
theorem ordered_values (hpoint : ∀ p, (point p).ordered = (pointJson p).ordered) (nodes : List Node) :
    orderedItems (values point lines nodes) = orderedItems (values pointJson lines nodes) := by
  induction nodes using forest_induction with
  | nil => rfl
  | cons n nodes ihn ih =>
    have hmembers : orderedMembers (n.members point lines) = orderedMembers (n.members pointJson lines) := by
      rw [orderedMembers_eq, orderedMembers_eq, members, members]
      simp only [List.map_append, List.map_cons, hpoint]
    rw [values, values, orderedItems, orderedItems, ih, value_eq, value_eq, ordered, ordered,
      orderedMembers_append, orderedMembers_append, hmembers]
    split
    · rfl
    · simp only [orderedMembers, ordered, ihn]

variable {point} in
/-- Where points are the same up to the order of members, so are nodes. -/
theorem ordered_value (hpoint : ∀ p, (point p).ordered = (pointJson p).ordered) (n : Node) :
    (n.value point lines).ordered = (n.value pointJson lines).ordered := by
  have := ordered_values lines hpoint [n]
  simpa only [values, orderedItems, List.cons.injEq, and_true] using this

end Value

/-! ### The text of a node -/

section Text
variable (print : JsonValue → String) (lines : LineIndex)

mutual

/-- What is written of a node: its object as far as the children, and then these in brackets. -/
def written : Node → String
  | ⟨symbol, span, field, missing, extra, children⟩ =>
    openJson print lines ⟨symbol, span, field, missing, extra, children⟩ ++
      if children.isEmpty then "" else ",".intercalate (writtens children) ++ "]\x7d"

def writtens : List Node → List String
  | [] => []
  | n :: nodes => n.written :: writtens nodes

end

theorem written_eq (n : Node) : n.written print lines = n.openJson print lines ++
    if n.children.isEmpty then "" else ",".intercalate (writtens print lines n.children) ++ "]\x7d" := by
  cases n
  rw [written]

theorem writtens_eq (nodes : List Node) : writtens print lines nodes = nodes.map (written print lines) := by
  induction nodes with
  | nil => rfl
  | cons n nodes ih => rw [writtens, ih, List.map_cons]

/-- The text that something pending will become. -/
def Pending.jsonText : Pending → String
  | .node lead n => lead ++ n.written print lines
  | .closing => "]\x7d"

theorem join_separated (nodes : List Node) :
    String.join ((separated nodes).map (Pending.jsonText print lines)) =
      ",".intercalate (writtens print lines nodes) := by
  cases nodes with
  | nil => rfl
  | cons n nodes =>
    rw [separated, List.map_cons, String.join_cons, List.map_map, writtens, intercalate_cons, writtens_eq,
      List.map_map, Pending.jsonText, String.empty_append]
    rfl

/-- Writing puts the texts of what is pending behind what has been written. -/
theorem writeJson_eq (out : String) (pending : List Pending) : writeJson print lines out pending =
    out ++ String.join (pending.map (Pending.jsonText print lines)) := by
  fun_induction writeJson print lines out pending with
  | case1 out => rw [List.map_nil, String.join_nil, String.append_empty]
  | case2 out rest ih =>
    rw [ih, List.map_cons, String.join_cons, String.append_assoc, Pending.jsonText]
  | case3 out lead n rest ih =>
    simp only [dite_eq_ite] at ih
    rw [ih, List.map_cons, String.join_cons, Pending.jsonText, written_eq]
    by_cases hleaf : n.children.isEmpty
    · rw [if_pos hleaf, if_pos hleaf, String.append_empty]
      simp only [String.append_assoc]
    · rw [if_neg hleaf, if_neg hleaf, List.map_append, List.map_cons, String.join_append,
        String.join_cons, join_separated, Pending.jsonText]
      simp only [String.append_assoc]

theorem json_eq (n : Node) : n.json print lines = n.written print lines := by
  rw [json, writeJson_eq, List.map_singleton, String.join_cons, String.join_nil, String.append_empty,
    Pending.jsonText, String.empty_append, String.empty_append]

/-! ### What the text denotes -/

/-- A name and what is written behind it. -/
def memberText (name text : String) : String := "\x22" ++ name ++ "\x22:" ++ text

/-- The members of a node's object as they are written. -/
def memberTexts (n : Node) : List String :=
  [memberText "type" (print (.string n.name)), memberText "named" (toString n.isNamed),
    memberText "start" (print (pointJson (lines.point n.span.start))),
    memberText "end" (print (pointJson (lines.point n.span.stop)))] ++
  (n.field.map fun field => memberText "field" (print (.string field.name))).toList ++
  (if n.missing then [memberText "missing" "true"] else []) ++
  if n.children.isEmpty then []
  else [memberText "children" ("[" ++ ",".intercalate (writtens print lines n.children) ++ "]")]

theorem join_field (n : Node) : String.join
    ((n.field.map fun field => memberText "field" (print (.string field.name))).toList.map ("," ++ ·)) =
      n.fieldJson print := by
  rw [fieldJson]
  cases n.field with
  | none => rfl
  | some field =>
    show String.join ["," ++ memberText "field" _] = ",\x22field\x22:" ++ _
    rw [String.join_cons, String.join_nil, String.append_empty, memberText, ← String.append_assoc]
    rfl

theorem join_missing (n : Node) :
    String.join ((if n.missing then [memberText "missing" "true"] else []).map ("," ++ ·)) =
      if n.missing then ",\x22missing\x22:true" else "" := by
  split <;> rfl

theorem join_children (n : Node) : String.join ((if n.children.isEmpty then []
      else [memberText "children" ("[" ++ (",".intercalate (writtens print lines n.children) ++ "]"))]).map
        ("," ++ ·)) ++ "\x7d" = (if n.children.isEmpty then "\x7d" else ",\x22children\x22:[") ++
          if n.children.isEmpty then "" else ",".intercalate (writtens print lines n.children) ++ "]\x7d" := by
  by_cases hleaf : n.children.isEmpty
  · rw [if_pos hleaf, if_pos hleaf, if_pos hleaf]
    rfl
  · rw [if_neg hleaf, if_neg hleaf, if_neg hleaf, List.map_singleton, String.join_cons, String.join_nil,
      String.append_empty, memberText, show ",\x22children\x22:[" = "," ++ ("\x22" ++ "children" ++ "\x22:") ++ "["
        from rfl, show "]\x7d" = "]" ++ "\x7d" from rfl]
    simp only [String.append_assoc]

/-- What is written of a node is an object of its members. -/
theorem written_eq_object (n : Node) : n.written print lines =
    "\x7b" ++ ",".intercalate (n.memberTexts print lines) ++ "\x7d" := by
  rw [written_eq]
  unfold openJson memberTexts
  simp only [List.cons_append, List.nil_append, intercalate_cons, List.map_cons, List.map_append,
    String.join_cons, String.join_append, join_field, join_missing, String.append_assoc, join_children]
  rw [show "\x7b\x22type\x22:" = "\x7b" ++ ("\x22" ++ ("type" ++ "\x22:")) from rfl,
    show ",\x22named\x22:" = "," ++ ("\x22" ++ ("named" ++ "\x22:")) from rfl,
    show ",\x22start\x22:" = "," ++ ("\x22" ++ ("start" ++ "\x22:")) from rfl,
    show ",\x22end\x22:" = "," ++ ("\x22" ++ ("end" ++ "\x22:")) from rfl]
  simp only [memberText, String.append_assoc]

theorem member_denotes {name text : String} {value : JsonValue} (h : Denotes text value)
    (hletters : name.toList.all Char.isAlpha = true) :
    Denotes.Member (memberText name text) (name, value) := by
  refine ⟨text, ?_, h⟩
  rw [memberText, quote_letters hletters, show "\x22:" = "\x22" ++ ":" from rfl]
  simp only [String.append_assoc]

variable {print lines}

/-- If the texts of strings and points are those of values, so are the texts of nodes. -/
theorem writtens_denote {point : Point → JsonValue}
    (hstring : ∀ text, Denotes (print (.string text)) (.string text))
    (hpoint : ∀ p, Denotes (print (pointJson p)) (point p)) (nodes : List Node) :
    List.Forall₂ Denotes (writtens print lines nodes) (values point lines nodes) := by
  induction nodes using forest_induction with
  | nil => exact .nil
  | cons n nodes ihn ih =>
    refine .cons ?_ ih
    rw [written_eq_object, value_eq]
    refine .object (List.rel_append (List.rel_append (List.rel_append ?_ ?_) ?_) ?_)
    · exact .cons (member_denotes (hstring _) (by decide)) <|
        .cons (member_denotes (.bool n.isNamed) (by decide)) <|
        .cons (member_denotes (hpoint _) (by decide)) <|
        .cons (member_denotes (hpoint _) (by decide)) .nil
    · cases n.field with
      | none => exact .nil
      | some field => exact .cons (member_denotes (hstring _) (by decide)) .nil
    · cases n.missing with
      | false => exact .nil
      | true => exact .cons (member_denotes (.bool true) (by decide)) .nil
    · split
      · exact .nil
      · exact .cons (member_denotes (.array ihn) (by decide)) .nil

theorem written_denotes {point : Point → JsonValue}
    (hstring : ∀ text, Denotes (print (.string text)) (.string text))
    (hpoint : ∀ p, Denotes (print (pointJson p)) (point p)) (n : Node) :
    Denotes (n.written print lines) (n.value point lines) := by
  cases @writtens_denote print lines point hstring hpoint [n] with
  | cons first _ => exact first

end Text

end Node

/-! ### Trees -/

namespace Tree

/-- The value of the node with a number. -/
def value (t : Tree) (i : Nat) : JsonValue := (t.node i).value Node.pointJson t.lines

/-- What the JSON text of a tree says, where `print` makes the texts of strings and points: the value of its
root, by a recursion over the children by their numbers. -/
structure Serialized (print : JsonValue → String) (t : Tree) : Prop where
  /-- The text is one compact JSON text, read as the value of the root up to the order of members; each node
  has its object there. -/
  reads : ∃ back, JsonValue.read? (t.json print) = some back ∧ back.ordered = (t.value 0).ordered ∧
    back.countWith "type" = t.nodeCount
  value : ∀ id < t.nodeCount, t.value id = .object
    ([("type", .string (t.node id).name), ("named", .bool (t.isNamed id)),
      ("start", .object [("row", .number (t.startPoint id).row),
        ("column", .number (t.startPoint id).column)]),
      ("end", .object [("row", .number (t.stopPoint id).row),
        ("column", .number (t.stopPoint id).column)])] ++
    ((t.node id).field.map fun field => ("field", JsonValue.string field.name)).toList ++
    (if (t.node id).missing then [("missing", .bool true)] else []) ++
    if (t.children id).isEmpty then []
    else [("children", .array ((t.children id).toList.map t.value))])
  count : (t.value 0).countWith "type" = t.nodeCount

theorem ofRoot_serialized {print : JsonValue → String} (hprint : JsonValue.ReadBack print) (source : String)
    (root : Node) (problems : List Problem) : (ofRoot source root problems).Serialized print := by
  have hroot : (ofRoot source root problems).node 0 = root := Sits.root.node_eq
  have hcount : ((ofRoot source root problems).value 0).countWith "type" =
      (ofRoot source root problems).nodeCount := by
    rw [nodeCount_ofRoot, value, hroot, Node.countWith_value, Node.countWithAll_values, Node.count_eq]
  refine ⟨?_, fun id hid => ?_, hcount⟩
  · have hpoints (p : Point) : ∃ back, JsonValue.read? (print (Node.pointJson p)) = some back ∧
        back.ordered = (Node.pointJson p).ordered :=
      hprint.object [("row", p.row), ("column", p.column)] (show ["row", "column"].Nodup by decide)
    choose point hread hordered using hpoints
    have hdenotes : JsonValue.Denotes ((ofRoot source root problems).json print)
        (((ofRoot source root problems).node 0).value point (ofRoot source root problems).lines) := by
      rw [json, Node.json_eq]
      exact Node.written_denotes (fun text => JsonValue.denotes_of_read? (hprint.string text))
        (fun p => JsonValue.denotes_of_read? (hread p)) _
    have hvalue := Node.ordered_value (ofRoot source root problems).lines hordered
      ((ofRoot source root problems).node 0)
    refine ⟨_, hdenotes.read?_eq, hvalue, ?_⟩
    rw [← JsonValue.countWith_ordered, hvalue, JsonValue.countWith_ordered]
    exact hcount
  · rw [nodeCount_ofRoot] at hid
    obtain ⟨parent, n, hn⟩ := Sits.exists_of_lt hid
    have hchildren : _ = n.children := @Sits.map_children _ _ _ _ source problems hn
    have hempty : _ = n.children.isEmpty := @Sits.isEmpty_children _ _ _ _ source problems hn
    rw [← hn.node_eq] at hchildren hempty
    rw [Tree.value, Node.value_eq, Node.values_eq, ← hempty, ← hchildren, List.map_map, Node.members]
    cases ((ofRoot source root problems).node id).field <;> rfl

end Tree

/-- **The JSON text of a parse is read back as the value of its root**, if the texts of strings and points
are read back. -/
theorem parse_serialized {print : JsonValue → String} (hprint : JsonValue.ReadBack print) (source : String)
    (options : ParseOptions) : (parse source options).Serialized print := by
  rcases parse_cases source options with h | ⟨limit, h⟩ <;> rw [h] <;>
    exact Tree.ofRoot_serialized hprint _ _ _

theorem parse_serialized_text : JsonValue.ReadBack JsonValue.text ∧
    (parse "let s = \"a\\n\"").Serialized JsonValue.text :=
  ⟨JsonValue.text_readBack, parse_serialized JsonValue.text_readBack _ _⟩

end ScriptTree
