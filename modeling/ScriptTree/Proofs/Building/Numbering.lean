import Mathlib
import ScriptTree.Proofs.Building.Attaching
import ScriptTree.Proofs.Tree.Walking

/-! From places to numbers.

Nodes that have a place of their own are met in preorder (`Spread.preorder?_eq`), so each place gets the
number of its node (`numbers?_eq`). With their children renumbered the nodes are the fresh entries of the
tree (`Spread.renumber?_eq`), from which the nodes below each are gathered (`gather?_eq`) and the parents
are told to the children (`tellAll?_eq`). What comes out are the entries of the tree under the root
(`Spread.entries?_eq`), and what stands at a place is the node with the number of that place
(`Arena.Holds.numbers`). -/
namespace ScriptTree.Building

open Parsing Entry

variable {made : Array Built} {ids order : List Nat} {ns : List Node} {root n : Node}

/-! ### Order -/

/-- Nodes that stand at places of their own are met in preorder. -/
theorem Spread.preorder?_eq (h : Spread made ids ns order) (rest : List Nat) (found : Array Nat)
    {steps : Nat} (hsteps : order.length ≤ steps) : preorder? made steps (ids ++ rest) found =
      preorder? made (steps - order.length) rest (found ++ order.toArray) := by
  induction h generalizing rest found steps with
  | nil => rw [List.nil_append, List.length_nil, Nat.sub_zero, Array.append_empty]
  | @cons id b n ids ns below behind kept _ _ _ _ ihc ihs =>
    obtain ⟨steps, rfl⟩ : ∃ k, steps = k + 1 := ⟨steps - 1, by simp at hsteps; omega⟩
    have hfound : found.push id ++ below.toArray ++ behind.toArray =
        found ++ (id :: (below ++ behind)).toArray := by
      apply Array.toList_inj.mp
      simp
    rw [List.length_cons, List.length_append] at hsteps
    rw [List.cons_append, preorder?, kept, Option.bind_eq_bind, Option.bind_some, ihc _ _ (by omega),
      ihs _ _ (by omega), hfound]
    congr 1
    simp
    omega

/-! ### Numbers -/

/-- Places that differ get their numbers one after the other. -/
theorem numbersFrom_eq (hnodup : order.Nodup) (numbers : Array (Option Nat))
    (hwithin : ∀ id ∈ order, id < numbers.size) (start : Nat) : ∃ numbers' : Array (Option Nat),
      (order.zipIdx start).foldlM number? numbers = some numbers' ∧
      (∀ i id, order[i]? = some id → numbers'[id]? = some (some (start + i))) ∧
      ∀ id ∉ order, numbers'[id]? = numbers[id]? := by
  induction order generalizing numbers start with
  | nil => exact ⟨numbers, rfl, nofun, fun _ _ => rfl⟩
  | cons place order ih =>
    obtain ⟨hplace, hnodup⟩ := List.nodup_cons.mp hnodup
    obtain ⟨hlt, hwithin⟩ := List.forall_mem_cons.mp hwithin
    obtain ⟨numbers', hrun, hnumbers, hothers⟩ :=
      ih hnodup (numbers.setIfInBounds place (some start)) (by simpa using hwithin) (start + 1)
    refine ⟨numbers', ?_, fun i id hid => ?_, fun id hid => ?_⟩
    · rw [List.zipIdx_cons, List.foldlM_cons, number?, if_pos hlt]
      exact hrun
    · cases i with
      | zero =>
        obtain rfl : place = id := Option.some.inj hid
        rw [hothers place hplace]
        exact Array.getElem?_setIfInBounds_self_of_lt hlt
      | succ i =>
        rw [hnumbers i id hid]
        congr 2
        omega
    · rw [List.mem_cons, not_or] at hid
      rw [hothers id hid.2]
      exact Array.getElem?_setIfInBounds_ne (Ne.symm hid.1)

/-- The number of a place is where it stands in the order; other places have none. -/
theorem numbers?_eq {size : Nat} (hnodup : order.Nodup) (hwithin : ∀ id ∈ order, id < size) :
    ∃ numbers : Array (Option Nat),
    numbers? size order.toArray = some numbers ∧
      (∀ i id : Nat, order[i]? = some id → numbers[id]? = some (some i)) ∧
      ∀ id ∉ order, numbers[id]?.join = none := by
  obtain ⟨numbers, hrun, hnumbers, hothers⟩ :=
    numbersFrom_eq hnodup (Array.replicate size none) (by simpa using hwithin) 0
  refine ⟨numbers, hrun, fun i id hid => by rw [hnumbers i id hid, Nat.zero_add], fun id hid => ?_⟩
  rw [hothers id hid, Array.getElem?_replicate]
  split <;> rfl

/-! ### Renumbered nodes -/

/-- What an entry says of its own node. -/
def built (e : Entry) : Built :=
  ⟨e.node.symbol, e.node.span, e.node.field, e.node.missing, e.node.extra, e.children.toList⟩

/-- With their children renumbered, the nodes are those of the fresh entries. -/
theorem Spread.renumber?_eq (h : Spread made ids ns order) {numbers : Array (Option Nat)} {first : Nat}
    (hnumbers : ∀ i id, order[i]? = some id → numbers[id]? = some (some (first + i)))
    (parent : Option Nat) : ids.mapM (fun c => numbers[c]?.join) = some (childIds first ns) ∧
      order.mapM (renumber? made numbers) = some ((subtrees fresh first parent ns).map built) := by
  induction h generalizing first parent with
  | nil => exact ⟨rfl, rfl⟩
  | @cons id b n ids ns below behind kept shows field children siblings ihc ihs =>
    have hself : numbers[id]? = some (some first) := hnumbers 0 id rfl
    have hlength : below.length + 1 = n.count := by rw [children.length_eq, Node.count_eq]
    obtain ⟨hids, hbelow⟩ := @ihc (first + 1) (fun i id hid => by
      have := hnumbers (i + 1) id (by
        rw [List.getElem?_cons_succ, List.getElem?_append_left (List.getElem?_eq_some_iff.mp hid).1, hid])
      rw [this]
      congr 2
      omega) (some first)
    obtain ⟨hids', hbehind⟩ := @ihs (first + n.count) (fun i id hid => by
      have := hnumbers (below.length + 1 + i) id (by
        rw [Nat.add_right_comm, List.getElem?_cons_succ, List.getElem?_append_right (Nat.le_add_right _ _),
          Nat.add_sub_cancel_left, hid])
      rw [this]
      congr 2
      omega) parent
    refine ⟨?_, ?_⟩
    · rw [List.mapM_cons, hself, hids']
      rfl
    · have hrenumber : renumber? made numbers id = some (built (fresh first parent n)) := by
        rw [renumber?, kept, Option.bind_eq_bind, Option.bind_some, hids]
        simp only [Option.bind_eq_bind, Option.bind_some, built, fresh, ← shows.symbol, ← shows.span, ← field,
          ← shows.missing, ← shows.extra]
        rfl
      rw [List.mapM_cons, List.mapM_append, hrenumber, hbelow, hbehind, subtrees, subtree_eq]
      simp

/-! ### Nodes by number -/

/-- The node with a number. -/
def nodeAt (root : Node) (id : Nat) : Node := (Tree.ofRoot "" root []).node id

theorem mapM_childIds {first : Nat} {f : Nat → Option Node}
    (h : ∀ before c after, ns = before ++ c :: after → f (first + Node.countAll before) = some c) :
    (childIds first ns).mapM f = some ns := by
  induction ns generalizing first with
  | nil => rfl
  | cons n ns ih =>
    have hfirst : f first = some n := h [] n ns rfl
    have hrest := @ih (first + n.count) fun before c after hns => by
      rw [Nat.add_assoc]
      exact h (n :: before) c after (by rw [hns, List.cons_append])
    rw [childIds, List.mapM_cons, hfirst, hrest]
    rfl

/-- The nodes behind a number, the last one first. -/
def behind (root : Node) (id : Nat) : List Node :=
  ((List.range' id (root.count - id)).map (nodeAt root)).reverse

theorem behind_eq {id : Nat} (h : id < root.count) :
    behind root id = behind root (id + 1) ++ [nodeAt root id] := by
  rw [behind, behind, show root.count - id = root.count - (id + 1) + 1 by omega, List.range'_succ,
    List.map_cons, List.reverse_cons]

theorem getElem?_behind {id c : Nat} (hc : id ≤ c) (hlt : c < root.count) :
    (behind root id)[root.count - 1 - c]? = some (nodeAt root c) := by
  rw [behind, List.getElem?_reverse (by simp; omega), List.getElem?_map, List.length_map,
    List.length_range', show root.count - id - 1 - (root.count - 1 - c) = c - id by omega,
    List.getElem?_range' (by omega), Option.map_some]
  congr 2
  omega

/-- What is below each node is gathered from behind it. -/
theorem gather?_eq {id : Nat} (h : id ≤ root.count) :
    gather? ((subtree fresh 0 none root).map built).toArray id (behind root id).toArray =
      some (behind root 0).toArray := by
  induction id with
  | zero => rfl
  | succ id ih =>
    obtain ⟨parent, n, hn⟩ := Sits.exists_of_lt h
    have hnode : nodeAt root id = n := hn.node_eq
    have hkept : ((subtree fresh 0 none root).map built).toArray[id]? = some (built (fresh id parent n)) := by
      rw [List.getElem?_toArray, List.getElem?_map, hn.getElem?_subtree]
      rfl
    have hsize : ((subtree fresh 0 none root).map built).toArray.size = root.count := by
      rw [List.size_toArray, List.length_map, length_subtree]
    have hchildren : (built (fresh id parent n)).children.mapM (fun c =>
        if c < root.count then (behind root (id + 1)).toArray[root.count - 1 - c]? else none) =
          some n.children := by
      refine mapM_childIds fun before c after hchildren => ?_
      have hc := hn.child hchildren
      rw [if_pos hc.lt_count, List.getElem?_toArray, getElem?_behind (by omega) hc.lt_count]
      exact congrArg some hc.node_eq
    rw [gather?, hkept, Option.bind_eq_bind, Option.bind_some, hsize, hchildren, Option.bind_eq_bind,
      Option.bind_some, ← ih (by omega), behind_eq h, hnode]
    cases n
    simp [built, fresh]

/-! ### Telling parents -/

/-- A fresh entry that knows its parent if that has a number below a bound. -/
def told (bound first : Nat) (parent : Option Nat) (n : Node) : Entry :=
  fresh first (parent.filter (· < bound)) n

/-- All children of a node are told their parent. -/
theorem tells_eq {parent : Nat} {entries : Array Entry} (h : ∀ id ∈ ids, id < entries.size) :
    ∃ entries', ids.foldlM (tell? parent) entries = some entries' ∧ entries'.size = entries.size ∧
      ∀ id, entries'[id]? = entries[id]?.map fun e =>
        if id ∈ ids then { e with parent := some parent } else e := by
  induction ids generalizing entries with
  | nil => exact ⟨entries, rfl, rfl, fun id => by simp⟩
  | cons child ids ih =>
    obtain ⟨hchild, hids⟩ := List.forall_mem_cons.mp h
    obtain ⟨entries', hrun, hsize, hentries⟩ :=
      @ih (entries.modify child fun e => { e with parent := some parent }) (by simpa using hids)
    refine ⟨entries', ?_, hsize.trans Array.size_modify, fun id => ?_⟩
    · rw [List.foldlM_cons, tell?, if_pos hchild]
      exact hrun
    · rw [hentries, Array.getElem?_modify]
      by_cases hid : child = id
      · rw [if_pos hid, Option.map_map]
        simp [Function.comp_def, hid]
      · rw [if_neg hid]
        simp [Ne.symm hid]

/-- A node lists the numbers of those whose parent it is. -/
theorem parent_eq_some_iff {id j : Nat} {parent parent' : Option Nat} {m : Node} (hn : Sits root id parent n)
    (hm : Sits root j parent' m) : parent' = some id ↔ j ∈ childIds (id + 1) n.children := by
  constructor
  · rintro rfl
    obtain ⟨above, grand, n', before, after, ⟨⟩, habove, hchildren, rfl⟩ := hm.parent_of_ne_zero hm.ne_zero
    obtain rfl : n' = n := (@Sits.node_eq _ _ _ _ "" [] habove).symm.trans hn.node_eq
    rw [hchildren]
    exact childIds_mem ..
  · intro hj
    obtain ⟨before, c, after, hchildren, rfl⟩ := mem_childIds hj
    exact (@Sits.parent_eq _ _ _ _ "" [] hm).symm.trans (hn.child hchildren).parent_eq

/-- There are no entries behind the last node. -/
theorem getElem?_subtree_of_le (entry : Nat → Option Nat → Node → Entry) {id : Nat} (h : root.count ≤ id) :
    (subtree entry 0 none root)[id]? = none :=
  List.getElem?_eq_none (by rwa [length_subtree])

/-- One more node tells its children. -/
theorem tellAll?_eq {id : Nat} (h : id < root.count) :
    tellAll? (subtree (told id) 0 none root).toArray id =
      some (subtree (told (id + 1)) 0 none root).toArray := by
  obtain ⟨parent, n, hn⟩ := Sits.exists_of_lt h
  have hkept : (subtree (told id) 0 none root).toArray[id]? = some (told id id parent n) := by
    rw [List.getElem?_toArray, hn.getElem?_subtree]
  have hchildren : (told id id parent n).children.toList = childIds (id + 1) n.children := rfl
  obtain ⟨entries, hrun, hsize, hentries⟩ := @tells_eq (childIds (id + 1) n.children) id
    (subtree (told id) 0 none root).toArray fun c hc => by
      obtain ⟨before, c, after, hsplit, rfl⟩ := mem_childIds hc
      rw [List.size_toArray, length_subtree]
      exact (hn.child hsplit).lt_count
  rw [tellAll?, hkept, Option.bind_eq_bind, Option.bind_some, hchildren, hrun]
  refine congrArg some (Array.ext_getElem? fun j => ?_)
  rw [hentries, List.getElem?_toArray, List.getElem?_toArray]
  rcases Nat.lt_or_ge j root.count with hlt | hge
  · obtain ⟨parent', m, hm⟩ := Sits.exists_of_lt hlt
    rw [hm.getElem?_subtree, hm.getElem?_subtree, Option.map_some]
    simp only [← parent_eq_some_iff hn hm]
    refine congrArg some ?_
    cases parent' with
    | none => rfl
    | some p =>
      simp only [told, fresh, Option.filter_some]
      rcases Nat.lt_trichotomy p id with hp | rfl | hp
      · simp [hp, hp.ne, hp.le]
      · simp
      · simp [hp.ne', hp.not_gt, hp.not_ge]
  · rw [getElem?_subtree_of_le _ hge, getElem?_subtree_of_le _ hge]
    rfl

theorem tellAlls_eq {n : Nat} (h : n ≤ root.count) :
    (List.range n).foldlM tellAll? (subtree (told 0) 0 none root).toArray =
      some (subtree (told n) 0 none root).toArray := by
  induction n with
  | zero => rfl
  | succ n ih =>
    rw [List.range_succ, List.foldlM_append, ih (by omega), Option.bind_eq_bind, Option.bind_some,
      List.foldlM_cons, tellAll?_eq h]
    rfl

/-- Entries that agree for every node are the same. -/
theorem subtree_congr {entry entry' : Nat → Option Nat → Node → Entry}
    (h : ∀ id parent n, Sits root id parent n → entry id parent n = entry' id parent n) :
    subtree entry 0 none root = subtree entry' 0 none root := by
  refine List.ext_getElem? fun id => ?_
  rcases Nat.lt_or_ge id root.count with hlt | hge
  · obtain ⟨parent, n, hn⟩ := Sits.exists_of_lt hlt
    rw [hn.getElem?_subtree, hn.getElem?_subtree, h id parent n hn]
  · rw [getElem?_subtree_of_le _ hge, getElem?_subtree_of_le _ hge]

/-- In the end all children know their parents. -/
theorem told_all : subtree (told root.count) 0 none root = subtree fresh 0 none root := by
  refine subtree_congr fun id parent n hn => ?_
  cases parent with
  | none => rfl
  | some p =>
    obtain ⟨above, grand, m, before, after, ⟨⟩, habove, -⟩ := hn.parent_of_ne_zero hn.ne_zero
    rw [told, Option.filter_some, if_pos (by simpa using habove.lt_count)]

/-- In the beginning none does. -/
theorem told_none : List.zipWith entryOf ((subtree fresh 0 none root).map built) (behind root 0).reverse =
    subtree (told 0) 0 none root := by
  refine List.ext_getElem? fun id => ?_
  rw [List.getElem?_zipWith, List.getElem?_map, behind, List.reverse_reverse, List.getElem?_map]
  rcases Nat.lt_or_ge id root.count with hlt | hge
  · obtain ⟨parent, n, hn⟩ := Sits.exists_of_lt hlt
    have hnode : nodeAt root id = n := hn.node_eq
    have hnone : parent.filter (· < 0) = none := by cases parent <;> simp
    rw [hn.getElem?_subtree, hn.getElem?_subtree, List.getElem?_range' (by omega), told, hnone]
    simp [hnode, entryOf, built, fresh]
  · rw [getElem?_subtree_of_le _ hge, getElem?_subtree_of_le _ hge]
    rfl

/-! ### Entries -/

/-- A node that stands at places of its own is met in preorder from its own place on. -/
theorem Spread.found {id : Nat} (h : Spread made [id] [root] order) (hnodup : order.Nodup) :
    preorder? made made.size [id] #[] = some order.toArray := by
  have hsteps : order.length ≤ made.size := h.length_eq ▸ h.length_le hnodup
  have := h.preorder?_eq [] #[] hsteps
  rw [List.append_nil, Array.empty_append] at this
  rw [this, preorder?]

/-- The nodes of a tree with their children renumbered are those of its fresh entries. -/
theorem Spread.renumbered {id : Nat} (h : Spread made [id] [root] order) {numbers : Array (Option Nat)}
    (hnumbers : ∀ i id : Nat, order[i]? = some id → numbers[id]? = some (some i)) :
    order.mapM (renumber? made numbers) = some ((subtree fresh 0 none root).map built) := by
  have hsubtree : subtrees fresh 0 none [root] = subtree fresh 0 none root := by
    rw [subtrees, subtrees, List.append_nil]
  rw [← hsubtree]
  exact (h.renumber?_eq (fun i id hid => by rw [hnumbers i id hid, Nat.zero_add]) none).2

/-- The entries of nodes that have a place of their own are those of the tree under the root. -/
theorem Spread.entries?_eq {id : NodeId} (h : Spread made [id.index] [root] order) (hnodup : order.Nodup) :
    entries? made id = some (Entry.ofRoot root) := by
  obtain ⟨numbers, hnumbers, hplaced, -⟩ := numbers?_eq hnodup h.lt_size
  have hnodes := h.renumbered hplaced
  have hcount : ((subtree fresh 0 none root).map built).length = root.count := by
    rw [List.length_map, length_subtree]
  have hgathered := gather?_eq (Nat.le_refl root.count)
  have hbehind : behind root root.count = [] := by rw [behind, Nat.sub_self]; rfl
  have htold := tellAlls_eq (Nat.le_refl root.count)
  rw [hbehind] at hgathered
  rw [told_all] at htold
  simp only [entries?, h.found hnodup, hnumbers, hnodes, hcount, hgathered, told_none, length_subtree, htold,
    Option.bind_eq_bind, Option.bind_some]
  rw [Entry.ofRoot, number_root]
  rfl

/-! ### Places and numbers -/

/-- Whether a place can be reached from another one through children. -/
inductive Reachable (made : Array Built) (root : Nat) : Nat → Prop
  | root : Reachable made root root
  | child {id b c} (above : Reachable made root id) (kept : made[id]? = some b) (mem : c ∈ b.children) :
      Reachable made root c

/-- Whether the nodes of a tree are those that can be reached from the root of an arena; `order` are their
places by number. -/
structure Arena.Numbers (a : Arena) (order : List Nat) (t : Tree) : Prop where
  /-- The tree is made of the arena. -/
  made : a.tree? t.source = some t
  /-- The places are met in this order. -/
  found : preorder? a.made a.made.size [a.root.index] #[] = some order.toArray
  /-- None is met twice, so no node is a child of two others. -/
  nodup : order.Nodup
  reached : ∀ id, id ∈ order ↔ Reachable a.made a.root.index id
  size : order.length = t.nodeCount
  first : order[0]? = some a.root.index
  /-- What has a number is the node with that number, and its children are those of the node. -/
  nodes : ∀ i id : Nat, order[i]? = some id → ∃ b, a.made[id]? = some b ∧ b.Shows (t.node i) ∧
    b.field = (t.node i).field ∧
    List.Forall₂ (fun c j : Nat => order[j]? = some c) b.children (t.children i).toList

/-- The children of what stands at places stand there too. -/
theorem Spread.closed (h : Spread made ids ns order) : (∀ i ∈ ids, i ∈ order) ∧
    ∀ i ∈ order, ∀ b, made[i]? = some b → ∀ c ∈ b.children, c ∈ order := by
  induction h with
  | nil => exact ⟨nofun, nofun⟩
  | @cons id b n ids ns below behind kept _ _ _ _ ihc ihs =>
    have hbelow {c : Nat} (hc : c ∈ below) : c ∈ id :: (below ++ behind) :=
      List.mem_cons_of_mem _ (List.mem_append_left _ hc)
    have hbehind {c : Nat} (hc : c ∈ behind) : c ∈ id :: (below ++ behind) :=
      List.mem_cons_of_mem _ (List.mem_append_right _ hc)
    refine ⟨List.forall_mem_cons.mpr ⟨List.mem_cons_self, fun i hi => hbehind (ihs.1 i hi)⟩,
      List.forall_mem_cons.mpr ⟨fun b' hb' c hc => ?_, List.forall_mem_append.mpr ⟨?_, ?_⟩⟩⟩
    · obtain rfl : b = b' := Option.some.inj (kept.symm.trans hb')
      exact hbelow (ihc.1 c hc)
    · exact fun i hi b' hb' c hc => hbelow (ihc.2 i hi b' hb' c hc)
    · exact fun i hi b' hb' c hc => hbehind (ihs.2 i hi b' hb' c hc)

/-- All that stands below places that can be reached can be reached. -/
theorem Spread.reachable {root : Nat} (h : Spread made ids ns order)
    (hids : ∀ i ∈ ids, Reachable made root i) : ∀ i ∈ order, Reachable made root i := by
  induction h with
  | nil => nofun
  | cons kept _ _ _ _ ihc ihs =>
    obtain ⟨hid, hids⟩ := List.forall_mem_cons.mp hids
    exact List.forall_mem_cons.mpr
      ⟨hid, List.forall_mem_append.mpr ⟨ihc fun c hc => hid.child kept hc, ihs hids⟩⟩

theorem Spread.mem_iff {id : Nat} (h : Spread made [id] [root] order) (i : Nat) :
    i ∈ order ↔ Reachable made id i := by
  obtain ⟨hids, hclosed⟩ := h.closed
  refine ⟨fun hi => h.reachable (List.forall_mem_singleton.mpr .root) i hi, fun hi => ?_⟩
  induction hi with
  | root => exact hids id List.mem_cons_self
  | child _ kept mem ih => exact hclosed _ ih _ kept _ mem

theorem forall₂_of_mapM {α β : Type} {f : α → Option β} {l : List α} {l' : List β} (h : l.mapM f = some l') :
    List.Forall₂ (fun a b => f a = some b) l l' := by
  induction l generalizing l' with
  | nil =>
    cases h
    exact .nil
  | cons a l ih =>
    rw [List.mapM_cons] at h
    obtain ⟨b, hb, h⟩ := Option.bind_eq_some_iff.mp h
    obtain ⟨bs, hbs, h⟩ := Option.bind_eq_some_iff.mp h
    cases h
    exact .cons hb (ih hbs)

/-- What has a number is the node with that number. -/
theorem Spread.node_of_number {id i place : Nat} (h : Spread made [id] [root] order) (hnodup : order.Nodup)
    (hplace : order[i]? = some place) : ∃ b parent n, Sits root i parent n ∧ made[place]? = some b ∧
      b.Shows n ∧ b.field = n.field ∧
      List.Forall₂ (fun c j : Nat => order[j]? = some c) b.children (childIds (i + 1) n.children) := by
  obtain ⟨numbers, -, hplaced, hothers⟩ := numbers?_eq hnodup h.lt_size
  have hlt : i < root.count := by
    have := h.length_eq ▸ (List.getElem?_eq_some_iff.mp hplace).1
    simpa [Node.countAll] using this
  obtain ⟨parent, n, hn⟩ := Sits.exists_of_lt hlt
  have hentry := (List.forall₂_iff_get.mp (forall₂_of_mapM (h.renumbered hplaced))).2 i
    (List.getElem?_eq_some_iff.mp hplace).1 (by simpa [length_subtree] using hlt)
  have hbuilt : ((subtree fresh 0 none root).map built)[i]? = some (built (fresh i parent n)) := by
    rw [List.getElem?_map, hn.getElem?_subtree]
    rfl
  obtain ⟨_, hget⟩ := List.getElem?_eq_some_iff.mp hplace
  obtain ⟨_, hgetBuilt⟩ := List.getElem?_eq_some_iff.mp hbuilt
  rw [List.get_eq_getElem, List.get_eq_getElem, hget, hgetBuilt, renumber?] at hentry
  obtain ⟨b, kept, hentry⟩ := Option.bind_eq_some_iff.mp hentry
  obtain ⟨children, hchildren, hentry⟩ := Option.bind_eq_some_iff.mp hentry
  have hsame : { b with children } = built (fresh i parent n) := Option.some.inj hentry
  simp only [built, fresh, Built.mk.injEq] at hsame
  obtain ⟨hsymbol, hspan, hfield, hmissing, hextra, rfl⟩ := hsame
  refine ⟨b, parent, n, hn, kept, ⟨hsymbol, hspan, hmissing, hextra⟩, hfield,
    (forall₂_of_mapM hchildren).imp fun c j hj => ?_⟩
  by_cases hc : c ∈ order
  · obtain ⟨k, hk⟩ := List.getElem?_of_mem hc
    rw [hplaced k c hk, Option.join_some] at hj
    rwa [← Option.some.inj hj]
  · rw [hothers c hc] at hj
    cases hj

/-! ### Arenas -/

/-- Whether a node and all below it stand in an arena, each at a place of its own, and nothing else does
but primary expressions whose content was taken out. -/
structure Arena.Holds (a : Arena) (root : Node) (order : List Nat) : Prop where
  spread : Spread a.made [a.root.index] [root] order
  nodup : order.Nodup
  left : ∀ id < a.made.size, id ∈ order ∨ IsWrapper a.made id

namespace Arena.Holds
variable {a : Arena}

theorem tree?_eq (h : a.Holds root order) (source : String) :
    a.tree? source = some (.ofRoot source root a.problems) := by
  rw [Arena.tree?, h.spread.entries?_eq h.nodup]
  rfl

/-- The nodes in an arena are those of its tree. -/
theorem numbers (h : a.Holds root order) (source : String) :
    a.Numbers order (.ofRoot source root a.problems) where
  made := h.tree?_eq source
  found := h.spread.found h.nodup
  nodup := h.nodup
  reached := h.spread.mem_iff
  size := by rw [h.spread.length_eq, nodeCount_ofRoot, Node.countAll, Node.countAll, Nat.add_zero]
  first := by
    obtain ⟨_, _, _, hid, rfl, -⟩ := h.spread.single
    rw [List.singleton_inj.mp hid]
    rfl
  nodes i place hplace := by
    obtain ⟨b, parent, n, hn, kept, shows, field, children⟩ := h.spread.node_of_number h.nodup hplace
    rw [hn.node_eq, hn.children_eq]
    exact ⟨b, kept, shows, field, children⟩

end Arena.Holds

end ScriptTree.Building
