import Mathlib
import ScriptTree.Building.Finish
import ScriptTree.Proofs.Building.Standing
import ScriptTree.Proofs.Tree.Attachment

/-! Comments put into the arena.

Once comments have been listed among the children of other nodes, children no longer stand in front of
their parents. What is left is that every node has a place of its own: `Spread` says at which places nodes
and all below them stand, in preorder. A comment is put into the arena where `Node.attach` puts it among
the nodes (`Spread.attach`), and only its host changes; so the comments are put in one after the other
(`Spread.attachAll`). -/
namespace ScriptTree.Building

open Parsing

/-- Whether nodes stand at places, with everything below them; `order` are all places in preorder. -/
inductive Spread (made : Array Built) : List Nat → List Node → List Nat → Prop
  | nil : Spread made [] [] []
  | cons {id b n ids ns below behind} (kept : made[id]? = some b) (shows : b.Shows n)
      (field : b.field = n.field) (children : Spread made b.children n.children below)
      (siblings : Spread made ids ns behind) :
      Spread made (id :: ids) (n :: ns) (id :: (below ++ behind))

variable {made made' : Array Built} {ids order : List Nat} {ns : List Node} {id : Nat} {n : Node}

namespace Spread

theorem congr (h : Spread made ids ns order) (hsame : ∀ i ∈ order, made'[i]? = made[i]?) :
    Spread made' ids ns order := by
  induction h with
  | nil => exact .nil
  | cons kept shows field _ _ ihc ihs =>
    obtain ⟨hid, hrest⟩ := List.forall_mem_cons.mp hsame
    obtain ⟨hbelow, hbehind⟩ := List.forall_mem_append.mp hrest
    exact .cons (hid.trans kept) shows field (ihc hbelow) (ihs hbehind)

theorem lt_size (h : Spread made ids ns order) : ∀ i ∈ order, i < made.size := by
  induction h with
  | nil => nofun
  | cons kept _ _ _ _ ihc ihs =>
    exact List.forall_mem_cons.mpr
      ⟨(Array.getElem?_eq_some_iff.mp kept).1, List.forall_mem_append.mpr ⟨ihc, ihs⟩⟩

theorem length_eq (h : Spread made ids ns order) : order.length = Node.countAll ns := by
  induction h with
  | nil => rfl
  | cons _ _ _ _ _ ihc ihs =>
    rw [List.length_cons, List.length_append, ihc, ihs, Node.countAll, Node.count_eq]
    omega

theorem length_ids (h : Spread made ids ns order) : ids.length = ns.length := by
  induction h with
  | nil => rfl
  | cons _ _ _ _ _ _ ihs => rw [List.length_cons, ihs, List.length_cons]

theorem isEmpty_eq (h : Spread made ids ns order) : ids.isEmpty = ns.isEmpty := by
  cases h <;> rfl

theorem append {ids' order' : List Nat} {ns' : List Node} (h : Spread made ids ns order)
    (h' : Spread made ids' ns' order') : Spread made (ids ++ ids') (ns ++ ns') (order ++ order') := by
  induction h with
  | nil => exact h'
  | cons kept shows field children _ _ ihs =>
    have := Spread.cons kept shows field children ihs
    rwa [← List.append_assoc] at this

theorem split {before after : List Node} (h : Spread made ids (before ++ after) order) :
    ∃ ids₁ ids₂ order₁ order₂, ids = ids₁ ++ ids₂ ∧ order = order₁ ++ order₂ ∧
      Spread made ids₁ before order₁ ∧ Spread made ids₂ after order₂ := by
  induction before generalizing ids order with
  | nil => exact ⟨[], ids, [], order, rfl, rfl, .nil, h⟩
  | cons m before ih =>
    cases h with
    | cons kept shows field children siblings =>
      obtain ⟨ids₁, ids₂, order₁, order₂, rfl, rfl, hbefore, hafter⟩ := ih siblings
      exact ⟨_, ids₂, _, order₂, rfl, by simp, .cons kept shows field children hbefore, hafter⟩

/-- A single node stands at a single place. -/
theorem single (h : Spread made ids [n] order) : ∃ id b below, ids = [id] ∧ order = id :: below ∧
    made[id]? = some b ∧ b.Shows n ∧ b.field = n.field ∧ Spread made b.children n.children below := by
  cases h with
  | cons kept shows field children siblings =>
    cases siblings
    exact ⟨_, _, _, rfl, by rw [List.append_nil], kept, shows, field, children⟩

theorem of_kept {b : Built} {below : List Nat} (kept : made[id]? = some b) (shows : b.Shows n)
    (field : b.field = n.field) (children : Spread made b.children n.children below) :
    Spread made [id] [n] (id :: below) := by
  have := Spread.cons kept shows field children .nil
  rwa [List.append_nil] at this

end Spread

/-- Whether a place holds a primary expression. -/
def IsWrapper (made : Array Built) (id : Nat) : Prop :=
  made[id]?.map Built.symbol = some (.named .primaryExpression)

/-- What stands in a stretch of the arena has its places there, and nothing else does but primary
expressions whose content was taken out. -/
theorem Grove.spread {lo hi : Nat} (h : Grove made lo hi ids ns) : ∃ order, Spread made ids ns order ∧
    order.Nodup ∧ (∀ i ∈ order, lo ≤ i ∧ i < hi) ∧
    ∀ i, lo ≤ i → i < hi → i ∈ order ∨ IsWrapper made i := by
  induction h with
  | nil => exact ⟨[], .nil, .nil, nofun, fun i hi hi' => absurd hi' (Nat.not_lt.mpr hi)⟩
  | @cons lo id mid hi b n ids ns kept shows field below lt gap rest ihBelow ihRest =>
    obtain ⟨order, hchildren, hnodup, hwithin, hall⟩ := ihBelow
    obtain ⟨order', hsiblings, hnodup', hwithin', hall'⟩ := ihRest
    have hlo := below.le
    have hhi := rest.le
    refine ⟨_, .cons kept shows field hchildren hsiblings, ?_, fun i hi => ?_, fun i hi hi' => ?_⟩
    · simp only [List.nodup_cons, List.mem_append, not_or, List.nodup_append]
      refine ⟨⟨fun hmem => ?_, fun hmem => ?_⟩, hnodup, hnodup', fun i hi j hj heq => ?_⟩
      · exact Nat.lt_irrefl _ (hwithin id hmem).2
      · have := (hwithin' id hmem).1
        omega
      · have := (hwithin i hi).2
        have := (hwithin' j hj).1
        omega
    · rcases List.mem_cons.mp hi with rfl | hi
      · omega
      · rcases List.mem_append.mp hi with hi | hi
        · have := hwithin i hi
          omega
        · have := hwithin' i hi
          omega
    · rw [List.mem_cons, List.mem_append]
      rcases Nat.lt_trichotomy i id with hlt | rfl | hgt
      · exact (hall i hi hlt).imp_left fun hmem => .inr (.inl hmem)
      · exact .inl (.inl rfl)
      rcases Nat.lt_or_ge i mid with hlt | hge
      · obtain ⟨-, b', hkept, hsymbol⟩ := gap i hgt hlt
        exact .inr (by rw [IsWrapper, hkept, Option.map_some, hsymbol])
      · exact (hall' i hge hi').imp_left fun hmem => .inr (.inr hmem)

/-! ### Looking for the host -/

section Comments
variable {span : Span} {b : Built}

theorem encloses_eq {below : List Nat} (shows : b.Shows n)
    (children : Spread made b.children n.children below) : encloses span b = Node.encloses span n := by
  rw [encloses, Node.encloses, children.isEmpty_eq, shows.span]

/-- The first child with room for a span is looked up in the arena. -/
theorem Spread.findM?_eq (h : Spread made ids ns order) :
    ids.findM? (fun c => made[c]?.map (encloses span)) =
      some (((ids.zip ns).find? fun pair => Node.encloses span pair.2).map Prod.fst) := by
  induction h with
  | nil => rfl
  | cons kept shows _ children _ _ ih =>
    rw [List.findM?, kept, Option.map_some, encloses_eq shows children, List.zip_cons_cons,
      List.find?_cons]
    cases Node.encloses span _
    · exact ih
    · rfl

theorem Spread.findM?_none (h : Spread made ids ns order)
    (hnone : ∀ m ∈ ns, Node.encloses span m = false) :
    ids.findM? (fun c => made[c]?.map (encloses span)) = some none := by
  rw [h.findM?_eq, List.find?_eq_none.mpr fun pair hpair => ?_]
  · rfl
  · rw [hnone _ (List.of_mem_zip hpair).2]
    exact Bool.false_ne_true

theorem Spread.findM?_some {before after : List Node} {ids₁ ids₂ : List Nat} {m : Node}
    (h : Spread made (ids₁ ++ id :: ids₂) (before ++ m :: after) order)
    (hlength : ids₁.length = before.length) (hbefore : ∀ x ∈ before, Node.encloses span x = false)
    (hm : Node.encloses span m = true) :
    (ids₁ ++ id :: ids₂).findM? (fun c => made[c]?.map (encloses span)) = some (some id) := by
  have hskip : ((ids₁.zip before).find? fun pair => Node.encloses span pair.2) = none :=
    List.find?_eq_none.mpr fun pair hpair => by
      rw [hbefore _ (List.of_mem_zip hpair).2]
      exact Bool.false_ne_true
  rw [h.findM?_eq, List.zip_append hlength, List.find?_append, hskip, List.zip_cons_cons, List.find?_cons,
    hm]
  rfl

/-! ### Putting a comment in -/

theorem insertComment_cons (comment : Node) (ns : List Node) : Node.insertComment comment (n :: ns) =
    if Node.isBefore comment.span.stop n then n :: Node.insertComment comment ns
    else comment :: n :: ns := by
  rw [Node.insertComment, List.takeWhile_cons]
  split <;> rfl

/-- A comment is listed among the children where it comes among the nodes. -/
theorem Spread.insert {extra : Nat} {comment : Node} {place : List Nat} (h : Spread made ids ns order)
    (hcomment : Spread made [extra] [comment] place) : ∃ ids' order',
      insert? made extra comment.span.stop ids = some ids' ∧
      Spread made ids' (Node.insertComment comment ns) order' ∧ order'.Perm (place ++ order) := by
  induction h with
  | nil => exact ⟨[extra], place, rfl, hcomment, by rw [List.append_nil]⟩
  | @cons id b n ids ns below behind kept shows field children siblings _ ih =>
    rw [insertComment_cons, insert?, kept, Option.bind_eq_bind, Option.bind_some, Node.isBefore,
      ← shows.missing, ← shows.span]
    split
    · obtain ⟨ids', order', hinsert, hspread, hperm⟩ := ih
      rw [hinsert]
      refine ⟨id :: ids', _, rfl, .cons kept shows field children hspread, ?_⟩
      have hbelow : (below ++ order').Perm (place ++ (below ++ behind)) :=
        (hperm.append_left below).trans (List.perm_append_comm_assoc ..)
      exact (hbelow.cons id).trans List.perm_middle.symm
    · exact ⟨extra :: id :: ids, _, rfl,
        hcomment.append (.cons kept shows field children siblings), .refl _⟩

/-- Whether a comment can be put in below a node by changing its host alone. -/
structure Attaches (made : Array Built) (id : Nat) (n : Node) (order : List Nat) (extra : Nat) (comment : Node)
    (host : Nat) (b : Built) (children : List Nat) : Prop where
  mem : host ∈ order
  kept : made[host]? = some b
  inserted : insert? made extra comment.span.stop b.children = some children
  spread : ∃ order', Spread (made.setIfInBounds host { b with children }) [id] [n.attach comment] order' ∧
    order'.Perm (extra :: order)

section Hosts
variable {extra host place : Nat} {comment m : Node} {before after : List Node} {b b' : Built}
  {below middle ids₁ ids₂ order₁ order₂ children : List Nat}

/-- A node none of whose children has room takes the comment in itself. -/
theorem Attaches.here (kept : made[id]? = some b) (shows : b.Shows n) (field : b.field = n.field)
    (hchildren : Spread made b.children n.children below)
    (hnone : ∀ m ∈ n.children, Node.encloses comment.span m = false) (hnodup : (extra :: id :: below).Nodup)
    (hcomment : Spread made [extra] [comment] [extra]) :
    ∃ children, Attaches made id n (id :: below) extra comment id b children := by
  obtain ⟨ids', order', hinsert, hspread, hperm⟩ := hchildren.insert hcomment
  have hlt := (Array.getElem?_eq_some_iff.mp kept).1
  have hid : id ∉ extra :: below := fun hmem =>
    (List.nodup_cons.mp (hnodup.perm (.swap ..))).1 hmem
  refine ⟨ids', List.mem_cons_self, kept, hinsert, id :: order', ?_, (hperm.cons id).trans (.swap ..)⟩
  rw [Node.attach_here hnone]
  refine Spread.of_kept (Array.getElem?_setIfInBounds_self_of_lt hlt)
    ⟨shows.symbol, shows.span, shows.missing, shows.extra⟩ field (hspread.congr fun i hi => ?_)
  refine Array.getElem?_setIfInBounds_ne ?_
  rintro rfl
  exact hid (hperm.mem_iff.mp hi)

/-- What the first child with room takes in, its parent does. -/
theorem Attaches.above (h : Attaches made place m middle extra comment host b' children)
    (kept : made[id]? = some b) (shows : b.Shows n) (field : b.field = n.field)
    (hids : b.children = ids₁ ++ place :: ids₂) (hchildren : n.children = before ++ m :: after)
    (hfront : Spread made ids₁ before order₁) (hback : Spread made ids₂ after order₂)
    (hbefore : ∀ x ∈ before, Node.encloses comment.span x = false)
    (hm : Node.encloses comment.span m = true) (hnodup : (id :: (order₁ ++ (middle ++ order₂))).Nodup) :
    Attaches made id n (id :: (order₁ ++ (middle ++ order₂))) extra comment host b' children := by
  obtain ⟨hmem, kept', inserted, order', hspread, hperm⟩ := h
  obtain ⟨hid, hnodup⟩ := List.nodup_cons.mp hnodup
  simp only [List.mem_append, not_or] at hid
  obtain ⟨-, hnodup, hapart⟩ := List.nodup_append.mp hnodup
  obtain ⟨-, -, hapart'⟩ := List.nodup_append.mp hnodup
  refine ⟨by simp [hmem], kept', inserted, id :: (order₁ ++ (order' ++ order₂)), ?_, ?_⟩
  · -- Only the host changes, and it is neither the parent nor anywhere else below it.
    have hother {i : Nat} (h : i ≠ host) :
        (made.setIfInBounds host { b' with children })[i]? = made[i]? :=
      Array.getElem?_setIfInBounds_ne h.symm
    rw [Node.attach_below hchildren hbefore hm]
    refine .of_kept ((hother ?_).trans kept) ⟨shows.symbol, shows.span, shows.missing, shows.extra⟩ field ?_
    · rintro rfl
      exact hid.2.1 hmem
    · rw [hids]
      refine (hfront.congr fun i hi => hother ?_).append
        (hspread.append (hback.congr fun i hi => hother ?_))
      · exact hapart i hi host (List.mem_append_left _ hmem)
      · exact (hapart' host hmem i hi).symm
  · have hrest : (order₁ ++ (order' ++ order₂)).Perm (extra :: (order₁ ++ (middle ++ order₂))) :=
      ((hperm.append_right order₂).append_left order₁).trans List.perm_middle
    exact (hrest.cons id).trans (.swap ..)

end Hosts

/-- From a node on, the host is found and the comment put in there. -/
theorem Spread.attaches {extra : Nat} {comment : Node} (h : Spread made [id] [n] order)
    (hnodup : (extra :: order).Nodup) (hcomment : Spread made [extra] [comment] [extra]) {steps : Nat}
    (hsteps : n.count ≤ steps) : ∃ host b children, host? made comment.span steps id = some host ∧
      Attaches made id n order extra comment host b children := by
  induction steps generalizing id n order with
  | zero =>
    rw [Node.count_eq] at hsteps
    omega
  | succ steps ih =>
    obtain ⟨_, b, below, ⟨⟩, rfl, kept, shows, field, children⟩ := h.single
    rw [host?, kept, Option.bind_eq_bind, Option.bind_some]
    rcases Node.encloses_cases comment.span n with hnone | ⟨before, m, after, hchildren, hbefore, hm⟩
    · obtain ⟨children', hattaches⟩ := Attaches.here kept shows field children hnone hnodup hcomment
      rw [children.findM?_none hnone]
      exact ⟨id, b, children', rfl, hattaches⟩
    · rw [hchildren] at children
      obtain ⟨ids₁, _, order₁, _, hids, rfl, hfront, hfrom⟩ := children.split
      have hfrom : Spread made _ ([m] ++ after) _ := hfrom
      obtain ⟨_, ids₂, middle, order₂, rfl, rfl, hmiddle, hback⟩ := hfrom.split
      obtain ⟨place, _, _, rfl, _⟩ := hmiddle.single
      have hids : b.children = ids₁ ++ place :: ids₂ := hids
      have hlt : m.count < n.count := Node.count_lt_of_mem_children (by simp [hchildren])
      have hinner : (extra :: middle).Nodup := hnodup.sublist (.cons_cons _ (.cons _
        ((List.sublist_append_left ..).trans (List.sublist_append_right ..))))
      obtain ⟨host, b', children', hhost, hattaches⟩ := ih hmiddle hinner (by omega)
      rw [hids, Spread.findM?_some (hids ▸ children) hfront.length_ids hbefore hm]
      exact ⟨host, b', children', hhost, hattaches.above kept shows field hids hchildren hfront hback hbefore hm
        (List.nodup_cons.mp hnodup).2⟩

theorem Spread.length_le (h : Spread made ids ns order) (hnodup : order.Nodup) :
    Node.countAll ns ≤ made.size := by
  rw [← h.length_eq, ← List.length_range (n := made.size)]
  exact (hnodup.subperm fun i hi => List.mem_range.mpr (h.lt_size i hi)).length_le

/-- A comment is put into the arena where it is put into the tree. -/
theorem Spread.attach {root : NodeId} {extra : Nat} {comment : Node}
    (h : Spread made [root.index] [n] order) (hnodup : (extra :: order).Nodup)
    (hcomment : Spread made [extra] [comment] [extra]) : ∃ made' order',
      attach? root made ⟨extra⟩ = some made' ∧
      Spread made' [root.index] [n.attach comment] order' ∧ order'.Perm (extra :: order) ∧
      made'.size = made.size ∧ (∀ i, IsWrapper made i → IsWrapper made' i) ∧
      ∀ i ∉ order, made'[i]? = made[i]? := by
  obtain ⟨_, b, _, ⟨⟩, -, kept, shows, -⟩ := hcomment.single
  have hcount : n.count ≤ made.size := by
    simpa [Node.countAll] using h.length_le (List.nodup_cons.mp hnodup).2
  obtain ⟨host, b', children, hhost, hmem, kept', inserted, order', hspread, hperm⟩ :=
    h.attaches hnodup hcomment hcount
  refine ⟨made.setIfInBounds host { b' with children }, order', ?_, hspread, hperm,
    Array.size_setIfInBounds, fun i hi => ?_, fun i hi => Array.getElem?_setIfInBounds_ne ?_⟩
  · simp only [attach?, kept, shows.span, hhost, kept', inserted, Option.bind_eq_bind, Option.bind_some]
    rfl
  · rw [IsWrapper, Array.getElem?_setIfInBounds]
    split
    · rename_i heq
      subst heq
      rw [IsWrapper, kept'] at hi
      rw [if_pos (Array.getElem?_eq_some_iff.mp kept').1]
      exact hi
    · exact hi
  · rintro rfl
    exact hi hmem

/-- Comments that stand somewhere in an arena are put in one after the other. -/
theorem Spread.attachAll {base : Array Built} {root : NodeId} {extras : List NodeId} {comments : List Node}
    (h : Spread made [root.index] [n] order) (hnodup : (extras.map NodeId.index ++ order).Nodup)
    (hcomments : List.Forall₂ (fun extra comment => Spread base [extra.index] [comment] [extra.index])
      extras comments) (hsame : ∀ extra ∈ extras, made[extra.index]? = base[extra.index]?) :
    ∃ made' order', extras.foldlM (attach? root) made = some made' ∧
      Spread made' [root.index] [n.attachAll comments] order' ∧
      order'.Perm (extras.map NodeId.index ++ order) ∧
      made'.size = made.size ∧ ∀ i, IsWrapper made i → IsWrapper made' i := by
  induction hcomments generalizing made n order with
  | nil => exact ⟨made, order, rfl, h, .refl _, rfl, fun _ hi => hi⟩
  | @cons extra comment extras comments first rest ih =>
    obtain ⟨hextra, hextras⟩ := List.forall_mem_cons.mp hsame
    obtain ⟨hother, hnodup'⟩ := List.nodup_cons.mp hnodup
    have hhere : (extra.index :: order).Nodup :=
      hnodup.sublist ((List.sublist_append_right _ order).cons_cons _)
    obtain ⟨made₁, order₁, hattach, hspread, hperm, hsize, hwrappers, hkept⟩ :=
      h.attach hhere (first.congr fun i hi => by rw [List.mem_singleton.mp hi, hextra])
    have hmoved : (extras.map NodeId.index ++ order₁).Perm
        (extra.index :: (extras.map NodeId.index ++ order)) :=
      (hperm.append_left _).trans List.perm_middle
    obtain ⟨made', order', hattachs, hspread', hperm', hsize', hwrappers'⟩ :=
      ih hspread (hmoved.nodup_iff.mpr hnodup) fun extra' hextra' => by
        rw [hkept _ fun hmem => (List.nodup_append.mp hnodup').2.2 _ (List.mem_map_of_mem hextra') _ hmem rfl]
        exact hextras extra' hextra'
    refine ⟨made', order', ?_, hspread', hperm'.trans hmoved,
      hsize'.trans hsize, fun i hi => hwrappers' i (hwrappers i hi)⟩
    rw [List.foldlM_cons, hattach]
    exact hattachs

end Comments

end ScriptTree.Building
