import Mathlib
import ScriptTree.Proofs.Building.Standing
import ScriptTree.Proofs.Calls.Agreement
import ScriptTree.Proofs.Parsing.Forward

/-! Steps over the arena that do what steps with nodes do.

`Follows given m m'` says that a step over the arena and one with nodes lead to the same state, where the
one gives places and the other nodes, if what they have been `given` stands one behind the other at the end
of the arena and is taken up. Behind the steps stands what they give (`Stand`), and in front of it nothing
has changed (`Spares`); so the places in the arena stand for the nodes (`Related`). The rules hand on what
is given together with what each part gives, and what is taken up has to be all of it (`Takes`), so that a
production is proved by following what it takes up. -/
namespace ScriptTree.Building

open Parsing

/-! ### Places and nodes -/

/-- Places that stand for nodes, if they have the same shape. -/
class Related (α β : Type) where
  pairs : α → β → List (Child × Node)
  Alike : α → β → Prop

namespace Related

instance one : Related NodeId Node := ⟨fun id n => [(id.plain, n)], fun _ _ => True⟩

instance child : Related Child Node := ⟨fun c n => [(c, n)], fun _ _ => True⟩

instance list : Related (List Child) (List Node) := ⟨List.zip, fun cs ns => cs.length = ns.length⟩

instance array : Related (Array Child) (Array Node) :=
  ⟨fun cs ns => cs.toList.zip ns.toList, fun cs ns => cs.toList.length = ns.toList.length⟩

instance option : Related (Option NodeId) (Option Node) where
  pairs
    | some id, some n => [(id.plain, n)]
    | _, _ => []
  Alike id n := id.isSome = n.isSome

instance round {α β : Type} [Related α β] : Related (Round α) (Round β) where
  pairs
    | .more a, .more b | .done a, .done b => pairs a b
    | _, _ => []
  Alike
    | .more a, .more b | .done a, .done b => Alike a b
    | _, _ => False

end Related

/-- Whether places stand for nodes from a place of the arena up to another. -/
structure Stand {α β : Type} [Related α β] (made : Array Built) (lo hi : Nat) (a : α) (b : β) : Prop where
  alike : Related.Alike a b
  stack : Stack made lo hi (Related.pairs a b)

/-- What a step has been given: places and the nodes that they stand for, in the order in which these were
made. -/
inductive Given : Type 1
  | nothing
  | also {α β : Type} [Related α β] (given : Given) (a : α) (b : β)

/-- Whether what is given stands from a place of the arena up to another. -/
def Given.Stands (made : Array Built) (lo hi : Nat) : Given → Prop
  | nothing => lo = hi
  | also given a b => ∃ mid, given.Stands made lo mid ∧ Stand made mid hi a b

section Standing
variable {α β : Type} [Related α β] {made made' : Array Built} {lo mid hi : Nat} {a : α} {b : β}
  {given : Given}

theorem Stand.congr (h : Stand made lo hi a b) (hsame : ∀ j, lo ≤ j → j < hi → made'[j]? = made[j]?) :
    Stand made' lo hi a b :=
  ⟨h.alike, h.stack.congr hsame⟩

theorem Given.Stands.le (h : given.Stands made lo hi) : lo ≤ hi := by
  induction given generalizing hi with
  | nothing => exact Nat.le_of_eq h
  | also _ a b ih =>
    obtain ⟨mid, hgiven, hlast⟩ := h
    exact (ih hgiven).trans hlast.stack.le

theorem Given.Stands.congr (h : given.Stands made lo hi)
    (hsame : ∀ j, lo ≤ j → j < hi → made'[j]? = made[j]?) : given.Stands made' lo hi := by
  induction given generalizing hi with
  | nothing => exact h
  | also _ a b ih =>
    obtain ⟨mid, hgiven, hlast⟩ := h
    have hlo := Given.Stands.le hgiven
    have hhi := hlast.stack.le
    exact ⟨mid, ih hgiven fun j hj hj' => hsame j hj (by omega),
      hlast.congr fun j hj hj' => hsame j (by omega) hj'⟩

theorem Stand.also (h : Stand made lo hi a b) : (Given.nothing.also a b).Stands made lo hi := ⟨lo, rfl, h⟩

theorem Stand.one {id : NodeId} {n : Node} (h : Stand made lo hi id n) : Pending made lo hi id.plain n :=
  h.stack.first

theorem Stand.map_fst {children : Array Child} {nodes : Array Node} (h : Stand made lo hi children nodes) :
    (Related.pairs children nodes).map Prod.fst = children.toList :=
  List.map_fst_zip (Nat.le_of_eq h.alike)

theorem Stand.map_snd {children : Array Child} {nodes : Array Node} (h : Stand made lo hi children nodes) :
    (Related.pairs children nodes).map Prod.snd = nodes.toList :=
  List.map_snd_zip (Nat.le_of_eq h.alike.symm)

theorem Stand.of_one {id : NodeId} {n : Node} (h : Pending made lo hi id.plain n) : Stand made lo hi id n :=
  ⟨trivial, .single h⟩

theorem Stand.of_child {c : Child} {n : Node} (h : Pending made lo hi c n) : Stand made lo hi c n :=
  ⟨trivial, .single h⟩

end Standing

/-! ### Taking up what is given -/

theorem Stands.withField {made : Array Built} {lo hi id : Nat} {n : Node} (h : Stands made lo hi id n)
    (field : Field) : Stands made lo hi id (n.withField field) := by
  obtain ⟨b, hkept, hshows, hbelow⟩ := h.kept
  exact ⟨⟨b, hkept, ⟨hshows.symbol, hshows.span, hshows.missing, hshows.extra⟩, hbelow⟩, h.lt, h.gap⟩

/-- Whether places stand for nodes that are the last of what is given, and `rest` is what is left of it. -/
class Takes {α β : Type} [Related α β] (given : Given) (a : α) (b : β) (rest : outParam Given) : Prop where
  takes : ∀ made lo hi, given.Stands made lo hi → (rest.also a b).Stands made lo hi

namespace Takes
variable {α β : Type} [Related α β] {given rest rest' : Given}

instance (priority := high) here (a : α) (b : β) : Takes (given.also a b) a b given := ⟨fun _ _ _ h => h⟩

instance plain (id : NodeId) (n : Node) [h : Takes given id n rest] : Takes given id.plain n rest where
  takes made lo hi hstands := by
    obtain ⟨mid, hrest, hone⟩ := h.takes made lo hi hstands
    exact ⟨mid, hrest, .of_child hone.one⟩

instance withField (id : NodeId) (n : Node) (field : Field) [h : Takes given id n rest] :
    Takes given (id.withField field) (n.withField field) rest where
  takes made lo hi hstands := by
    obtain ⟨mid, hrest, hone⟩ := h.takes made lo hi hstands
    have hfirst := hone.one
    exact ⟨mid, hrest, .of_child ⟨hfirst.stands.withField field, rfl, hfirst.plain⟩⟩

instance nil : Takes given ([] : List Child) ([] : List Node) given :=
  ⟨fun _ _ hi hstands => ⟨hi, hstands, rfl, .nil⟩⟩

instance cons (c : Child) (n : Node) (cs : List Child) (ns : List Node) [hs : Takes given cs ns rest']
    [h : Takes rest' c n rest] : Takes given (c :: cs) (n :: ns) rest where
  takes made lo hi hstands := by
    obtain ⟨mid, hrest, hlast⟩ := hs.takes made lo hi hstands
    obtain ⟨mid', hrest, hfirst⟩ := h.takes made lo mid hrest
    exact ⟨mid', hrest, congrArg (· + 1) hlast.alike, hfirst.stack.append hlast.stack⟩

instance toArray (cs : List Child) (ns : List Node) [h : Takes given cs ns rest] :
    Takes given cs.toArray ns.toArray rest where
  takes made lo hi hstands := by
    obtain ⟨mid, hrest, hlast⟩ := h.takes made lo hi hstands
    exact ⟨mid, hrest, hlast.alike, hlast.stack⟩

instance append (a b : Array Child) (a' b' : Array Node) [hb : Takes given b b' rest']
    [ha : Takes rest' a a' rest] : Takes given (a ++ b) (a' ++ b') rest where
  takes made lo hi hstands := by
    obtain ⟨mid, hrest, hlast⟩ := hb.takes made lo hi hstands
    obtain ⟨mid', hrest, hfirst⟩ := ha.takes made lo mid hrest
    have hstack := hfirst.stack.append hlast.stack
    refine ⟨mid', hrest, ?_, ?_⟩
    · simp only [Related.Alike, Array.toList_append, List.length_append]
      rw [show a.toList.length = _ from hfirst.alike, show b.toList.length = _ from hlast.alike]
    · simp only [Related.pairs, Array.toList_append] at hstack ⊢
      rwa [List.zip_append hfirst.alike]

instance push (a : Array Child) (a' : Array Node) (c : Child) (n : Node) [hc : Takes given c n rest']
    [ha : Takes rest' a a' rest] : Takes given (a.push c) (a'.push n) rest := by
  rw [Array.push_eq_append, Array.push_eq_append]
  infer_instance

instance none : Takes given (Option.none : Option NodeId) (Option.none : Option Node) given :=
  ⟨fun _ _ hi hstands => ⟨hi, hstands, rfl, .nil⟩⟩

instance some (id : NodeId) (n : Node) [h : Takes given id n rest] :
    Takes given (Option.some id) (Option.some n) rest where
  takes made lo hi hstands := by
    obtain ⟨mid, hrest, hone⟩ := h.takes made lo hi hstands
    exact ⟨mid, hrest, rfl, hone.stack⟩

instance more (a : α) (b : β) [h : Takes given a b rest] :
    Takes given (Round.more a) (Round.more b) rest where
  takes made lo hi hstands := by
    obtain ⟨mid, hrest, hlast⟩ := h.takes made lo hi hstands
    exact ⟨mid, hrest, hlast.alike, hlast.stack⟩

instance done (a : α) (b : β) [h : Takes given a b rest] :
    Takes given (Round.done a) (Round.done b) rest where
  takes made lo hi hstands := by
    obtain ⟨mid, hrest, hlast⟩ := h.takes made lo hi hstands
    exact ⟨mid, hrest, hlast.alike, hlast.stack⟩

instance ite (c : Prop) [Decidable c] (a a' : α) (b b' : β) [Takes given a b rest]
    [Takes given a' b' rest] : Takes given (if c then a else a') (if c then b else b') rest := by
  split <;> infer_instance

theorem all {made : Array Built} {lo hi : Nat} {a : α} {b : β} (h : Takes given a b .nothing)
    (hstands : given.Stands made lo hi) : Stand made lo hi a b := by
  obtain ⟨mid, hlo, hlast⟩ := h.takes made lo hi hstands
  obtain rfl : lo = mid := hlo
  exact hlast

end Takes

/-! ### The same states -/

/-- Whether steps leave as it is what stands in front of a mark and what was reported. -/
structure Spares (mark : Nat) (s s' : State) : Prop where
  below : ∀ i < mark, s'.made[i]? = s.made[i]?
  reported : s.problems.toList <+: s'.problems.toList

namespace Spares
variable {mark mark' : Nat} {s s' s'' : State}

theorem refl : Spares mark s s := ⟨fun _ _ => rfl, List.prefix_refl _⟩

theorem trans (h : Spares mark s s') (h' : Spares mark s' s'') : Spares mark s s'' :=
  ⟨fun i hi => (h'.below i hi).trans (h.below i hi), h.reported.trans h'.reported⟩

theorem mono (h : Spares mark' s s') (hle : mark ≤ mark') : Spares mark s s' :=
  ⟨fun i hi => h.below i (by omega), h.reported⟩

theorem of_made (hmade : s'.made = s.made) (hreported : s.problems.toList <+: s'.problems.toList) :
    Spares mark s s' :=
  ⟨fun i _ => by rw [hmade], hreported⟩

end Spares

/-- Whether steps lead from a state to the same one, the nodes that they give standing from the mark on up
to the end of the arena. -/
inductive Agrees {α β : Type} [Related α β] (mark : Nat) (s : State) :
    EStateM.Result Fault State α → EStateM.Result Problem State β → Prop
  | ok {a b s'} (spares : Spares mark s s') (stand : Stand s'.made mark s'.made.size a b) :
      Agrees mark s (.ok a s') (.ok b s')
  | error {problem s'} (spares : Spares mark s s') :
      Agrees mark s (.error (.problem problem) s') (.error problem s')

theorem Agrees.trans {α β : Type} [Related α β] {mark : Nat} {s s' : State}
    {result : EStateM.Result Fault State α} {result' : EStateM.Result Problem State β}
    (h : Spares mark s s') (hrest : Agrees mark s' result result') : Agrees mark s result result' := by
  cases hrest with
  | ok spares stand => exact .ok (h.trans spares) stand
  | error spares => exact .error (h.trans spares)

/-- Whether steps lead to the same state and give the same, without making any nodes. -/
inductive Same {α : Type} (s : State) : EStateM.Result Fault State α → EStateM.Result Problem State α → Prop
  | ok {a s'} (made : s'.made = s.made) (reported : s.problems.toList <+: s'.problems.toList) :
      Same s (.ok a s') (.ok a s')
  | error {problem s'} (made : s'.made = s.made) (reported : s.problems.toList <+: s'.problems.toList) :
      Same s (.error (.problem problem) s') (.error problem s')

/-- Whether a source can be cut where its string tokens start and stop, and has their quotes there: the
opening one, and behind their parts the closing one, unless nothing follows the parts. -/
structure StringsStand (source : String) (tokens : Array Token) : Prop where
  quoted : ∀ i quote parts, kindAt tokens i = .string quote parts →
    (String.Pos.Raw.mk (spanAt tokens i).start).isValid source = true ∧
    (String.Pos.Raw.mk (spanAt tokens i).stop).isValid source = true ∧
    (quote = .singleQuote ∨ quote = .doubleQuote) ∧
    (⟨(spanAt tokens i).start, (spanAt tokens i).start + 1⟩ : Span).slice source = quote.spelling ∧
    (contentStop (spanAt tokens i).start parts = (spanAt tokens i).stop ∨
      contentStop (spanAt tokens i).start parts + 1 = (spanAt tokens i).stop ∧
      (⟨(spanAt tokens i).stop - 1, (spanAt tokens i).stop⟩ : Span).slice source = quote.spelling)

/-- Whether a scope over the arena offers what one with nodes does. -/
structure Fits (scope : Scope) (scope' : Parsing.Scope) : Prop where
  tokens : scope.tokens = scope'.tokens
  strings : StringsStand scope.source scope.tokens
  deeper : ∀ goal s, Agrees s.made.size s (scope.deeper goal s) (scope'.deeper goal s)

/-! ### Steps that do the same -/

/-- Whether a step makes no nodes and does over the arena what it does with nodes. -/
class Keeps {α : Type} (given : Given) (m : Build α) (m' : Parse α) : Prop where
  keeps : ∀ scope scope', Fits scope scope' → ∀ mark s, given.Stands s.made mark s.made.size →
    Same s (m scope s) (m' scope' s)

/-- Whether a step tells something of what is given, and does nothing else. -/
def Tells {α : Type} (given : Given) (m : Build α) (a : α) : Prop :=
  ∀ scope mark s, given.Stands s.made mark s.made.size → m scope s = .ok a s

/-- Whether a step over the arena does what one with nodes does and takes up all that is given. -/
class Follows {α β : Type} [Related α β] (given : Given) (m : Build α) (m' : Parse β) : Prop where
  follows : ∀ scope scope', Fits scope scope' → ∀ mark s, given.Stands s.made mark s.made.size →
    Agrees mark s (m scope s) (m' scope' s)

section Runs
variable {α β : Type} {m : Build α} {f : α → Build β} {scope : Scope} {s s' : State}

theorem run_bind_ok {a : α} (h : m scope s = .ok a s') : (m >>= f) scope s = f a scope s' := by
  simp only [Bind.bind, ReaderT.bind, EStateM.bind, h]

theorem run_bind_error {e : Fault} (h : m scope s = .error e s') : (m >>= f) scope s = .error e s' := by
  simp only [Bind.bind, ReaderT.bind, EStateM.bind, h]

end Runs

/-! ### Looking at the arena -/

section Places
variable {scope : Scope} {s : State} (id : NodeId) {b : Built}

theorem entry_eq (h : s.made[id.index]? = some b) : entry id scope s = .ok b s := by
  show found s.made[id.index]? scope s = _
  rw [h]
  rfl

theorem spanOf_eq (h : s.made[id.index]? = some b) : spanOf id scope s = .ok b.span s :=
  run_bind_ok (entry_eq id h)

theorem kindOf_eq (h : s.made[id.index]? = some b) : kindOf id scope s = .ok b.symbol.kind? s :=
  run_bind_ok (entry_eq id h)

theorem childrenOf_eq (h : s.made[id.index]? = some b) :
    childrenOf id scope s = .ok (b.children.map NodeId.mk) s :=
  run_bind_ok (entry_eq id h)

end Places

namespace Tells
variable {given rest : Given}

/-- What is taken up last stands at the end of the arena. -/
theorem pending {made : Array Built} {mark hi : Nat} {id : NodeId} {n : Node} (h : Takes given id n rest)
    (hstands : given.Stands made mark hi) : ∃ lo, Pending made lo hi id.plain n := by
  obtain ⟨lo, _, hone⟩ := h.takes made mark hi hstands
  exact ⟨lo, hone.one⟩

theorem kindOf (id : NodeId) (n : Node) [h : Takes given id n rest] :
    Tells given (kindOf id) n.kind? := by
  intro scope mark s hstands
  obtain ⟨lo, hone⟩ := pending h hstands
  obtain ⟨b, hkept, hshows, _⟩ := hone.stands.kept
  exact (kindOf_eq id hkept).trans (by rw [hshows.symbol]; rfl)

theorem spanOf (id : NodeId) (n : Node) [h : Takes given id n rest] : Tells given (spanOf id) n.span := by
  intro scope mark s hstands
  obtain ⟨lo, hone⟩ := pending h hstands
  obtain ⟨b, hkept, hshows, _⟩ := hone.stands.kept
  exact (spanOf_eq id hkept).trans (by rw [hshows.span])

end Tells

namespace Keeps
variable {α : Type} {given : Given}

/-- What only looks ahead does not ask what is parsed deeper down. -/
instance lift (m : Parse α) [hm : Calls.Grounded m] [hstill : Still m] :
    Keeps given (liftM m : Build α) m where
  keeps scope scope' h _ s _ := by
    have hrun : m ⟨scope.tokens, fun _ s => .error ⟨.tooDeep 0, .empty 0⟩ s⟩ s = m scope' s := by
      rw [h.tokens]
      exact hm.same ..
    have hsame := hstill.same scope' s
    show Same s (Building.lift m scope s) (m scope' s)
    rw [Building.lift, hrun]
    cases hresult : m scope' s with
    | ok a s' =>
      obtain rfl : s' = s := by rwa [hresult] at hsame
      exact .ok rfl (List.prefix_refl _)
    | error problem s' =>
      obtain rfl : s' = s := by rwa [hresult] at hsame
      exact .error rfl (List.prefix_refl _)

instance advance : Keeps given (liftM advance : Build Token) advance where
  keeps scope scope' h _ s _ := by
    let s' := if (tokenAt scope'.tokens s.position).kind != .endOfFile then
      { s with position := s.position + 1 } else s
    have hrun (deeper) : Parsing.advance ⟨scope'.tokens, deeper⟩ s =
        .ok (tokenAt scope'.tokens s.position) s' := by
      show (if ((tokenAt scope'.tokens s.position).kind != .endOfFile) = true then _ else _ :
        Parse Token) _ s = .ok _ (if _ then _ else _)
      split <;> rfl
    have hkept : s'.made = s.made ∧ s'.problems = s.problems := by
      unfold s'
      split <;> exact ⟨rfl, rfl⟩
    show Same s (Building.lift Parsing.advance scope s) (Parsing.advance scope' s)
    rw [Building.lift, h.tokens, hrun fun _ s => .error ⟨.tooDeep 0, .empty 0⟩ s, hrun scope'.deeper]
    exact .ok hkept.1 (by rw [hkept.2])

instance lastStop : Keeps given (liftM lastStop : Build Nat) lastStop := by
  have : Still Parsing.lastStop := by
    unfold Parsing.lastStop
    infer_instance
  infer_instance

instance report (problem : Problem) : Keeps given
    (modify fun s => { s with problems := s.problems.push problem } : Build PUnit)
    (modify fun s => { s with problems := s.problems.push problem }) where
  keeps _ _ _ _ s _ := .ok rfl (by rw [Array.toList_push]; exact List.prefix_append _ _)

end Keeps

namespace Follows
variable {α β α' β' γ : Type} [Related α β] [Related α' β'] {given : Given}

instance pure (a : α) (b : β) [h : Takes given a b .nothing] :
    Follows given (Pure.pure a) (Pure.pure b) :=
  ⟨fun _ _ _ _ _ hstands => .ok .refl (h.all hstands)⟩

instance fail (problem : Problem) : Follows given (fail problem : Build α) (throw problem : Parse β) :=
  ⟨fun _ _ _ _ _ _ => .error .refl⟩

/-- A step that makes no nodes leaves what is given as it is. -/
instance (priority := high) keep (m : Build γ) (m' : Parse γ) (f : γ → Build α) (g : γ → Parse β)
    [hm : Keeps given m m'] [hf : ∀ a, Follows given (f a) (g a)] : Follows given (m >>= f) (m' >>= g) where
  follows scope scope' h mark s hstands := by
    have hfirst := hm.keeps scope scope' h mark s hstands
    generalize hrun : m scope s = result at hfirst
    generalize hrun' : m' scope' s = result' at hfirst
    cases hfirst with
    | @ok a s' made reported =>
      rw [run_bind_ok hrun, Parsing.run_bind_ok hrun']
      exact .trans (.of_made made reported) ((hf a).follows scope scope' h mark s' (by rwa [made]))
    | error made reported =>
      rw [run_bind_error hrun, Parsing.run_bind_error hrun']
      exact .error (.of_made made reported)

/-- A step that takes up nothing makes its nodes behind what is given. -/
instance fresh (m : Build α) (m' : Parse β) (f : α → Build α') (g : β → Parse β')
    [hm : Follows .nothing m m'] [hf : ∀ a b, Follows (given.also a b) (f a) (g b)] :
    Follows given (m >>= f) (m' >>= g) where
  follows scope scope' h mark s hstands := by
    have hfirst := hm.follows scope scope' h s.made.size s rfl
    have hle := hstands.le
    generalize hrun : m scope s = result at hfirst
    generalize hrun' : m' scope' s = result' at hfirst
    cases hfirst with
    | @ok a b s' spares stand =>
      rw [run_bind_ok hrun, Parsing.run_bind_ok hrun']
      exact .trans (spares.mono hle) ((hf a b).follows scope scope' h mark s'
        ⟨_, hstands.congr fun j _ hj => spares.below j hj, stand⟩)
    | error spares =>
      rw [run_bind_error hrun, Parsing.run_bind_error hrun']
      exact .error (spares.mono hle)

/-- A step that takes up all that is given makes its nodes in the place of it. -/
instance (priority := low) whole (m : Build α) (m' : Parse β) (f : α → Build α') (g : β → Parse β')
    [hm : Follows given m m'] [hf : ∀ a b, Follows (Given.nothing.also a b) (f a) (g b)] :
    Follows given (m >>= f) (m' >>= g) where
  follows scope scope' h mark s hstands := by
    have hfirst := hm.follows scope scope' h mark s hstands
    generalize hrun : m scope s = result at hfirst
    generalize hrun' : m' scope' s = result' at hfirst
    cases hfirst with
    | @ok a b s' spares stand =>
      rw [run_bind_ok hrun, Parsing.run_bind_ok hrun']
      exact .trans spares ((hf a b).follows scope scope' h mark s' stand.also)
    | error spares =>
      rw [run_bind_error hrun, Parsing.run_bind_error hrun']
      exact .error spares

theorem look {m : Build γ} {m' : Parse γ} {f : γ → Build α} {g : γ → Parse β} [Keeps given m m']
    (h : ∀ a, Follows given (f a) (g a)) : Follows given (m >>= f) (m' >>= g) :=
  keep m m' f g

/-- A step that asks the arena for what is known of the nodes. -/
theorem known {m : Build γ} {c : γ} {f : γ → Build α} {m' : Parse β} (hm : Tells given m c)
    (hf : Follows given (f c) m') : Follows given (m >>= f) m' where
  follows scope scope' h mark s hstands := by
    rw [run_bind_ok (hm scope mark s hstands)]
    exact hf.follows scope scope' h mark s hstands

theorem of_eq {m : Build α} {m' : Parse β} (p : Parse β) (h : m' = p) (hp : Follows given m p) :
    Follows given m m' :=
  h ▸ hp

theorem next {m : Build α} {m' : Parse β} {f : α → Build α'} {g : β → Parse β'} [Follows given m m']
    (h : ∀ a b, Follows (Given.nothing.also a b) (f a) (g b)) : Follows given (m >>= f) (m' >>= g) :=
  whole m m' f g

instance ite (c : Prop) [Decidable c] (m₁ m₂ : Build α) (m₁' m₂' : Parse β) [Follows given m₁ m₁']
    [Follows given m₂ m₂'] :
    Follows given (if c then m₁ else m₂) (if c then m₁' else m₂') := by
  split <;> infer_instance

instance descend (goal : Goal) : Follows .nothing (descend goal) (Parsing.descend goal) where
  follows scope scope' h mark s hstands := by
    obtain rfl : mark = s.made.size := hstands
    exact h.deeper goal s

instance statement : Follows .nothing statement Parsing.statement := descend _

instance expression : Follows .nothing expression Parsing.expression := descend _

instance type : Follows .nothing type Parsing.type := descend _

end Follows

/-! ### Making nodes -/

section Nodes
variable {scope : Scope} {s : State} {id : NodeId} {b : Built} {mark : Nat}
  {pending : List (Child × Node)}

/-- What pending nodes cover is read off the arena. -/
theorem spans_eq (scope : Scope) {lo hi : Nat} (h : Stack s.made lo hi pending) :
    (pending.map Prod.fst).mapM (fun c => spanOf c.id) scope s =
      .ok (pending.map (·.2.span)) s := by
  generalize hmade : s.made = made at h
  induction h with
  | nil => rfl
  | cons first rest ih =>
    obtain ⟨b, hkept, hshows, _⟩ := first.stands.kept
    rw [List.map_cons, List.mapM_cons, run_bind_ok (spanOf_eq _ (hmade ▸ hkept)), run_bind_ok ih, hshows.span]
    rfl

theorem takeUp_eq {c : Child} (h : c.id.index < s.made.size) :
    takeUp c scope s = .ok () { s with made := filled s.made c } := by
  show (if c.id.index < s.made.size then _ else _ : Build Unit) scope s = _
  rw [if_pos h]
  rfl

theorem takeUps_eq (scope : Scope) {children : List Child} (h : ∀ c ∈ children, c.id.index < s.made.size) :
    children.forM takeUp scope s = .ok () { s with made := children.foldl filled s.made } := by
  induction children generalizing s with
  | nil => rfl
  | cons c children ih =>
    obtain ⟨hc, hchildren⟩ := List.forall_mem_cons.mp h
    rw [List.forM, run_bind_ok (takeUp_eq hc), ih]
    · rfl
    · intro c' hc'
      rw [filled, Array.size_modify]
      exact hchildren c' hc'

theorem cover_spans (nodes : List Node) : cover (nodes.map Node.span) = Node.cover nodes := by
  cases nodes with
  | nil => rfl
  | cons n nodes => exact List.foldl_map

/-- A new node of all that is pending, whatever it covers. -/
theorem nodeWithSpan_eq {kind : NodeKind} {span : Span} {children : Array Child} {n : Node}
    (h : Stack s.made mark s.made.size pending) (hchildren : children.toList = pending.map Prod.fst)
    (hn : n = ⟨.named kind, span, none, false, false, pending.map Prod.snd⟩) :
    nodeWithSpan kind span children scope s = .ok ⟨s.made.size⟩ { s with made := keep s.made n } := by
  have hfills := takeUps_eq scope fun c hc => (h.within c hc).2
  rw [nodeWithSpan, hchildren, run_bind_ok hfills, h.keep_eq (hn ▸ rfl), hn, List.map_map,
    ← size_fills s.made (pending.map Prod.fst)]
  rfl

/-- A new node of all that is pending. -/
theorem node_eq {kind : NodeKind} {children : Array Child} {n : Node}
    (h : Stack s.made mark s.made.size pending) (hchildren : children.toList = pending.map Prod.fst)
    (hn : n = .ofChildren kind (pending.map Prod.snd)) :
    node kind children scope s = .ok ⟨s.made.size⟩ { s with made := keep s.made n } := by
  have hspans := spans_eq scope h
  have hcover : cover (pending.map (·.2.span)) = Node.cover (pending.map Prod.snd) := by
    rw [← cover_spans, List.map_map]
    rfl
  rw [node, hchildren, run_bind_ok hspans]
  exact nodeWithSpan_eq h hchildren (by rw [hn, hcover]; rfl)

/-- Making a node of all that is pending puts it in the place of that. -/
theorem Agrees.make {n : Node} (h : Stack s.made mark s.made.size pending)
    (hn : n.children = pending.map Prod.snd) (hfield : n.field = none)
    (hplain : n.symbol = .named .primaryExpression → ∀ c ∈ n.children, c.field = none) :
    Agrees mark s (.ok (⟨s.made.size⟩ : NodeId) { s with made := keep s.made n })
      (.ok n { s with made := keep s.made n }) :=
  .ok ⟨fun _ hi => h.keep_below hn hi, List.prefix_refl _⟩ (.of_one (h.pending_keep hn hfield hplain))

end Nodes

namespace Follows
variable {given : Given}

/-- A leaf that is made in the same way. -/
theorem made_leaf {b : Built} {n : Node} (hn : n.children = []) (hfield : n.field = none)
    (hb : b = ⟨n.symbol, n.span, none, n.missing, n.extra, []⟩) :
    Follows .nothing (push b) (make n) where
  follows scope scope' h mark s hstands := by
    obtain rfl : mark = s.made.size := hstands
    have hnone : Stack s.made s.made.size s.made.size [] := .nil
    have hmade : s.made.push b = Parsing.keep s.made n := by
      rw [hb, hnone.keep_eq hn]
      rfl
    show Agrees s.made.size s (.ok (⟨s.made.size⟩ : NodeId) { s with made := s.made.push b }) _
    rw [hmade]
    exact .make hnone hn hfield fun _ => by rw [hn]; nofun

instance leaf (symbol : Symbol) (span : Span) :
    Follows .nothing (leaf symbol span) (Parsing.leaf symbol span) :=
  made_leaf (n := .leaf symbol span) rfl rfl rfl

instance absent (symbol : Symbol) (offset : Nat) :
    Follows .nothing (absent symbol offset) (make (.absent symbol offset)) :=
  made_leaf (n := .absent symbol offset) rfl rfl rfl

/-- A node with the children of all that is given. -/
theorem made_node (kind : NodeKind) (children : Array Child) (nodes : Array Node)
    [h : Takes given children nodes .nothing]
    (hplain : kind = .primaryExpression → ∀ c ∈ children.toList, c.field = none) :
    Follows given (node kind children) (Parsing.node kind nodes) where
  follows scope scope' hfits mark s hstands := by
    have hstand := h.all hstands
    rw [node_eq hstand.stack hstand.map_fst.symm (congrArg _ hstand.map_snd.symm)]
    refine .make hstand.stack hstand.map_snd.symm rfl fun hsymbol n hn => ?_
    obtain ⟨taken, htaken, rfl⟩ := List.mem_map.mp (hstand.map_snd.symm ▸ hn)
    exact (hstand.stack.fields taken htaken).symm.trans
      (hplain (Symbol.named.inj hsymbol) taken.1 (hstand.map_fst ▸ List.mem_map_of_mem htaken))

end Follows

/-- Whether nodes of a kind may hold nodes that fill no field only. -/
@[reducible] def isWrapper : NodeKind → Bool
  | .primaryExpression => true
  | _ => false

/-- Whether something does not hold, which shows from its definition. -/
class IsFalse (b : Bool) : Prop where
  eq_false : b = false

instance : IsFalse false := ⟨rfl⟩

namespace Follows
variable {α β : Type} [Related α β] {given : Given}

instance node (kind : NodeKind) (children : Array Child) (nodes : Array Node)
    [Takes given children nodes .nothing] [hkind : IsFalse (isWrapper kind)] :
    Follows given (node kind children) (Parsing.node kind nodes) :=
  made_node kind children nodes fun h => by
    have := hkind.eq_false
    rw [h] at this
    cases this

/-- A child that fills no field yet. -/
instance plain (m : Build NodeId) (m' : Parse Node) [h : Follows given m m'] :
    Follows given (m >>= fun id => Pure.pure id.plain) m' where
  follows scope scope' hfits mark s hstands := by
    have hrun := h.follows scope scope' hfits mark s hstands
    generalize hm : m scope s = result at hrun
    generalize m' scope' s = result' at hrun ⊢
    cases hrun with
    | ok spares stand =>
      rw [run_bind_ok hm]
      exact .ok spares (.of_child stand.one)
    | error spares =>
      rw [run_bind_error hm]
      exact .error spares

/-! ### Reading tokens -/

instance bumpSymbol (symbol : Symbol) : Follows .nothing (bumpSymbol symbol) (Parsing.bumpSymbol symbol) := by
  unfold Building.bumpSymbol Parsing.bumpSymbol
  infer_instance

instance bumpAs (kind : NodeKind) : Follows .nothing (bumpAs kind) (Parsing.bumpAs kind) := bumpSymbol _

instance bump : Follows .nothing bump Parsing.bump := by
  unfold Building.bump Parsing.bump
  infer_instance

instance unexpected (what : Expected) :
    Follows given (unexpected what : Build α) (Parsing.unexpected what : Parse β) := by
  unfold Building.unexpected Parsing.unexpected
  infer_instance

instance expect (mark : Punctuation) : Follows .nothing (expect mark) (Parsing.expect mark) := by
  unfold Building.expect Parsing.expect
  infer_instance

instance expectOperator (o : Operator) : Follows .nothing (expectOperator o) (Parsing.expectOperator o) := by
  unfold Building.expectOperator Parsing.expectOperator
  infer_instance

instance expectWord (word : Keyword) (what : Expected) :
    Follows .nothing (expectWord word what) (Parsing.expectWord word what) := by
  unfold Building.expectWord Parsing.expectWord
  infer_instance

instance expectIdentifier (kind : NodeKind) (what : Expected) :
    Follows .nothing (expectIdentifier kind what) (Parsing.expectIdentifier kind what) := by
  unfold Building.expectIdentifier Parsing.expectIdentifier
  infer_instance

instance expectOrMissing (mark : Punctuation) :
    Follows .nothing (expectOrMissing mark) (Parsing.expectOrMissing mark) := by
  have (given : Given) (offset : Nat) (found : String) : Keeps given
      (modify fun s => { s with problems := s.problems.push ⟨.missingMark mark found, .empty offset⟩ } :
        Build PUnit)
      (modify fun s =>
        { s with problems := s.problems.push ⟨.missingMark mark found, .empty offset⟩ }) :=
    .report _
  unfold Building.expectOrMissing Parsing.expectOrMissing
  dsimp only
  infer_instance

/-! ### Options and repetition -/

instance optionally (there : Bool) (part : Build (Array Child)) (part' : Parse (Array Node))
    [Follows .nothing part part'] : Follows .nothing (optionally there part) (Parsing.optionally there part') := by
  unfold Building.optionally Parsing.optionally
  infer_instance

/-- What is given stands for something of the same shape. -/
theorem unlike {α' β' : Type} [Related α' β'] {a : α} {b : β} {m : Build α'} {m' : Parse β'} (h : ¬Related.Alike a b) :
    Follows (given.also a b) m m' :=
  ⟨fun _ _ _ _ _ ⟨_, _, hlast⟩ => absurd hlast.alike h⟩

theorem ofSome {id : NodeId} {n : Node} {m : Build α} {m' : Parse β} (h : Follows (given.also id n) m m') :
    Follows (given.also (some id) (some n)) m m' :=
  ⟨fun scope scope' hfits mark s ⟨mid, hgiven, hlast⟩ =>
    h.follows scope scope' hfits mark s ⟨mid, hgiven, trivial, hlast.stack⟩⟩

theorem ofNone {m : Build α} {m' : Parse β} (h : Follows given m m') :
    Follows (given.also (none : Option NodeId) (none : Option Node)) m m' where
  follows scope scope' hfits mark s := by
    rintro ⟨mid, hgiven, hlast⟩
    obtain rfl : mid = s.made.size := by
      cases hlast.stack
      rfl
    exact h.follows scope scope' hfits mark s hgiven

theorem rounds {round : α → Build (Round α)} {round' : β → Parse (Round β)}
    (h : ∀ a b, Follows (Given.nothing.also a b) (round a) (round' b)) (n : Nat) (a : α) (b : β) :
    Follows (Given.nothing.also a b) (rounds round n a) (Parsing.rounds round' n b) := by
  induction n generalizing a b with
  | zero => exact pure a b
  | succ n ih =>
    have := h a b
    unfold Building.rounds Parsing.rounds
    refine next fun r r' => ⟨fun scope scope' hfits mark s hstands => ?_⟩
    obtain ⟨_, hlo, hstand⟩ := hstands
    obtain rfl : mark = _ := hlo
    obtain ⟨halike, hstack⟩ := hstand
    match r, r' with
    | .more a, .more b => exact (ih a b).follows scope scope' hfits mark s ⟨mark, rfl, halike, hstack⟩
    | .done a, .done b => exact .ok .refl ⟨halike, hstack⟩
    | .more _, .done _ | .done _, .more _ => exact halike.elim

instance repeatFrom (start : α) (start' : β) (round : α → Build (Round α)) (round' : β → Parse (Round β))
    [hstart : Takes given start start' .nothing]
    [h : ∀ a b, Follows (Given.nothing.also a b) (round a) (round' b)] :
    Follows given (repeatFrom start round) (Parsing.repeatFrom start' round') where
  follows scope scope' hfits mark s hstands := by
    have hrounds := (rounds h (scope.tokens.size - s.position + 1) start start').follows scope scope' hfits
      mark s (hstart.all hstands).also
    show Agrees mark s (Building.rounds round (scope.tokens.size - s.position + 1) start scope s)
      (Parsing.rounds round' (scope'.tokens.size - s.position + 1) start' scope' s)
    rwa [← hfits.tokens]

set_option synthInstance.maxSize 1024 in
instance listOf (kind : NodeKind) (opening closing : Punctuation) (item : Build NodeId) (item' : Parse Node)
    [Follows .nothing item item'] [IsFalse (isWrapper kind)] :
    Follows .nothing (listOf kind opening closing item) (Parsing.listOf kind opening closing item') := by
  unfold Building.listOf Parsing.listOf
  dsimp only
  infer_instance

instance mapM {γ : Type} (f : γ → Build Child) (f' : γ → Parse Node) (l : List γ)
    [h : ∀ a, Follows .nothing (f a) (f' a)] : Follows .nothing (l.mapM f) (l.mapM f') := by
  induction l with
  | nil =>
    rw [List.mapM_nil, List.mapM_nil]
    infer_instance
  | cons a l ih =>
    rw [List.mapM_cons, List.mapM_cons]
    infer_instance

end Follows

end ScriptTree.Building
