import Mathlib
import ScriptTree.Proofs.Printing.Sketch

/-! Brackets and what stands between them.

What follows the bracket that closes the one ahead depends on the kinds of the tokens only
(`behindClosing`); tokens whose own brackets are closed are passed over (`WellBracketed`). A list in brackets
becomes what its items become, with the commas between them (`ReadsList`). -/
namespace ScriptTree.Parsing

/-! ### Looking past a bracket -/

/-- The kinds behind the bracket that closes the outermost of `depth` open ones. -/
def behindClosing : List TokenKind → (depth : Nat) → Option (List TokenKind)
  | [], _ => none
  | k :: ks, depth =>
    match bracket? k with
    | some .opening => behindClosing ks (depth + 1)
    | some .closing =>
      match depth with
      | 0 => none
      | 1 => some ks
      | depth + 2 => behindClosing ks (depth + 1)
    | none => if k = .endOfFile then none else behindClosing ks depth

section Rules
variable {k : TokenKind} (ks : List TokenKind) (depth : Nat)

theorem behindClosing_opening (h : bracket? k = some .opening) :
    behindClosing (k :: ks) depth = behindClosing ks (depth + 1) := by
  rw [behindClosing.eq_def]
  simp only [h]

theorem behindClosing_closing (h : bracket? k = some .closing) :
    behindClosing (k :: ks) 1 = some ks := by
  rw [behindClosing.eq_def]
  simp only [h]

theorem behindClosing_closing_inner (h : bracket? k = some .closing) :
    behindClosing (k :: ks) (depth + 2) = behindClosing ks (depth + 1) := by
  rw [behindClosing.eq_def]
  simp only [h]

theorem behindClosing_flat (h : bracket? k = none) (hreal : k ≠ .endOfFile) :
    behindClosing (k :: ks) depth = behindClosing ks depth := by
  rw [behindClosing.eq_def]
  simp only [h, if_neg hreal]

end Rules

theorem map_closingIndex? (tokens : Array Token) (i depth : Nat) :
    (closingIndex? tokens i depth).map (fun close => (tokens.toList.drop (close + 1)).map Token.kind) =
      behindClosing ((tokens.toList.drop i).map Token.kind) depth := by
  have hcons {i : Nat} (hi : i < tokens.size) : (tokens.toList.drop i).map Token.kind =
      tokens[i].kind :: (tokens.toList.drop (i + 1)).map Token.kind := by
    rw [List.drop_eq_getElem_cons (by simpa using hi), List.map_cons, Array.getElem_toList]
  fun_induction closingIndex? tokens i depth with
  | case1 i depth hi hbracket ih => rw [ih, hcons hi, behindClosing_opening _ _ hbracket]
  | case2 i hi hbracket =>
    rw [hcons hi, behindClosing.eq_def]
    simp only [hbracket, Option.map_none]
  | case3 i hi hbracket => rw [hcons hi, behindClosing_closing _ hbracket, Option.map_some]
  | case4 i hi hbracket depth hdepth ih =>
    obtain ⟨depth, rfl⟩ : ∃ n, depth = n + 1 := Nat.exists_eq_succ_of_ne_zero hdepth
    rw [ih, hcons hi, behindClosing_closing_inner _ _ hbracket]
  | case5 i depth hi hbracket hend =>
    rw [hcons hi, behindClosing.eq_def]
    simp only [hbracket, if_pos hend, Option.map_none]
  | case6 i depth hi hbracket hend ih => rw [ih, hcons hi, behindClosing_flat _ _ hbracket hend]
  | case7 i depth hi =>
    have hpast : tokens.toList.drop i = [] :=
      List.drop_eq_nil_of_le (by rw [Array.length_toList]; exact Nat.le_of_not_lt hi)
    rw [hpast, List.map_nil, behindClosing, Option.map_none]

/-- What is asked of the token behind the bracket that closes the one ahead. -/
theorem Yields.closesBefore_of_behind {scope : Scope} {ks rest : List TokenKind} {k : TokenKind}
    {p : TokenKind → Bool} (h : behindClosing ks 0 = some (k :: rest)) :
    Yields scope (Parsing.closesBefore p) ks ks (· = p k) := by
  intro s hs
  refine ⟨_, s, run_closesBefore p, hs, rfl, ?_⟩
  rw [← hs, ahead, ← map_closingIndex?] at h
  obtain ⟨close, hclose, hbehind⟩ := Option.map_eq_some_iff.mp h
  rw [World.closes, matchingClose?, hclose]
  exact congrArg p (@kindAt_of_ahead _ { s with position := close + 1 } _ _ hbehind)

/-! ### Balanced tokens -/

/-- Whether every bracket among tokens is closed, and none closes one in front of them. -/
inductive WellBracketed : List TokenKind → Prop
  | nil : WellBracketed []
  | atom {k : TokenKind} (flat : bracket? k = none) (real : k ≠ .endOfFile) : WellBracketed [k]
  | append {ks ks' : List TokenKind} (before : WellBracketed ks) (behind : WellBracketed ks') :
    WellBracketed (ks ++ ks')
  | bracketed {o c : TokenKind} {ks : List TokenKind} (opens : bracket? o = some .opening)
      (inside : WellBracketed ks) (closes : bracket? c = some .closing) : WellBracketed (o :: (ks ++ [c]))

namespace WellBracketed
variable {k o c : TokenKind} {ks : List TokenKind}

theorem cons (flat : bracket? k = none) (real : k ≠ .endOfFile) (h : WellBracketed ks) :
    WellBracketed (k :: ks) :=
  .append (.atom flat real) h

/-- Nothing is closed among balanced tokens. -/
theorem behindClosing_append (h : WellBracketed ks) (depth : Nat) (rest : List TokenKind) :
    behindClosing (ks ++ rest) (depth + 1) = behindClosing rest (depth + 1) := by
  induction h generalizing depth rest with
  | nil => rfl
  | atom flat real => exact behindClosing_flat _ _ flat real
  | append _ _ ih ih' => rw [List.append_assoc, ih, ih']
  | bracketed opens _ closes ih =>
    rw [List.cons_append, List.append_assoc, behindClosing_opening _ _ opens, ih]
    exact behindClosing_closing_inner _ _ closes

/-- The bracket behind balanced tokens closes the one in front of them. -/
theorem behindClosing_bracketed (opens : bracket? o = some .opening) (h : WellBracketed ks)
    (closes : bracket? c = some .closing) (rest : List TokenKind) :
    behindClosing (o :: (ks ++ c :: rest)) 0 = some rest := by
  rw [behindClosing_opening _ _ opens, h.behindClosing_append, behindClosing_closing _ closes]

end WellBracketed

/-! ### Lists -/

/-- Whether the rounds of a list turn tokens into nodes with these sketches. -/
def ReadsList (source : String) (scope : Scope) (closing : Punctuation) (item : Parse Node)
    (rest ks : List TokenKind) (sketches : List Sketch) : Prop :=
  ∀ children : Array Node, Loops scope (listRound closing item) (ks ++ .punctuation closing :: rest)
    (.punctuation closing :: rest) children
    fun all => all.toList.map (·.sketch source) = children.toList.map (·.sketch source) ++ sketches

/-- Whether tokens begin an item of a list. -/
def OpensItem (closing : Punctuation) (ks : List TokenKind) : Prop :=
  ∃ k ks', ks = k :: ks' ∧ k ≠ .punctuation closing ∧ k ≠ .punctuation .comma

namespace ReadsList
variable {source : String} {scope : Scope} {closing : Punctuation} {item : Parse Node}
  {rest ks ks' : List TokenKind} {sketches sketches' : List Sketch}

theorem nil : ReadsList source scope closing item rest [] [] := by
  intro children
  refine .done (Yields.sees_self.bind fun b hb => ?_)
  subst hb
  exact .pure ⟨children, rfl, (List.append_nil _).symm⟩

theorem last (hopens : OpensItem closing ks) (hclosing : closing ≠ .comma)
    (hitem : Yields scope item (ks ++ .punctuation closing :: rest) (.punctuation closing :: rest)
      fun n => [n.sketch source] = sketches) :
    ReadsList source scope closing item rest ks sketches := by
  intro children
  obtain ⟨k, ks, rfl, hk, hcomma⟩ := hopens
  refine .done (.listRound_item hk hcomma hitem fun n hn => Yields.sees.bind fun b hb => ?_)
  rw [hb, show (TokenKind.punctuation closing).isPunctuation .comma = false from
    beq_false_of_ne (by simpa using hclosing)]
  refine .pure ⟨_, rfl, ?_⟩
  rw [Array.toList_push, List.map_append, List.map_singleton, hn]

variable (hspells : AllSpelled source scope.tokens)
  (hbehind : ReadsList source scope closing item rest ks' sketches')
include hspells hbehind

/-- A comma without an item in front of it. -/
theorem hole (hclosing : closing ≠ .comma) : ReadsList source scope closing item rest
    (.punctuation .comma :: ks') (.mark .comma :: sketches') := by
  intro children
  have hround : Yields scope (listRound closing item children)
      (.punctuation .comma :: (ks' ++ .punctuation closing :: rest)) (ks' ++ .punctuation closing :: rest)
      fun r => ∃ before : Array Node, r = .more before ∧ Loops scope (listRound closing item)
        (ks' ++ .punctuation closing :: rest) (.punctuation closing :: rest) before fun all =>
          all.toList.map (·.sketch source) =
            children.toList.map (·.sketch source) ++ .mark .comma :: sketches' := by
    refine Yields.sees.bind fun b hb => ?_
    rw [hb, show (TokenKind.punctuation .comma).isPunctuation closing = false from
      beq_false_of_ne (by simpa using hclosing.symm)]
    refine Yields.sees_self.bind fun b hb => ?_
    subst hb
    refine (Yields.bump_sketch hspells rfl).bind fun mark hmark => .pure ⟨_, rfl, ?_⟩
    have hsofar : (children.push mark).toList.map (·.sketch source) =
        children.toList.map (·.sketch source) ++ [.mark .comma] := by
      rw [Array.toList_push, List.map_append, List.map_singleton, hmark]
      rfl
    have hloops := hbehind (children.push mark)
    rwa [hsofar, List.append_assoc] at hloops
  exact .more hround (by simp)

/-- An item with a comma behind it. -/
theorem comma (hopens : OpensItem closing ks)
    (hitem : Yields scope item (ks ++ .punctuation .comma :: (ks' ++ .punctuation closing :: rest))
      (.punctuation .comma :: (ks' ++ .punctuation closing :: rest))
      fun n => [n.sketch source] = sketches) :
    ReadsList source scope closing item rest (ks ++ .punctuation .comma :: ks')
      (sketches ++ .mark .comma :: sketches') := by
  intro children
  obtain ⟨k, ks, rfl, hk, hcomma⟩ := hopens
  have hround : Yields scope (listRound closing item children)
      (k :: ks ++ .punctuation .comma :: (ks' ++ .punctuation closing :: rest))
      (ks' ++ .punctuation closing :: rest)
      fun r => ∃ before : Array Node, r = .more before ∧ Loops scope (listRound closing item)
        (ks' ++ .punctuation closing :: rest) (.punctuation closing :: rest) before fun all =>
          all.toList.map (·.sketch source) =
            children.toList.map (·.sketch source) ++ (sketches ++ .mark .comma :: sketches') := by
    refine .listRound_item hk hcomma hitem fun n hn => Yields.sees_self.bind fun b hb => ?_
    subst hb
    refine (Yields.bump_sketch hspells rfl).bind fun mark hmark => .pure ⟨_, rfl, ?_⟩
    have hsofar : ((children.push n).push mark).toList.map (·.sketch source) =
        children.toList.map (·.sketch source) ++ (sketches ++ [.mark .comma]) := by
      rw [Array.toList_push, Array.toList_push, List.map_append, List.map_append, List.map_singleton,
        List.map_singleton, hn, hmark, List.append_assoc]
      rfl
    have hloops := hbehind ((children.push n).push mark)
    rw [hsofar, List.append_assoc, List.append_assoc] at hloops
    exact hloops
  have hsplit : k :: ks ++ .punctuation .comma :: ks' ++ .punctuation closing :: rest =
      k :: ks ++ .punctuation .comma :: (ks' ++ .punctuation closing :: rest) := by simp
  rw [hsplit]
  exact .more hround (by simp; omega)

end ReadsList

/-- A list with its brackets. -/
theorem Yields.listOf_sketch {source : String} {scope : Scope} {kind : NodeKind}
    {opening closing : Punctuation} {item : Parse Node} {rest ks : List TokenKind}
    {sketches : List Sketch} (hspells : AllSpelled source scope.tokens)
    (h : ReadsList source scope closing item rest ks sketches) :
    Yields scope (listOf kind opening closing item)
      (.punctuation opening :: (ks ++ .punctuation closing :: rest)) rest
      (·.sketch source = .node kind (.mark opening :: (sketches ++ [.mark closing]))) := by
  rw [listOf_eq]
  refine (Yields.expect_sketch hspells).bind fun first hfirst => ?_
  refine (h #[first]).repeatFrom.bind fun children hchildren => ?_
  refine (Yields.expect_sketch hspells).bind fun last hlast => ?_
  refine Yields.node_sketch ?_ (by simp)
  rw [Array.toList_push, List.map_append, hchildren, List.map_singleton, List.map_singleton, hfirst,
    hlast]
  rfl

end ScriptTree.Parsing
