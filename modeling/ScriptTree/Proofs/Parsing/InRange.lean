import Mathlib
import ScriptTree.Highlight.Spans
import ScriptTree.Proofs.Parsing.Accounting
import ScriptTree.Proofs.Parsing.Geometry
import ScriptTree.Proofs.Parsing.Respected
import ScriptTree.Proofs.Parsing.Statements
import ScriptTree.Proofs.Token.Within
import ScriptTree.Proofs.Tree.Walking

/-! Nothing is looked up where there is nothing.

On the way from a source to its tree, its classified stretches and its rendered problems, tokens are
looked up by index, nodes by place and by number, and pieces of the source by offsets. `InRange` says of
each of these that what is looked up is there: no index is behind the last token or node, and no offset is
behind the end of the source or inside a character. `parse_in_range` says so of every parse.

A production over the arena that looked something up in vain would end in a fault, and then there would be
no tree; but it ends as the one with nodes does, which knows no faults (`Building.Agrees`).

For the tokens that is so because wherever among them a step begins, it goes on or stays and never passes
the end, whether it gives a value or fails, and what it reports stands among the tokens as well. The parts
of productions do so one by one, recovery included, and hence everything composed of them does
(`level_stays`). -/
namespace ScriptTree

namespace Parsing

/-! ### Inside the tokens -/

/-- Whether a span is a place among the tokens: a stretch of them, or the empty one behind some. -/
def IsPlace (tokens : Array Token) (span : Span) : Prop :=
  IsStretch tokens span ∨ ∃ i < tokens.size, span = .empty (stopBefore tokens i)

/-- Whether the cursor is at a token, the end being one, and what was reported stands among them. -/
structure State.Inside (tokens : Array Token) (s : State) : Prop where
  position : s.position < tokens.size
  problems : ∀ problem ∈ s.problems, IsPlace tokens problem.span

/-- Whether a state that is inside the tokens is followed by one that is, and is not behind it. -/
def Stays (tokens : Array Token) (s s' : State) : Prop :=
  s.Inside tokens → s.position ≤ s'.position ∧ s'.Inside tokens

/-- The parts of productions stay inside the tokens if what is parsed deeper down does. -/
theorem Sound.stays {scope : Scope} (hs : Sound scope)
    (hdeep : ∀ goal s, Leads (Stays scope.tokens) (fun _ => True) s (scope.deeper goal s)) :
    Respected scope (Stays scope.tokens) fun _ => True where
  refl s h := ⟨Nat.le_refl _, h⟩
  trans s s' s'' h h' hinside := by
    obtain ⟨hle, hinside'⟩ := h hinside
    obtain ⟨hle', hinside''⟩ := h' hinside'
    exact ⟨hle.trans hle', hinside''⟩
  advance s hreal h := ⟨Nat.le_succ _, hs.stream.succ_lt h.position hreal, h.problems⟩
  make s n h := ⟨Nat.le_refl _, h.position, h.problems⟩
  missing s mark found h := by
    refine ⟨Nat.le_refl _, h.position, fun problem hproblem => ?_⟩
    rcases Array.mem_push.mp hproblem with hproblem | rfl
    · exact h.problems problem hproblem
    · exact .inr ⟨s.position, h.position, rfl⟩
  throw _ _ _ := trivial
  deeper := hdeep
  recover s problem s' hrun h := by
    have hleads := hdeep .statement s
    rw [hrun] at hleads
    obtain ⟨hle, hinside⟩ := hleads.1 h
    have hreads := statement_reads hs (fun b hb => (Option.some.inj hb).ge) h.position
    rw [show statement scope s = .error problem s' from hrun] at hreads
    obtain ⟨_, _, _, hblames⟩ := hreads
    refine ⟨hle.trans le_resumeFrom, resumeFrom_lt hs.stream hinside.position, fun p hp => ?_⟩
    rcases Array.mem_push.mp hp with hp | rfl
    · exact hinside.problems p hp
    · exact .inl hblames.stretch

/-- At any depth, steps stay inside the tokens. -/
theorem level_stays {tokens : Array Token} (hs : IsStream tokens) (maxDepth levels : Nat) :
    Respected ⟨tokens, level tokens maxDepth levels⟩ (Stays tokens) fun _ => True :=
  level_respected (fun _ h => ⟨Nat.le_refl _, h⟩) (fun _ => trivial)
    (fun levels hdeep => (level_sound hs maxDepth levels).stays hdeep) levels

/-- What a program reports stands among its tokens. -/
theorem runProgram_inside {tokens : Array Token} (hs : IsStream tokens) (maxDepth : Nat) :
    (runProgram tokens maxDepth).2.Inside tokens := by
  have hstart : State.Inside tokens {} := ⟨hs.nonempty, fun _ hp => by simp at hp⟩
  have hleads : Leads (Stays tokens) (fun _ => True) {} (program tokens maxDepth {}) :=
    Composed.leads (m := statements false #[]) (level_stays hs maxDepth maxDepth) {}
  unfold runProgram EStateM.run
  cases hrun : program tokens maxDepth {} with
  | ok nodes s =>
    rw [hrun] at hleads
    exact (hleads hstart).2
  | error e s =>
    rw [hrun] at hleads
    exact (hleads.1 hstart).2

end Parsing

open Parsing

/-! ### What is looked up -/

/-- Whether a source can be cut wherever the lexer stands, and where it looks past the mark and the
sign of an exponent. -/
structure Scannable (source : String) (offset : Nat) : Prop where
  here : (tail? source offset).isSome
  exponent : ∀ mark sign rest, tail? source offset = some (mark :: sign :: rest) →
    mark = 'e' ∨ mark = 'E' → sign = '+' ∨ sign = '-' → tail? source (offset + 2) = some rest

/-- Whether all places are there that are looked up when a tree is made of an arena. -/
structure Building.Arena.Resolves (a : Arena) (t : Tree) : Prop where
  /-- In the renumbering no child of a node that is reached is left without a number. -/
  renumbered : ∃ order numbers, preorder? a.made a.made.size [a.root.index] #[] = some order ∧
    numbers? a.made.size order = some numbers ∧
    ∀ place, Reachable a.made a.root.index place → ∃ b, a.made[place]? = some b ∧
      ∀ child ∈ b.children, child < a.made.size ∧ ∃ number < t.nodeCount, numbers[child]? = some (some number)
  tree : a.tree? t.source = some t

/-- Whether all that is looked up for a tree is there. -/
structure InRange (source : String) (options : ParseOptions) (t : Tree) : Prop where
  /-- The lexer stands in front of a lexeme, behind part of it, or behind all of it, and can take out
  what it has read. -/
  lexemes : ∃ items, LaysOut source items ∧ ∀ p ∈ items, ∀ part, part <+: p.lexeme.text →
    Scannable source (p.start + byteLength part) ∧
      Span.slice? ⟨p.start, p.start + byteLength part⟩ source = some (String.ofList part)
  /-- A token, what is in front of it, what is behind it, and what it is taken apart into. -/
  tokens : ∀ token ∈ (lex source).tokens, token.span.LiesIn source ∧
    ∀ part ∈ token.kind.parts, (part.slice? source).isSome
  /-- The last token is the end and no other is. -/
  stream : IsStream (lex source).tokens
  /-- All productions are composed of steps, and so is a program. -/
  steps : (∀ goal, Composed (production goal)) ∧ Composed (statements false #[])
  /-- From wherever among the tokens a step of a production starts, at any depth, it does not go back
  and does not pass the end; what it reports stands among the tokens. -/
  cursor : ∀ levels {α : Type} (m : Parse α) [Composed m] (s : State),
    Leads (Stays (lex source).tokens) (fun _ => True) s
      (m ⟨(lex source).tokens, level (lex source).tokens options.maxDepth levels⟩ s)
  /-- What a production makes in the arena, it makes by steps that lead to the same states. Every place that
  it looks at or takes up is there: otherwise it would end in a fault. -/
  places : ∀ levels goal (s : State), Building.Agrees s.made.size s
    (Building.level source (lex source).tokens options.maxDepth levels goal s)
    (level (lex source).tokens options.maxDepth levels goal s)
  /-- Nor is there a fault on the way from the first token to the arena with all comments put in, and from
  there to the tree. -/
  arena : ∃ a, arena? source options = some a ∧ a.Resolves t
  kept : t.source = source
  /-- Following the links to children, a walk from the root meets the nodes there are and no others. -/
  reached : t.Walk [0] (List.range t.nodeCount)
  /-- Links lead to nodes, and back. -/
  links : ∀ id < t.nodeCount, (∀ child ∈ t.children id, child < t.nodeCount ∧
    t.parent? child = some id) ∧ ∀ parent ∈ t.parent? id, parent < t.nodeCount
  texts : ∀ id < t.nodeCount, (t.node id).span.slice? source = some (t.text id)
  highlights : ∀ h ∈ t.highlights, (h.span.slice? source).isSome
  problems : ∀ problem ∈ t.problems, problem.span.LiesIn source ∧
    problem.span.stop ≤ source.utf8ByteSize
  /-- The line that is shown with a problem. -/
  excerpts : ∀ problem ∈ t.problems, (tail? source (problem.diagnostic.lineStart source)).isSome ∧
    Span.slice? ⟨problem.diagnostic.lineStart source, problem.diagnostic.lineStart source +
      (problem.diagnostic.excerpt source).line.utf8ByteSize⟩ source =
        some (problem.diagnostic.excerpt source).line

/-! ### Lexemes -/

theorem byteLength_exponent {mark sign : Char} (hmark : mark = 'e' ∨ mark = 'E')
    (hsign : sign = '+' ∨ sign = '-') : byteLength [mark, sign] = 2 := by
  rcases hmark with rfl | rfl <;> rcases hsign with rfl | rfl <;> rfl

theorem scannable_of_split {source : String} {front back : List Char}
    (h : front ++ back = source.toList) : Scannable source (byteLength front) := by
  have htail := tail?_of_split h
  refine ⟨htail ▸ rfl, fun mark sign rest hrest hmark hsign => ?_⟩
  obtain rfl : back = mark :: sign :: rest := Option.some.inj (htail.symm.trans hrest)
  rw [← byteLength_exponent hmark hsign, ← byteLength_append]
  exact tail?_of_split (by rw [← h]; simp)

theorem Placed.StandsIn.scannable {p : Placed} {source : String} (h : p.StandsIn source)
    {part : List Char} (hpart : part <+: p.lexeme.text) :
    Scannable source (p.start + byteLength part) ∧
      Span.slice? ⟨p.start, p.start + byteLength part⟩ source = some (String.ofList part) := by
  obtain ⟨front, back, hsource, hstart⟩ := h.between
  obtain ⟨rest, htext⟩ := hpart
  have hsplit : front ++ part ++ (rest ++ back) = source.toList := by
    rw [← hsource, ← htext]
    simp
  rw [← hstart]
  refine ⟨?_, slice?_of_split hsplit⟩
  rw [← byteLength_append]
  exact scannable_of_split hsplit

/-! ### Reports -/

section Reports
variable {source : String} {maxDepth : Nat}

theorem spanAt_liesIn {i : Nat} (hi : i < (lex source).tokens.size) :
    (spanAt (lex source).tokens i).LiesIn source := by
  have hmem : tokenAt (lex source).tokens i ∈ (lex source).tokens.toList := by
    simp [tokenAt, Array.getD, hi]
  exact (token_liesIn hmem).1

/-- A place among the tokens lies in the source. -/
theorem Parsing.IsPlace.liesIn {span : Span} (h : IsPlace (lex source).tokens span) :
    span.LiesIn source := by
  rcases h with ⟨i, j, hij, hj, rfl⟩ | ⟨i, hi, rfl⟩
  · have hlast := spanAt_liesIn hj
    refine ⟨?_, (spanAt_liesIn (hij.trans_lt hj)).fits.start, hlast.fits.stop⟩
    exact ((lex_isStream source).start_le hij hj).trans hlast.forward
  · exact .empty (stopBefore_isValid hi.le)

theorem reports_liesIn {problem : Problem} (h : problem ∈ reports source maxDepth) :
    problem.span.LiesIn source := by
  rcases List.mem_append.mp h with h | h
  · exact lex_problem_liesIn h
  · exact ((runProgram_inside (lex_isStream source) maxDepth).problems problem
      (Array.mem_toList_iff.mp h)).liesIn

/-- Whatever tree a source has, its problems lie in the source. -/
theorem parse_problems_liesIn (source : String) (options : ParseOptions) :
    ∀ problem ∈ (parse source options).problems, problem.span.LiesIn source := by
  rcases parse_cases source options with h | ⟨limit, h⟩
  · rw [h]
    exact fun problem hproblem => reports_liesIn (mem_sorted.mp hproblem)
  · rw [h]
    intro problem hproblem
    rw [List.mem_singleton.mp hproblem]
    exact .empty String.Pos.Raw.isValid_zero

end Reports

/-! ### Classified stretches -/

section Highlights
variable {source : String}

/-- Joining stretches that lie in a source gives stretches that do. -/
theorem Highlight.add_liesIn {found : Array Highlight} {h : Highlight}
    (hfound : ∀ g ∈ found, g.span.LiesIn source) (hh : h.span.LiesIn source) :
    ∀ g ∈ Highlight.add found h, g.span.LiesIn source := by
  intro g hg
  unfold Highlight.add at hg
  split at hg
  · rename_i last hlast
    split at hg
    · rcases Array.mem_push.mp hg with hg | rfl
      · rw [← Array.mem_toList_iff, Array.toList_pop] at hg
        exact hfound g (Array.mem_toList_iff.mp (List.mem_of_mem_dropLast hg))
      · exact (hfound last (Array.mem_of_back? hlast)).merge hh
    · rcases Array.mem_push.mp hg with hg | rfl
      · exact hfound g hg
      · exact hh
  · rcases Array.mem_push.mp hg with hg | rfl
    · exact hfound g hg
    · exact hh

theorem Highlight.ofNode?_span {t : Tree} {id : Nat} {h : Highlight}
    (hh : Highlight.ofNode? t id = some h) : h.span = (t.node id).span := by
  unfold Highlight.ofNode? at hh
  dsimp only at hh
  split at hh
  · obtain ⟨_, _, rfl⟩ := Option.map_eq_some_iff.mp hh
    rfl
  · cases hh

/-- Where all nodes lie in the source, classified stretches do. -/
theorem highlights_liesIn {t : Tree} (hspans : ∀ id < t.nodeCount, (t.node id).span.LiesIn source) :
    ∀ h ∈ t.highlights, h.span.LiesIn source := by
  have hall : ∀ h ∈ (List.range t.nodeCount).filterMap (Highlight.ofNode? t),
      h.span.LiesIn source := by
    intro h hh
    obtain ⟨id, hid, hh⟩ := List.mem_filterMap.mp hh
    rw [Highlight.ofNode?_span hh]
    exact hspans id (List.mem_range.mp hid)
  have hfold (leaves : List Highlight) (found : Array Highlight)
      (hfound : ∀ g ∈ found, g.span.LiesIn source) (hleaves : ∀ h ∈ leaves, h.span.LiesIn source) :
      ∀ g ∈ leaves.foldl Highlight.add found, g.span.LiesIn source := by
    induction leaves generalizing found with
    | nil => exact hfound
    | cons h leaves ih =>
      obtain ⟨hh, hleaves⟩ := List.forall_mem_cons.mp hleaves
      exact ih _ (Highlight.add_liesIn hfound hh) hleaves
  exact hfold _ _ (by simp) hall

end Highlights

/-! ### Trees -/

theorem parse_source (source : String) (options : ParseOptions) :
    (parse source options).source = source := by
  rcases parse_cases source options with h | ⟨limit, h⟩ <;> rw [h] <;> rfl

/-- What can be reached in an arena has its number in the tree. -/
theorem Building.Arena.Holds.resolves {a : Arena} {root : Node} {order : List Nat} (h : a.Holds root order)
    (source : String) : a.Resolves (.ofRoot source root a.problems) := by
  have hnumbers := h.numbers source
  obtain ⟨numbers, htable, hplaced, -⟩ := numbers?_eq h.nodup h.spread.lt_size
  refine ⟨⟨order.toArray, numbers, hnumbers.found, htable, fun place hplace => ?_⟩, hnumbers.made⟩
  obtain ⟨i, hi⟩ := List.getElem?_of_mem ((hnumbers.reached place).mpr hplace)
  obtain ⟨b, hkept, -⟩ := hnumbers.nodes i place hi
  refine ⟨b, hkept, fun child hchild => ?_⟩
  have hmem : child ∈ order := (hnumbers.reached child).mpr (hplace.child hkept hchild)
  obtain ⟨number, hnumber⟩ := List.getElem?_of_mem hmem
  exact ⟨h.spread.lt_size child hmem, number,
    hnumbers.size ▸ (List.getElem?_eq_some_iff.mp hnumber).1, hplaced number child hnumber⟩

theorem parse_resolves (source : String) (options : ParseOptions) :
    ∃ a, arena? source options = some a ∧ a.Resolves (parse source options) := by
  obtain ⟨a, n, order, harena, hholds, hparse⟩ := parse_arena source options
  rw [hparse]
  exact ⟨a, harena, hholds.resolves source⟩

/-- Whatever is looked up for a parse is there. -/
theorem parse_in_range (source : String) (options : ParseOptions) :
    InRange source options (parse source options) := by
  have hgeometry := parse_geometry source options
  have hstream := lex_isStream source
  obtain ⟨hcount, hnumbered⟩ := parse_numbered source options
  have hspans : ∀ id < (parse source options).nodeCount,
      ((parse source options).node id).span.LiesIn source := fun id hid => by
    obtain ⟨hforward, _, hfits⟩ := hgeometry.span id hid
    exact ⟨hforward, hfits⟩
  refine {
    lexemes := ?_
    tokens := fun token htoken => ?_
    stream := hstream
    steps := ⟨fun _ => inferInstance, inferInstance⟩
    cursor := fun levels _ m _ s => Composed.leads (level_stays hstream options.maxDepth levels) s
    places := fun levels => (Building.level_fits (lex_stringsStand source) options.maxDepth levels).deeper
    arena := parse_resolves source options
    kept := parse_source source options
    reached := ?_
    links := fun id hid => ⟨hgeometry.parent id hid, fun parent hparent => ?_⟩
    texts := fun id hid => ?_
    highlights := fun h hh => (highlights_liesIn hspans h hh).isSome
    problems := fun problem hproblem => ?_
    excerpts := fun problem _ => problem.diagnostic.excerpt_in_range source }
  · obtain ⟨items, hitems⟩ := lex_laysOut source
    exact ⟨items, hitems, fun p hp part hpart => (hitems.each p hp).scannable hpart⟩
  · obtain ⟨hspan, hparts⟩ := token_liesIn (Array.mem_toList_iff.mpr htoken)
    exact ⟨hspan, fun part hpart => (hparts part hpart).isSome⟩
  · have hwalk := hnumbered.walk 0 hcount
    rwa [← hnumbered.root.1, ← List.range_eq_range'] at hwalk
  · rcases Nat.eq_zero_or_pos id with rfl | hpos
    · rw [hnumbered.root.2] at hparent
      cases hparent
    · obtain ⟨p, hlt, hp, _⟩ := hnumbered.parent id hpos hid
      rw [hp] at hparent
      cases hparent
      exact hlt.trans hid
  · rw [(hspans id hid).slice?_eq, Tree.text, parse_source]
  · have hlies := parse_problems_liesIn source options problem hproblem
    exact ⟨hlies, hlies.stop_le⟩

end ScriptTree
