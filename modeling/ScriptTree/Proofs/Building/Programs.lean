import Mathlib
import ScriptTree.Proofs.Building.Numbering
import ScriptTree.Proofs.Building.Productions
import ScriptTree.Proofs.Parsing.Statements
import ScriptTree.Proofs.Token.Strings

/-! The tree that is made of the arena.

The strings of a source have their quotes where the lexer says (`lex_stringsStand`), so the productions
over the arena do what those with nodes do. What they have made ends with the root and the comments, each
at a place of its own (`program_spread`); so the arena holds the nodes with the comments put in
(`ofLexed?_holds`), the tree is theirs, and nothing is looked up on the way that is not there. -/
namespace ScriptTree

open Parsing

theorem lex_stringsStand (source : String) : Building.StringsStand source (lex source).tokens := by
  refine ⟨fun i quote parts hkind => ?_⟩
  have hreal : kindAt (lex source).tokens i ≠ .endOfFile := by
    rw [hkind]
    nofun
  have hmem : tokenAt (lex source).tokens i ∈ (lex source).tokens.toList := by
    simp [tokenAt, Array.getD_eq_getD_getElem?, lt_size_of_real hreal]
  have hquoted : Quoted source (spanAt (lex source).tokens i) quote parts := lex_strings hmem hkind
  have hwithin : (spanAt (lex source).tokens i).Fits source := (token_liesIn hmem).1.fits
  refine ⟨String.Pos.Raw.isValid_eq_true_iff.mpr hwithin.start,
    String.Pos.Raw.isValid_eq_true_iff.mpr hwithin.stop, lex_quotes hmem hkind, hquoted.opening, ?_⟩
  by_cases hreported : ⟨.unterminatedString, spanAt (lex source).tokens i⟩ ∈ (lex source).problems.toList
  · exact .inl (hquoted.ended hreported).1.getLast_stop
  · obtain ⟨hfills, hclosing⟩ := hquoted.closed hreported
    have hle := hfills.le
    refine .inr ⟨?_, hclosing⟩
    rw [contentStop, hfills.getLast_stop]
    omega

namespace Building
variable {source : String} {tokens : Array Token} {maxDepth : Nat}

/-- A scope over the arena on the highest level. -/
def top (source : String) (tokens : Array Token) (maxDepth : Nat) : Scope :=
  ⟨source, tokens, level source tokens maxDepth maxDepth⟩

/-- The statements stand in the arena that they have been made in. -/
theorem statements_stand (hs : IsStream tokens) (h : StringsStand source tokens) (maxDepth : Nat) :
    ∃ children, statements false #[] (top source tokens maxDepth) {} =
        .ok children (runProgram tokens maxDepth).2 ∧
      Stand (runProgram tokens maxDepth).2.made 0 (runProgram tokens maxDepth).2.made.size children
        (runProgram tokens maxDepth).1 := by
  have hfollows : Follows .nothing (statements false #[]) (Parsing.statements false #[]) := inferInstance
  have hagrees := hfollows.follows _ _ (level_fits h maxDepth maxDepth) 0 {} rfl
  rw [runProgram_ok hs maxDepth] at hagrees
  rw [top]
  generalize statements false #[] _ _ = result at hagrees
  cases hagrees with
  | ok _ stand => exact ⟨_, rfl, stand⟩

/-- Statements that stand in an arena get a root behind them, and nothing else is there but primary
expressions whose content was taken out. -/
theorem root_stands {s : State} {children : Array Child} {nodes : Array Node} {scope : Scope}
    (h : Stand s.made 0 s.made.size children nodes) : let n := rootNode scope.source.utf8ByteSize nodes.toList
    root children scope s = .ok ⟨s.made.size⟩ { s with made := keep s.made n } ∧
      ∃ order, Spread (keep s.made n) [s.made.size] [n] order ∧ order.Nodup ∧
        (∀ i ∈ order, i < (keep s.made n).size) ∧
        ∀ i < (keep s.made n).size, i ∈ order ∨ IsWrapper (keep s.made n) i := by
  intro n
  have hnodes : n.children = _ := h.map_snd.symm
  have hgrove : Grove (keep s.made n) 0 (keep s.made n).size [s.made.size] [n] :=
    (h.stack.pending_keep hnodes rfl nofun).stands.grove ⟨_, h.stack.kept_keep hnodes, rfl⟩ .nil
  obtain ⟨order, hspread, hnodup, hwithin, hleft⟩ := hgrove.spread
  exact ⟨nodeWithSpan_eq h.stack h.map_fst.symm (by rw [h.map_snd]; rfl), order, hspread, hnodup,
    fun i hi => (hwithin i hi).2, fun i hi => hleft i (Nat.zero_le i) hi⟩

/-! ### Comments -/

/-- What is kept of a comment. -/
def builtComment (c : Comment) : Built :=
  ⟨(commentNode c).symbol, c.span, none, false, true, []⟩

theorem comment_eq (c : Comment) (scope : Scope) (s : State) : comment c scope s =
    .ok ⟨s.made.size⟩ { s with made := s.made.push (builtComment c) } := by
  rcases c with ⟨kind, span⟩
  cases kind <;> rfl

/-- Comments are kept behind all that has been made. -/
theorem comments_eq (comments : List Comment) (scope : Scope) (s : State) :
    comments.mapM comment scope s = .ok ((List.range' s.made.size comments.length).map NodeId.mk)
      { s with made := s.made ++ (comments.map builtComment).toArray } := by
  induction comments generalizing s with
  | nil =>
    rw [List.map_nil, Array.append_empty]
    rfl
  | cons c comments ih =>
    have hmade : s.made.push (builtComment c) ++ (comments.map builtComment).toArray =
        s.made ++ ((c :: comments).map builtComment).toArray :=
      Array.toList_inj.mp (by simp)
    rw [List.mapM_cons, run_bind_ok (comment_eq c scope s), run_bind_ok (ih _), hmade, Array.size_push]
    rfl

theorem shows_builtComment (c : Comment) : (builtComment c).Shows (commentNode c) := by
  rcases c with ⟨kind, span⟩
  cases kind <;> exact ⟨rfl, rfl, rfl, rfl⟩

/-- Comments that are kept behind something else stand there. -/
theorem comments_spread (made : Array Built) (comments : List Comment) :
    List.Forall₂ (fun extra n => Spread (made ++ (comments.map builtComment).toArray) [extra.index] [n]
      [extra.index]) ((List.range' made.size comments.length).map NodeId.mk) (comments.map commentNode) := by
  rw [List.forall₂_iff_get]
  refine ⟨by simp, fun i _ hi => ?_⟩
  rw [List.length_map] at hi
  have hkept : (made ++ (comments.map builtComment).toArray)[made.size + i]? =
      some (builtComment comments[i]) := by
    rw [Array.getElem?_append_right (Nat.le_add_right _ _), Nat.add_sub_cancel_left, List.getElem?_toArray,
      List.getElem?_map, List.getElem?_eq_getElem hi]
    rfl
  simp only [List.get_eq_getElem, List.getElem_map, List.getElem_range', Nat.one_mul]
  obtain ⟨hfield, hnone⟩ : (commentNode comments[i]).field = none ∧ (commentNode comments[i]).children = [] := by
    unfold commentNode
    split <;> exact ⟨rfl, rfl⟩
  exact .of_kept hkept (shows_builtComment _) hfield.symm (hnone ▸ .nil)

/-! ### Programs -/

/-- The root of a program and its comments stand in the arena, each at a place of its own, and nothing else
does but primary expressions whose content was taken out. -/
theorem program_spread (hs : IsStream tokens) (h : StringsStand source tokens) (maxDepth : Nat)
    (comments : Array Comment) : ∃ id extras s order,
      program comments (top source tokens maxDepth) {} = .ok (id, extras) s ∧
      s.problems = (runProgram tokens maxDepth).2.problems ∧
      Spread s.made [id.index]
        [rootNode source.utf8ByteSize (runProgram tokens maxDepth).1.toList] order ∧
      (extras.map NodeId.index ++ order).Nodup ∧
      List.Forall₂ (fun extra n => Spread s.made [extra.index] [n] [extra.index]) extras
        (comments.toList.map commentNode) ∧
      ∀ i < s.made.size, i ∈ extras.map NodeId.index ++ order ∨ IsWrapper s.made i := by
  obtain ⟨children, hstatements, hstand⟩ := statements_stand hs h maxDepth
  generalize (runProgram tokens maxDepth).1 = nodes at *
  generalize (runProgram tokens maxDepth).2 = s at *
  obtain ⟨hroot, order, hspread, hnodup, hwithin, hleft⟩ :=
    @root_stands s children nodes (top source tokens maxDepth) hstand
  generalize keep s.made _ = made at *
  have hfront {i : Nat} (hi : i < made.size) :
      (made ++ (comments.toList.map builtComment).toArray)[i]? = made[i]? :=
    Array.getElem?_append_left hi
  refine ⟨⟨s.made.size⟩, (List.range' made.size comments.toList.length).map NodeId.mk,
    { s with made := made ++ (comments.toList.map builtComment).toArray }, order, ?_, rfl,
    hspread.congr fun i hi => hfront (hwithin i hi), ?_, comments_spread _ _, ?_⟩
  · rw [program, run_bind_ok hstatements, run_bind_ok hroot, run_bind_ok (comments_eq _ _ _)]
    rfl
  all_goals rw [List.map_map, show NodeId.index ∘ NodeId.mk = id from rfl, List.map_id]
  · rw [List.nodup_append]
    refine ⟨List.nodup_range', hnodup, fun i hi j hj heq => ?_⟩
    have := (List.mem_range'_1.mp hi).1
    have := hwithin j hj
    omega
  · intro i hi
    rw [List.mem_append, List.mem_range'_1]
    rcases Nat.lt_or_ge i made.size with hlt | hge
    · rcases hleft i hlt with hmem | hwrapper
      · exact .inl (.inr hmem)
      · exact .inr (by rwa [IsWrapper, hfront hlt])
    · refine .inl (.inl ⟨hge, ?_⟩)
      simpa using hi

/-! ### Arenas -/

theorem Arena.Holds.treeOf_eq {a : Arena} {root : Node} {order : List Nat} (h : a.Holds root order)
    (source : String) : treeOf source (some a) = .ofRoot source root a.problems := by
  rw [treeOf, Option.bind_some, h.tree?_eq, Option.getD_some]

/-- The arena of a source holds its statements with the comments put in. -/
theorem ofLexed?_holds {lexed : Lexed} (hs : IsStream lexed.tokens) (h : StringsStand source lexed.tokens)
    (maxDepth : Nat) : ∃ a order, ofLexed? source lexed maxDepth = some a ∧
      a.Holds ((rootNode source.utf8ByteSize (runProgram lexed.tokens maxDepth).1.toList).attachAll
        (lexed.comments.toList.map commentNode)) order ∧
      a.problems = (sorted (lexed.problems ++ (runProgram lexed.tokens maxDepth).2.problems).toList) := by
  obtain ⟨id, extras, s, order, hrun, hproblems, hspread, hnodup, hcomments, hleft⟩ :=
    program_spread hs h maxDepth lexed.comments
  obtain ⟨made, order', hattach, hspread', hperm, hsize, hwrappers⟩ :=
    hspread.attachAll hnodup hcomments fun _ _ => rfl
  rw [top] at hrun
  refine ⟨⟨made, id, _⟩, order', ?_, ⟨hspread', hperm.nodup_iff.mpr hnodup, fun i hi => ?_⟩, rfl⟩
  · simp only [ofLexed?, run?, hrun, hattach, hproblems, Option.bind_eq_bind, Option.bind_some]
    rfl
  · exact (hleft i (hsize ▸ hi)).imp hperm.mem_iff.mpr (hwrappers i)

/-- The arena of a source that is refused holds a root without children. -/
theorem refused?_holds (source : String) (limit : Nat) : ∃ a order, refused? source limit = some a ∧
    a.Holds (rootNode source.utf8ByteSize []) order ∧
    a.problems = [⟨.tooLong source.utf8ByteSize limit, .empty 0⟩] := by
  let n := rootNode source.utf8ByteSize []
  have hroot : root #[] ⟨source, #[], fun _ s => .error .outOfRange s⟩ {} =
      .ok ⟨0⟩ { made := keep #[] n } :=
    @nodeWithSpan_eq _ {} 0 [] .program ⟨0, source.utf8ByteSize⟩ #[] n .nil rfl rfl
  have hspread : Spread (keep #[] n) [0] [n] [0] :=
    .of_kept (Stack.nil.kept_keep rfl) ⟨rfl, rfl, rfl, rfl⟩ rfl .nil
  refine ⟨⟨keep #[] n, ⟨0⟩, _⟩, [0], ?_, ⟨hspread, List.nodup_singleton 0, fun i hi => ?_⟩, rfl⟩
  · rw [refused?, run?, run_bind_ok hroot]
    rfl
  · obtain rfl : i = 0 := Nat.lt_one_iff.mp hi
    exact .inl List.mem_cons_self

/-- The tree of a source is that of its statements with the comments put in. -/
theorem ofLexed_eq {lexed : Lexed} (hs : IsStream lexed.tokens) (h : StringsStand source lexed.tokens)
    (maxDepth : Nat) : ofLexed source lexed maxDepth = .ofRoot source
      ((rootNode source.utf8ByteSize (runProgram lexed.tokens maxDepth).1.toList).attachAll
        (lexed.comments.toList.map commentNode))
      (sorted (lexed.problems ++ (runProgram lexed.tokens maxDepth).2.problems).toList) := by
  obtain ⟨a, order, harena, hholds, hproblems⟩ := ofLexed?_holds hs h maxDepth
  rw [ofLexed, harena, ← hproblems]
  exact hholds.treeOf_eq source

end Building

end ScriptTree
