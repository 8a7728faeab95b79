import Mathlib
import ScriptTree.Proofs.Completion.Sources
import ScriptTree.Proofs.Parsing.Accounting
import ScriptTree.Proofs.Parsing.Grouping

/-! Sources that lack nothing any more.

Where nothing is amiss in a source but marks that are not there, `completed` puts all of them in. The
source that comes of it is parsed without a report, and to the same tree, with tokens in the place of the
marks that were made up (`parse_completed`).

The marks are reported in the order of their places (`Forest.ordered`), so they may be put in one after
another, from the first one on (`edited_insertion`, `completes_edited`). Where nothing is reported, no
node is made up, and a mark that is not made up is a token (`Forest.closing_read`). -/
namespace ScriptTree

open Parsing

/-! ### One edit after another -/

def Edit.relocate (place : Nat → Nat) (e : Edit) : Edit := { e with span := e.span.relocate place }

/-- Edits of a text that begins a byte later. -/
theorem applyEdits_succ (start : Nat) (cs : List Char) (edits : List Edit) :
    applyEdits (start + 1) cs (edits.map (Edit.relocate Nat.succ)) = applyEdits start cs edits := by
  induction edits generalizing start cs with
  | nil => rfl
  | cons e edits ih =>
    rw [List.map_cons, applyEdits, applyEdits]
    simp only [Edit.relocate, Span.relocate, Nat.succ_eq_add_one, Nat.add_sub_add_right]
    rw [ih]

/-- A mark may be put in before the other edits are made. -/
theorem edited_insertion {source : String} {mark : Punctuation} {offset : Nat} {edits : List Edit}
    (hmark : Lexeme.isCloser mark = true) (hvalid : (⟨offset⟩ : String.Pos.Raw).IsValid source)
    (hedits : ∀ e ∈ edits.head?, offset ≤ e.span.start ∧ e.span.start ≤ e.span.stop) :
    edited (edited source [insertion mark offset]) (edits.map (Edit.relocate Nat.succ)) =
      edited source (insertion mark offset :: edits) := by
  obtain ⟨a, b, hsplit, rfl⟩ := exists_split_of_isValid hvalid
  obtain ⟨c, hspelling, _, hwidth, _⟩ := Lexeme.first_closer hmark
  have hlength : byteLength (a ++ mark.spelling.toList) = byteLength a + 1 := by
    rw [byteLength_append, hspelling, byteLength_cons, hwidth]
    rfl
  have hboth : applyEdits 0 source.toList (insertion mark (byteLength a) :: edits) =
      a ++ (mark.spelling.toList ++ applyEdits (byteLength a) b edits) := by
    rw [← hsplit, applyEdits_gap, Nat.zero_add]
    · exact congrArg (a ++ ·) (@applyEdits_here (byteLength a) [] b edits mark.spelling.toList)
    · rintro _ ⟨⟩
      exact ⟨(Nat.zero_add _).le, le_rfl⟩
  rw [edited, toList_insertion hsplit, ← List.append_assoc, applyEdits_gap, Nat.zero_add, hlength,
    applyEdits_succ, edited, hboth, List.append_assoc]
  intro e he
  rw [List.head?_map, Option.mem_map] at he
  obtain ⟨e, he, rfl⟩ := he
  obtain ⟨hstart, hstop⟩ := hedits e he
  rw [Nat.zero_add, hlength]
  exact ⟨Nat.succ_le_succ hstart, Nat.succ_le_succ hstop⟩

theorem Problem.mark?_relocate (place : Nat → Nat) (p : Problem) :
    (p.relocate place).mark? = p.mark?.map (Edit.relocate place) := by
  rw [mark?, mark?, relocate]
  cases p.cause <;> rfl

/-! ### The order of reports -/

/-- Marks that were made up are reported in the order of their places. -/
theorem Parsing.Forest.ordered {tokens : Array Token} {p q : Nat} {ps : List Problem} {ns : List Node}
    (hs : IsStream tokens) (h : Forest tokens p q ps ns) (only : OnlyMissing ps) (hq : q < tokens.size) :
    (∀ problem ∈ ps, stopBefore tokens p ≤ problem.span.start ∧
      problem.span.start ≤ stopBefore tokens q) ∧
      ps.Pairwise fun problem problem' => problem.span.start ≤ problem'.span.start := by
  have hmono {i j : Nat} (hij : i ≤ j) (hj : j < tokens.size) : stopBefore tokens i ≤ stopBefore tokens j := by
    rcases hij.lt_or_eq with hlt | rfl
    · exact (hs.stopBefore_lt hlt hj).le
    · exact le_rfl
  induction h with
  | nil => exact ⟨List.forall_mem_nil _, .nil⟩
  | token _ _ rest ih | signed _ _ _ _ _ rest ih | literal _ _ rest ih =>
    obtain ⟨hplaces, hpairs⟩ := ih only hq
    refine ⟨fun problem hproblem => ⟨?_, (hplaces problem hproblem).2⟩, hpairs⟩
    exact (hmono (by omega) (rest.le.trans_lt hq)).trans (hplaces problem hproblem).1
  | absent _ _ rest ih =>
    obtain ⟨hplaces, hpairs⟩ := ih (List.forall_mem_cons.mp only).2 hq
    exact ⟨List.forall_mem_cons.mpr ⟨⟨le_rfl, hmono rest.le hq⟩, hplaces⟩,
      .cons (fun problem hproblem => (hplaces problem hproblem).1) hpairs⟩
  | inner _ children _ _ _ rest ihc ih =>
    obtain ⟨onlyChildren, onlyRest⟩ := onlyMissing_append.mp only
    have hm := rest.le.trans_lt hq
    obtain ⟨hplaces, hpairs⟩ := ihc onlyChildren hm
    obtain ⟨hplaces', hpairs'⟩ := ih onlyRest hq
    refine ⟨List.forall_mem_append.mpr ⟨fun problem hproblem => ?_, fun problem hproblem => ?_⟩,
      List.pairwise_append.mpr ⟨hpairs, hpairs', fun problem hproblem problem' hproblem' => ?_⟩⟩
    · exact ⟨(hplaces problem hproblem).1, (hplaces problem hproblem).2.trans (hmono rest.le hq)⟩
    · exact ⟨(hmono children.le hm).trans (hplaces' problem hproblem).1, (hplaces' problem hproblem).2⟩
    · exact (hplaces problem hproblem).2.trans (hplaces' problem' hproblem').1
  | damage _ _ _ explains => exact absurd only explains.not_onlyMissing

section Sources
variable {source : String} {maxDepth : Nat}

theorem reports_ordered (only : OnlyMissing (reports source maxDepth)) :
    (reports source maxDepth).Pairwise fun problem problem' =>
      problem.span.start ≤ problem'.span.start := by
  have hs := lex_isStream source
  have hsize := hs.nonempty
  obtain ⟨_, hparser⟩ := clean_of_onlyMissing only
  rw [hparser] at only ⊢
  exact ((bareRoot_forest source maxDepth).1.ordered hs only (by omega)).2

theorem sorted_reports (only : OnlyMissing (reports source maxDepth)) :
    sorted (reports source maxDepth) = reports source maxDepth :=
  List.mergeSort_of_pairwise ((reports_ordered only).imp decide_eq_true)

/-! ### All marks put in -/

/-- With all marks put in, nothing is reported, and the tree is the same but for them. -/
theorem completes_edited (only : OnlyMissing (reports source maxDepth)) :
    let source' := edited source ((reports source maxDepth).filterMap Problem.mark?)
    reports source' maxDepth = [] ∧
      Completes (fun _ _ => True) (dressedRoot source maxDepth) (dressedRoot source' maxDepth) := by
  induction hlength : (reports source maxDepth).length generalizing source with
  | zero =>
    have hnone : reports source maxDepth = [] := List.length_eq_zero_iff.mp hlength
    have hsame : edited source ((reports source maxDepth).filterMap Problem.mark?) = source := by
      rw [hnone]
      exact String.ofList_toList
    rw [hsame]
    exact ⟨hnone, .refl_of (fun _ => trivial) _⟩
  | succ n ih =>
    obtain ⟨first, later, hreports⟩ := List.exists_cons_of_length_eq_add_one hlength
    have hordered := reports_ordered only
    obtain ⟨mark, offset, hmark, hspan, hcloser, hvalid, hcompletes, hlater⟩ :=
      completes_insertion only hreports
    rw [hreports] at only
    rw [hreports, List.pairwise_cons, hspan] at hordered
    have honly : OnlyMissing (reports (edited source [insertion mark offset]) maxDepth) := by
      rw [hlater]
      exact List.forall_mem_map.mpr (List.forall_mem_cons.mp only).2
    obtain ⟨hnone, hrest⟩ := ih honly (by rw [hlater, List.length_map]; simpa [hreports] using hlength)
    have hedits : ∀ e ∈ (later.filterMap Problem.mark?).head?,
        offset ≤ e.span.start ∧ e.span.start ≤ e.span.stop := by
      intro e he
      obtain ⟨p, hp, he⟩ := List.mem_filterMap.mp (List.mem_of_mem_head? he)
      have hplace := hordered.1 p hp
      unfold Problem.mark? at he
      split at he <;> cases he
      exact ⟨hplace, le_rfl⟩
    have hall : edited (edited source [insertion mark offset])
        ((reports (edited source [insertion mark offset]) maxDepth).filterMap Problem.mark?) =
          edited source ((reports source maxDepth).filterMap Problem.mark?) := by
      rw [hreports, List.filterMap_cons_some hmark, ← edited_insertion hcloser hvalid hedits, hlater,
        List.filterMap_map, List.map_filterMap]
      exact congrArg (fun f => edited _ (later.filterMap f))
        (funext fun p => Problem.mark?_relocate Nat.succ p)
    rw [hall] at hnone hrest
    exact ⟨hnone, hcompletes.trans_of (fun _ _ _ _ _ => trivial) hrest⟩

/-! ### Tokens in the place of marks -/

/-- A closing mark that is not made up is a token. -/
theorem Parsing.Forest.closing_read {tokens : Array Token} {p q : Nat} {ps : List Problem} {ns : List Node}
    (hs : IsStream tokens) (h : Forest tokens p q ps ns) {m : Node} (hm : m ∈ Node.preorderAll ns)
    (hclosing : IsClosing m) (hpresent : m.missing = false) :
    m.children = [] ∧ ∃ i mark, m.symbol = .punctuation mark ∧ kindAt tokens i = .punctuation mark ∧
      m.span = spanAt tokens i := by
  obtain ⟨mark, hsymbol⟩ : ∃ mark, m.symbol = .punctuation mark := hclosing.elim (⟨_, ·⟩) (⟨_, ·⟩)
  induction h with
  | nil => cases hm
  | token _ reads _ ih =>
    rcases Node.mem_preorderAll_cons.mp hm with rfl | hbelow | hrest
    · refine ⟨rfl, _, mark, hsymbol, kind_of_readsAs ?_, rfl⟩
      rwa [← hsymbol]
    · cases hbelow
    · exact ih hrest
  | signed _ _ _ _ _ _ ih =>
    rcases Node.mem_preorderAll_cons.mp hm with rfl | hbelow | hrest
    · cases hsymbol
    · cases hbelow
    · exact ih hrest
  | literal _ made _ ih =>
    rcases Node.mem_preorderAll_cons.mp hm with rfl | hbelow | hrest
    · obtain ⟨kind, _, hnode⟩ := literal_kind made
      cases hnode.symm.trans hsymbol
    · -- What closes a string or a regular expression is another mark.
      rw [Node.mem_preorderAll_leaves fun n hn => (literal_leaves made n hn).1] at hbelow
      obtain ⟨kind, hkind, hnode⟩ := literal_kind made
      obtain ⟨item, hitem, hrole⟩ := (hs.matched _ _ made).role_mem m hbelow
      rw [hnode] at hitem
      obtain ⟨_, hsemicolon, hbrace⟩ := literal_roles kind hkind item hitem _ hrole
      exact absurd hclosing (not_or.mpr ⟨hsemicolon, hbrace⟩)
    · exact ih hrest
  | absent _ _ _ ih =>
    rcases Node.mem_preorderAll_cons.mp hm with rfl | hbelow | hrest
    · cases hpresent
    · cases hbelow
    · exact ih hrest
  | inner _ _ _ _ _ _ ihc ih =>
    rcases Node.mem_preorderAll_cons.mp hm with rfl | hbelow | hrest
    · cases hsymbol
    · exact ihc hbelow
    · exact ih hrest
  | @damage p stop _ _ _ _ _ _ _ _ _ _ ih =>
    rcases Node.mem_preorderAll_cons.mp hm with rfl | hbelow | hrest
    · cases hsymbol
    · have hleaves : ∀ n ∈ (damageOver tokens p stop).children, n.children = [] := fun n hn => by
        obtain ⟨token, _, rfl⟩ := List.mem_map.mp hn
        rfl
      obtain ⟨token, htoken, rfl⟩ := List.mem_map.mp ((Node.mem_preorderAll_leaves hleaves).mp hbelow)
      obtain ⟨i, _, _, rfl⟩ := mem_extract htoken
      exact ⟨rfl, i, mark, hsymbol, eq_of_symbolOf hsymbol, rfl⟩
    · exact ih hrest

/-- Where the lexer reports nothing, only closing marks are made up. -/
theorem closing_of_missing (clean : (lex source).problems = #[]) {m : Node}
    (hm : m ∈ Node.preorderAll (dressedRoot source maxDepth).children) (hmissing : m.missing = true) :
    IsClosing m := by
  by_contra hopen
  obtain ⟨id, parent, hsits, _⟩ : ∃ id parent, Sits (dressedRoot source maxDepth) id parent m ∧
      (Tree.ofRoot source (dressedRoot source maxDepth) []).Below 0 id :=
    Sits.root.exists_below (by rw [Node.preorder_eq]; exact List.mem_cons_of_mem _ hm)
  obtain ⟨_, _, _, _, _, hunended⟩ := hsits.unended hmissing hopen
  rw [clean] at hunended
  rcases hunended with ⟨_, hproblem⟩ | ⟨_, hproblem⟩ <;> cases hproblem

/-- Where nothing is reported, nothing is made up. -/
theorem present_of_reports (hnone : reports source maxDepth = []) {m : Node}
    (hm : m ∈ Node.preorderAll (dressedRoot source maxDepth).children) : m.missing = false := by
  by_contra hmissing
  have hmissing := Bool.eq_true_of_not_eq_false hmissing
  have only : OnlyMissing (reports source maxDepth) := by
    rw [hnone]
    exact List.forall_mem_nil _
  have clean := (clean_of_onlyMissing only).1
  obtain ⟨problems, hreports, hsub⟩ := dressed_reported source maxDepth
  rw [hnone, sorted, List.mergeSort_nil, List.subperm_nil] at hsub
  rw [hsub, List.forall₂_nil_right_iff] at hreports
  have hmark : m ∈ marksAll (dressedRoot source maxDepth).children :=
    List.mem_filter.mpr ⟨hm, isMark_of_closing hmissing (closing_of_missing clean hm hmissing)⟩
  rw [hreports] at hmark
  cases hmark

/-- A closing mark of the tree that is not made up is a token of the source. -/
theorem closing_read {m : Node} (hm : m ∈ Node.preorderAll (dressedRoot source maxDepth).children)
    (hclosing : IsClosing m) (hpresent : m.missing = false) :
    m.children = [] ∧ ∃ t ∈ (lex source).tokens.toList, ∃ mark, m.symbol = .punctuation mark ∧
      t.kind = .punctuation mark ∧ m.span = t.span := by
  rcases dressed_cases hm with ⟨c, _, rfl⟩ | ⟨_, hbare⟩
  · have hopen : ¬IsClosing (commentNode c) := by
      rw [commentNode]
      cases c.kind <;> exact not_or.mpr ⟨by rintro ⟨⟩, by rintro ⟨⟩⟩
    exact absurd hclosing hopen
  have hstrip := Node.strip_eq m
  obtain ⟨hleaf, i, mark, hsymbol, hkind, hspan⟩ := (bareRoot_forest source maxDepth).1.closing_read
    (lex_isStream source) hbare (by rw [hstrip]; exact hclosing) (by rw [hstrip]; exact hpresent)
  rw [hstrip] at hsymbol hspan
  have hi : i < (lex source).tokens.size := lt_size_of_real (by simp [hkind])
  refine ⟨(dressed_framed hm).children_of_strip hleaf, tokenAt (lex source).tokens i, ?_, mark, hsymbol,
    hkind, hspan⟩
  rw [tokenAt, Array.getD, dif_pos hi]
  exact Array.getElem_mem_toList hi

end Sources

/-! ### Fulfilled trees -/

/-- Whether a node of `source` is what becomes of another one when the marks that were made up are put in:
the same in all but its place, and a token where the other one was made up. -/
inductive Fulfilled (source : String) : Node → Node → Prop
  | intro {n n'} (symbol : n'.symbol = n.symbol) (field : n'.field = n.field)
      (extra : n'.extra = n.extra) (present : n'.missing = false)
      (supplied : n.missing = true → n'.children = [] ∧ ∃ t ∈ (lex source).tokens.toList,
        ∃ mark, n.symbol = .punctuation mark ∧ t.kind = .punctuation mark ∧ n'.span = t.span)
      (children : List.Forall₂ (Fulfilled source) n.children n'.children) : Fulfilled source n n'

theorem Fulfilled.of_completes {source : String} {R : Nat → Nat → Prop} {ns ns' : List Node}
    (h : List.Forall₂ (Completes R) ns ns')
    (hclosing : ∀ m ∈ Node.preorderAll ns, m.missing = true → IsClosing m)
    (hpresent : ∀ m ∈ Node.preorderAll ns', m.missing = false)
    (hread : ∀ m ∈ Node.preorderAll ns', IsClosing m → m.children = [] ∧
      ∃ t ∈ (lex source).tokens.toList, ∃ mark, m.symbol = .punctuation mark ∧
        t.kind = .punctuation mark ∧ m.span = t.span) :
    List.Forall₂ (Fulfilled source) ns ns' := by
  induction ns using Node.forest_induction generalizing ns' with
  | nil =>
    cases h
    exact .nil
  | cons n ns ihn ih =>
    cases h with
    | cons hn h =>
    rw [Node.forall_preorderAll_cons] at hclosing hpresent hread
    refine .cons ⟨hn.symbol.symm, hn.field.symm, hn.extra.symm, hpresent.1, fun hmissing => ?_,
      ihn hn.children hclosing.2.1 hpresent.2.1 hread.2.1⟩ (ih h hclosing.2.2 hpresent.2.2 hread.2.2)
    have hclosed : IsClosing n := hclosing.1 hmissing
    rw [IsClosing, hn.symbol] at hclosed
    rw [hn.symbol]
    exact hread.1 hclosed

/-- The source with the marks that are missing put in where they are reported. -/
def completed (source : String) (maxDepth : Nat) : String :=
  edited source ((parse source { maxDepth }).problems.filterMap Problem.mark?)

section Completed
variable {source : String} {maxDepth : Nat}

theorem parse_unbounded : parse source { maxDepth } =
    .ofRoot source (dressedRoot source maxDepth) (sorted (reports source maxDepth)) :=
  parse_eq (by simp)

theorem problems_eq : (parse source { maxDepth }).problems = sorted (reports source maxDepth) := by
  rw [parse_unbounded]
  rfl

theorem onlyMissing_iff : OnlyMissing (parse source { maxDepth }).problems ↔
    OnlyMissing (reports source maxDepth) := by
  simp only [OnlyMissing, problems_eq, mem_sorted]

theorem completed_eq (only : OnlyMissing (reports source maxDepth)) :
    completed source maxDepth = edited source ((reports source maxDepth).filterMap Problem.mark?) := by
  rw [completed, problems_eq, sorted_reports only]

/-- The root is no mark. -/
theorem dressedRoot_open (source : String) (maxDepth : Nat) :
    (dressedRoot source maxDepth).missing = false ∧ ¬IsClosing (dressedRoot source maxDepth) := by
  obtain ⟨_, hsame⟩ := (dressedRoot_dressed source maxDepth).same
  rw [hsame]
  exact ⟨rfl, not_or.mpr ⟨nofun, nofun⟩⟩

/-- With all marks put in, the tree is fulfilled. -/
theorem fulfilled_completed (only : OnlyMissing (reports source maxDepth)) :
    Fulfilled (completed source maxDepth) (dressedRoot source maxDepth)
      (dressedRoot (completed source maxDepth) maxDepth) := by
  obtain ⟨clean, _⟩ := clean_of_onlyMissing only
  obtain ⟨hnone, hcompletes⟩ := completes_edited only
  rw [← completed_eq only] at hnone hcompletes
  have hmissing : ∀ m ∈ Node.preorderAll [dressedRoot source maxDepth], m.missing = true → IsClosing m := by
    refine Node.forall_preorderAll_cons.mpr ⟨fun hroot => ?_, fun m hm => closing_of_missing clean hm, nofun⟩
    rw [(dressedRoot_open source maxDepth).1] at hroot
    cases hroot
  have hall := Fulfilled.of_completes (.cons hcompletes .nil) hmissing
    (Node.forall_preorderAll_cons.mpr ⟨(dressedRoot_open _ _).1, fun m hm => present_of_reports hnone hm,
      nofun⟩)
    (Node.forall_preorderAll_cons.mpr ⟨fun hclosing => absurd hclosing (dressedRoot_open _ _).2,
      fun m hm hclosing => closing_read hm hclosing (present_of_reports hnone hm), nofun⟩)
  exact (List.forall₂_cons.mp hall).1

end Completed

/-- A source in which nothing is amiss but missing marks parses without a report once they are put in, and
to the same tree, with tokens in the place of the marks. -/
theorem parse_completed (source : String) (maxDepth : Nat)
    (only : ∀ p ∈ (parse source { maxDepth }).problems, p.cause.kind = .missing) :
    (parse (completed source maxDepth) { maxDepth }).problems = [] ∧
      Fulfilled (completed source maxDepth) ((parse source { maxDepth }).node 0)
        ((parse (completed source maxDepth) { maxDepth }).node 0) := by
  have only := onlyMissing_iff.mp only
  constructor
  · rw [problems_eq, completed_eq only, (completes_edited only).1, sorted, List.mergeSort_nil]
  · rw [parse_unbounded, parse_unbounded, Sits.root.node_eq, Sits.root.node_eq]
    exact fulfilled_completed only

/-- A semicolon is missing, and at the end of the source another one and a brace. -/
theorem parse_completed_unclosed :
    (∀ p ∈ (parse "let a = 1\n\x7b let b = 2 // c" { maxDepth := 8 }).problems, p.cause.kind = .missing) ∧
      completed "let a = 1\n\x7b let b = 2 // c" 8 = "let a = 1;\n\x7b let b = 2;\x7d // c" ∧
      Fulfilled "let a = 1;\n\x7b let b = 2;\x7d // c"
        ((parse "let a = 1\n\x7b let b = 2 // c" { maxDepth := 8 }).node 0)
        ((parse "let a = 1;\n\x7b let b = 2;\x7d // c" { maxDepth := 8 }).node 0) := by
  have honly : OnlyMissing (reports "let a = 1\n\x7b let b = 2 // c" 8) := by
    unfold OnlyMissing
    decide +kernel
  have hcompleted : completed "let a = 1\n\x7b let b = 2 // c" 8 = "let a = 1;\n\x7b let b = 2;\x7d // c" := by
    rw [completed_eq honly]
    decide +kernel
  have hfulfilled := (parse_completed "let a = 1\n\x7b let b = 2 // c" 8 (onlyMissing_iff.mpr honly)).2
  rw [hcompleted] at hfulfilled
  exact ⟨onlyMissing_iff.mpr honly, hcompleted, hfulfilled⟩

end ScriptTree
