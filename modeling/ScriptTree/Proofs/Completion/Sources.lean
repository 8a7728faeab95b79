import Mathlib
import ScriptTree.Proofs.Completion.Supply
import ScriptTree.Proofs.Completion.Templates
import ScriptTree.Proofs.Mirror.Joining
import ScriptTree.Proofs.Token.Insertion

/-! Sources in which a mark that was made up is put in.

Where nothing is amiss in a source but marks that are not there, the first of them may be put in at the
place where it is reported (`exists_seam`, `supplies_insertion`). The tree stays the same but for this
mark, which is a token then, and the other reports move on (`completes_insertion`). -/
namespace ScriptTree

open Parsing

variable {source : String} {maxDepth : Nat}

/-! ### What is open in front of a token -/

/-- What is open in front of each token of a source. -/
def stackAt (source : String) (i : Nat) : List Mode :=
  (Nesting.run [] ((lex source).tokens.toList.dropLast.take i)).getD []

theorem run_take (source : String) (i : Nat) :
    Nesting.run [] ((lex source).tokens.toList.dropLast.take i) = some (stackAt source i) := by
  obtain ⟨ls, last, h⟩ := Lexes.total {} source.toList
  have hall := Nesting.run_lexes h 0
  have htokens : (lex source).tokens.toList.dropLast = Nesting.tokensFrom 0 ls := by
    rw [lex, h.tokens, List.dropLast_concat]
    rfl
  rw [stackAt, htokens]
  rw [← List.take_append_drop i (Nesting.tokensFrom 0 ls), Nesting.run_append] at hall
  cases hrun : Nesting.run [] ((Nesting.tokensFrom 0 ls).take i) with
  | none =>
    rw [show ({} : Context).modes = [] from rfl, hrun] at hall
    cases hall
  | some stack => rfl

theorem stackAt_stacked (source : String) : Stacked (lex source).tokens (stackAt source) := by
  intro i hreal
  have hi := (lex_isStream source).succ_lt (lt_size_of_real hreal) hreal
  have hlength : i < (lex source).tokens.toList.dropLast.length := by
    rw [List.length_dropLast, Array.length_toList]
    omega
  have htoken : (lex source).tokens.toList.dropLast[i] = tokenAt (lex source).tokens i := by
    rw [List.getElem_dropLast, Array.getElem_toList, tokenAt, Array.getD, dif_pos (by omega)]
    rfl
  have hrun := run_take source (i + 1)
  rw [List.take_succ_eq_append_getElem hlength, htoken, Nesting.run_append, run_take] at hrun
  rw [← hrun]
  show _ = (Nesting.step (stackAt source i) (kindAt (lex source).tokens i)).bind (Nesting.run · [])
  cases Nesting.step (stackAt source i) (kindAt (lex source).tokens i) <;> rfl

/-! ### The first mark that was made up -/

theorem clean_of_onlyMissing (h : OnlyMissing (reports source maxDepth)) :
    (lex source).problems = #[] ∧
      reports source maxDepth = (runProgram (lex source).tokens maxDepth).2.problems.toList := by
  have hclean : (lex source).problems.toList = [] := by
    refine List.eq_nil_iff_forall_not_mem.mpr fun problem hproblem => ?_
    have hmissing := h problem (List.mem_append_left _ hproblem)
    rw [lex_problems_lexical source problem hproblem] at hmissing
    cases hmissing
  exact ⟨Array.toList_eq_nil_iff.mp hclean, by rw [reports, hclean, List.nil_append]⟩

/-- A mark was made up in code, behind a token and in front of what may follow it. -/
theorem exists_seam (only : OnlyMissing (runProgram (lex source).tokens maxDepth).2.problems.toList)
    {problem : Problem} (hproblem : problem ∈ (runProgram (lex source).tokens maxDepth).2.problems.toList) :
    ∃ j mark found, problem = ⟨.missingMark mark found, .empty (stopBefore (lex source).tokens j)⟩ ∧
      j < (lex source).tokens.size ∧ Seam (lex source).tokens j mark ∧
      (kindAt (lex source).tokens j = .endOfFile ∨ ¬Nesting.InTemplate (stackAt source j)) := by
  have hs := lex_isStream source
  have hsize := hs.nonempty
  obtain ⟨hforest, hroles⟩ := bareRoot_forest source maxDepth
  have hend : kindAt (lex source).tokens ((lex source).tokens.size - 1) = .endOfFile :=
    (hs.endOfFile _ (by omega)).mpr (by omega)
  obtain ⟨j, mark, found, rfl, hj, hseam⟩ := hforest.seams only hroles hend problem hproblem
  have hinert : ∀ n ∈ (bareRoot source maxDepth).children, isInert n.symbol = true := by
    have hall : ∀ role ∈ Role.recovered, isInert role.2 = true := by decide
    exact fun n hn => hall _ (hroles n hn)
  obtain ⟨j', mark', found', heq, hj', hcode⟩ := (hforest.level (stackAt_stacked source) only hinert
    (.inr (.inl (by rw [stackAt, List.take_zero]; exact nofun)))).marks _ hproblem
  obtain rfl := hs.stopBefore_inj (by omega) (by omega) (congrArg (·.span.start) heq)
  exact ⟨j, mark, found, rfl, by omega, hseam, hcode⟩

/-! ### One mark put in -/

/-- Token lists that differ in one token, which one of them has more. -/
structure Spliced (left right : Array Token) (front back : List Token) (t : Token) : Prop where
  left : left.toList = front ++ back
  right : right.toList = front ++ t :: back.map (Token.relocate Nat.succ)

namespace Spliced
variable {left right : Array Token} {front back : List Token} {t : Token}
  (h : Spliced left right front back t)
include h

theorem size : right.size = left.size + 1 := by
  rw [← Array.length_toList, ← Array.length_toList, h.left, h.right]
  simp only [List.length_append, List.length_cons, List.length_map, Nat.add_assoc]

theorem before {i : Nat} (hi : i < front.length) : tokenAt right i = tokenAt left i := by
  rw [tokenAt_toList, tokenAt_toList, h.left, h.right, List.getElem?_append_left hi,
    List.getElem?_append_left hi]

theorem here : tokenAt right front.length = t := by
  rw [tokenAt_toList, h.right, List.getElem?_append_right le_rfl, Nat.sub_self]
  rfl

theorem behind {i : Nat} (hi : front.length ≤ i) (hlt : i < left.size) :
    tokenAt right (i + 1) = (tokenAt left i).relocate Nat.succ := by
  obtain ⟨k, rfl⟩ := Nat.exists_eq_add_of_le hi
  have hk : k < back.length := by
    rw [← Array.length_toList, h.left, List.length_append] at hlt
    omega
  rw [tokenAt_toList, tokenAt_toList, h.left, h.right, List.getElem?_append_right (by omega),
    List.getElem?_append_right hi]
  simp [Nat.add_assoc, hk]

end Spliced

/-- The tokens of a source around the place in front of an index. -/
theorem tokens_split {k : Nat} (hk : k + 1 < (lex source).tokens.size) :
    (lex source).tokens.toList = (lex source).tokens.toList.take k ++ tokenAt (lex source).tokens k ::
      tokenAt (lex source).tokens (k + 1) :: (lex source).tokens.toList.drop (k + 2) := by
  have hget {i : Nat} (hi : i < (lex source).tokens.toList.length) :
      (lex source).tokens.toList[i] = tokenAt (lex source).tokens i := by
    rw [tokenAt_toList, List.getElem?_eq_getElem hi]
    rfl
  have hlength : (lex source).tokens.toList.length = (lex source).tokens.size := Array.length_toList
  rw [← hget (by omega), ← hget (by omega), ← List.drop_eq_getElem_cons, ← List.drop_eq_getElem_cons,
    List.take_append_drop]

theorem run_upto {k : Nat} (hk : k + 1 < (lex source).tokens.size) :
    Nesting.run [] ((lex source).tokens.toList.take k ++ [tokenAt (lex source).tokens k]) =
      some (stackAt source (k + 1)) := by
  have hlength : ((lex source).tokens.toList.take k ++ [tokenAt (lex source).tokens k]).length = k + 1 := by
    rw [List.length_append, List.length_take, Array.length_toList, List.length_singleton]
    omega
  have hupto : (lex source).tokens.toList.dropLast.take (k + 1) =
      (lex source).tokens.toList.take k ++ [tokenAt (lex source).tokens k] := by
    rw [List.dropLast_eq_take, List.take_take, Array.length_toList, min_eq_left (by omega)]
    nth_rewrite 1 [tokens_split hk]
    rw [List.append_cons, List.take_left' hlength]
  rw [← hupto, run_take]

/-- Comments in front of a place and behind it stand apart from what is put in there. -/
theorem commentNodes_apart {source' : String} {off : Nat} {a b : List Comment}
    (hcomments : (lex source).comments.toList = a ++ b) (ha : ∀ c ∈ a, c.span.stop < off)
    (hb : ∀ c ∈ b, off ≤ c.span.start)
    (hcomments' : (lex source').comments.toList = a ++ b.map (Comment.relocate Nat.succ)) :
    List.Forall₂ (Completes.Apart off) (commentNodes source) (commentNodes source') := by
  have hspan {c : Comment} (hc : c ∈ a ∨ c ∈ b) : (commentNode c).span = c.span := by
    have hmem : c ∈ (lex source).comments.toList := by
      rw [hcomments]
      exact List.mem_append.mpr hc
    exact (isComment_commentNode hmem).2
  rw [commentNodes, commentNodes, hcomments, hcomments', List.map_append, List.map_append, List.map_map]
  refine List.rel_append ?_ ?_
  · rw [List.forall₂_map_left_iff, List.forall₂_map_right_iff, List.forall₂_same]
    intro c hc
    refine .inl ⟨rfl, ?_⟩
    rw [hspan (.inl hc)]
    exact ha c hc
  · rw [List.forall₂_map_left_iff, List.forall₂_map_right_iff, List.forall₂_same]
    intro c hc
    refine .inr ⟨commentNode_relocate _ c, ?_⟩
    rw [hspan (.inr hc)]
    exact hb c hc

/-- A mark that was made up may be put in: the tokens, the comments and the reports are as before. -/
theorem supplies_insertion (clean : (lex source).problems = #[]) {j : Nat} {mark : Punctuation}
    (hj : j < (lex source).tokens.size) (hseam : Seam (lex source).tokens j mark)
    (hcode : kindAt (lex source).tokens j = .endOfFile ∨ ¬Nesting.InTemplate (stackAt source j)) :
    let source' := edited source [insertion mark (stopBefore (lex source).tokens j)]
    Supplies (lex source).tokens (lex source').tokens j mark ∧
      List.Forall₂ (Completes.Apart (stopBefore (lex source).tokens j)) (commentNodes source)
        (commentNodes source') ∧
      (lex source').problems = #[] := by
  intro source'
  obtain ⟨k, rfl⟩ : ∃ k, j = k + 1 := ⟨j - 1, (Nat.sub_add_cancel hseam.site.pos).symm⟩
  have hs := lex_isStream source
  have htokens := tokens_split hj
  have hlast : (spanAt (lex source).tokens ((lex source).tokens.size - 1)).start ≤
      (spanAt (lex source).tokens ((lex source).tokens.size - 1)).stop := by
    rw [spanAt_last]
    exact le_rfl
  set front := (lex source).tokens.toList.take k with hfront
  set t := tokenAt (lex source).tokens k with ht
  set u := tokenAt (lex source).tokens (k + 1) with hu
  have hlength : (front ++ [t]).length = k + 1 := by
    rw [List.length_append, hfront, List.length_take, Array.length_toList, List.length_singleton]
    omega
  have hstop : stopBefore (lex source).tokens (k + 1) = t.span.stop := stopBefore_succ k
  have hdivision : u.kind = .operator .divide ∨ u.kind = .operator .divideAssign →
      t.kind.endsOperand = false := by
    intro hdivides
    refine hseam.settled ?_
    show isDivision u.kind = true
    rcases hdivides with h | h <;> rw [h] <;> rfl
  have hdot : t.kind ≠ .punctuation .dot := by
    intro hdot
    refine hseam.site.before ?_
    show t.kind ∈ preludes
    rw [hdot]
    decide
  obtain ⟨htokens', ⟨a, b, hcomments, ha, hb, hcomments'⟩, hclean'⟩ :=
    lex_inserted clean htokens (run_upto hj) hcode hdot hdivision hseam.site.closing
  rw [← hstop] at htokens' hb hcomments' hclean'
  have hspliced : Spliced (lex source).tokens (lex source').tokens (front ++ [t]) _ _ :=
    ⟨by rw [htokens, List.append_assoc]; rfl, by rw [htokens', List.append_assoc]; rfl⟩
  refine ⟨⟨hs, lex_isStream _, hj, hspliced.size, hseam, hlast, fun i hi => ?_, ?_, fun i hi hlt => ?_⟩,
    ?_, hclean'⟩
  · exact hspliced.before (by omega)
  · have := hspliced.here
    rwa [hlength] at this
  · exact hspliced.behind (by omega) hlt
  · exact commentNodes_apart hcomments (fun c hc => (ha c hc).trans_lt (hstop ▸ hs.proper k hj)) hb hcomments'

/-- The edit that puts in the mark that a report says is not there. -/
def Problem.mark? (p : Problem) : Option Edit :=
  match p.cause with
  | .missingMark mark _ => some (insertion mark p.span.start)
  | _ => none

theorem utf8ByteSize_insertion {mark : Punctuation} (hmark : Lexeme.isCloser mark = true) {offset : Nat}
    (hvalid : (⟨offset⟩ : String.Pos.Raw).IsValid source) :
    (edited source [insertion mark offset]).utf8ByteSize = source.utf8ByteSize + 1 := by
  obtain ⟨a, b, hsplit, rfl⟩ := exists_split_of_isValid hvalid
  obtain ⟨c, hspelling, _, hwidth, _⟩ := Lexeme.first_closer hmark
  have hsize (source : String) : source.utf8ByteSize = byteLength source.toList := by
    rw [← utf8ByteSize_ofList, String.ofList_toList]
  rw [hsize, hsize, toList_insertion hsplit mark, ← hsplit, hspelling]
  simp only [byteLength_append, byteLength_cons, hwidth, List.singleton_append]
  omega

/-- With the first mark put in, the tree is the same but for this mark, and so are the other reports. -/
theorem completes_insertion {first : Problem} {later : List Problem}
    (only : OnlyMissing (reports source maxDepth)) (hreports : reports source maxDepth = first :: later) :
    ∃ mark off, first.mark? = some (insertion mark off) ∧ first.span = .empty off ∧
      Lexeme.isCloser mark = true ∧ (⟨off⟩ : String.Pos.Raw).IsValid source ∧
      Completes (Shifts off) (dressedRoot source maxDepth)
        (dressedRoot (edited source [insertion mark off]) maxDepth) ∧
      reports (edited source [insertion mark off]) maxDepth = later.map (Problem.relocate Nat.succ) := by
  obtain ⟨clean, hparser⟩ := clean_of_onlyMissing only
  rw [hreports] at hparser only
  have hs := lex_isStream source
  obtain ⟨j, mark, found, rfl, hj, hseam, hcode⟩ := exists_seam (hparser ▸ only) (hparser ▸ List.mem_cons_self)
  obtain ⟨hsupplies, hcomments, hclean'⟩ := supplies_insertion clean hj hseam hcode
  have hposition := runProgram_position hs maxDepth
  obtain ⟨hnodes, _, _, hleft, hright⟩ := hsupplies.programs
    ⟨by omega, hparser ▸ only, found, later, hparser.symm⟩
  have hvalid : (⟨stopBefore (lex source).tokens j⟩ : String.Pos.Raw).IsValid source :=
    stopBefore_isValid hj.le
  have hcloser : Lexeme.isCloser mark = true := by
    rcases hseam.site.closing with rfl | ⟨rfl, _⟩ <;> rfl
  refine ⟨mark, stopBefore (lex source).tokens j, rfl, rfl, hcloser, hvalid, ?_, ?_⟩
  · refine Completes.attachAll ⟨rfl, rfl, rfl, id, ⟨.refl (Nat.zero_le _), ?_⟩, hnodes⟩ hcomments
      (bareRoot_dressable source maxDepth) (bareRoot_dressable _ maxDepth)
    show Shifts _ source.utf8ByteSize (edited source [insertion mark _]).utf8ByteSize
    rw [utf8ByteSize_insertion hcloser hvalid]
    exact .succ hvalid.le_utf8ByteSize
  · obtain ⟨_, rfl⟩ := List.cons.inj (hparser.trans hleft)
    rw [reports, hclean', hright]
    rfl

end ScriptTree
