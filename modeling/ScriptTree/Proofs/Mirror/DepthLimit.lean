import Mathlib
import ScriptTree.Proofs.Mirror.Lockstep
import ScriptTree.Proofs.Parsing.Accounting

/-! The limit on nesting.

A source that can be parsed without getting too deep is parsed the same under any higher limit. The
runs under both limits read the same tokens in lockstep; only where the lower one is exceeded do they
part, and what is reported there stays reported (`parse_deeper`). -/
namespace ScriptTree

namespace Parsing

/-- Whether nothing has got too deep yet. -/
def Shallow (s : State) : Prop := ∀ p ∈ s.problems.toList, ∀ maxDepth, p.cause ≠ .tooDeep maxDepth

/-- A token list and itself, until something gets too deep. -/
def Lockstep.itself (tokens : Array Token) : Lockstep where
  left := tokens
  right := tokens
  shift := 0
  place := id
  place' := id
  faithful := True
  earlier := []
  live := Shallow

theorem Lockstep.itself_valid {tokens : Array Token} (hs : IsStream tokens) :
    (itself tokens).Valid where
  place := monotone_id
  place' := monotone_id
  streamLeft := hs
  streamRight := hs
  size := Nat.add_zero _
  agree i _ := by
    refine ⟨.refl _, rfl, fun n n' hn hn' => ?_, fun _ => rfl⟩
    rw [Option.some.inj (hn.symm.trans hn')]
    rfl
  touching _ _ _ := rfl
  alive hlater hlive := by
    intro p hp
    obtain ⟨later, hlater, _⟩ := hlater.problems
    refine hlive p ?_
    rw [hlater]
    exact List.mem_append_left _ hp
  start _ _ _ _ := rfl

/-- Two programs under different limits. -/
theorem runProgram_deeper {tokens : Array Token} (hs : IsStream tokens) {maxDepth deeper : Nat}
    (hle : maxDepth ≤ deeper) (hshallow : Shallow (runProgram tokens maxDepth).2) :
    (runProgram tokens deeper).1 = (runProgram tokens maxDepth).1 ∧
      (runProgram tokens deeper).2.problems = (runProgram tokens maxDepth).2.problems := by
  have hdeep (s : State) (span : Span) : ¬Shallow (s.report ⟨.tooDeep maxDepth, span⟩) := by
    intro h
    refine h ⟨.tooDeep maxDepth, span⟩ ?_ maxDepth rfl
    rw [State.report, Array.toList_push]
    exact List.mem_append_right _ (List.mem_singleton_self _)
  obtain ⟨hnodes, hreports⟩ := (Lockstep.itself_valid hs).programs rfl rfl (.inr hdeep)
    (Nat.sub_add_cancel hle).symm hshallow
  constructor
  · refine Array.ext' ?_
    rw [← Node.map_relocate_id (runProgram tokens deeper).1.toList,
      ← Node.map_relocate_id (runProgram tokens maxDepth).1.toList]
    exact hnodes.symm
  · have hequal : List.Forall₂ Eq (runProgram tokens maxDepth).2.problems.toList
        (runProgram tokens deeper).2.problems.toList := by
      refine hreports.imp fun p p' hreported => ?_
      obtain ⟨hcause, hspan⟩ := hreported
      cases p
      cases p'
      exact congrArg₂ Problem.mk (hcause trivial) hspan
    rw [List.forall₂_eq_eq_eq] at hequal
    exact Array.ext' hequal.symm

end Parsing

open Parsing

variable {source : String} {options : ParseOptions}

/-- **A limit that is not exceeded makes no difference**: under any higher one the tree and the
reports are the same. -/
theorem parse_deeper {deeper : Nat} (hle : options.maxDepth ≤ deeper)
    (hshallow : ∀ p ∈ (parse source options).problems, ∀ maxDepth, p.cause ≠ .tooDeep maxDepth) :
    parse source { options with maxDepth := deeper } = parse source options := by
  by_cases hfits : ∀ limit ∈ options.maxLength, source.utf8ByteSize ≤ limit
  · have hparse := parse_eq hfits
    have hparse' : parse source { options with maxDepth := deeper } = _ := parse_eq hfits
    rw [hparse] at hshallow
    obtain ⟨hnodes, hreports⟩ := runProgram_deeper (lex_isStream source) hle
      fun p hp => hshallow p (mem_sorted.mpr (List.mem_append_right _ hp))
    rw [hparse, hparse', dressedRoot, dressedRoot, bareRoot, bareRoot, hnodes, reports, reports,
      hreports]
  · push Not at hfits
    obtain ⟨limit, hlimit, hlong⟩ := hfits
    have hparse : parse source { options with maxDepth := deeper } = _ := parse_refused hlimit hlong
    rw [hparse, parse_refused hlimit hlong]

theorem parse_deeper_assignment : ({ maxDepth := 8 } : ParseOptions).maxDepth ≤ 256 ∧
    (∀ p ∈ (parse "a = b;" { maxDepth := 8 }).problems, ∀ maxDepth, p.cause ≠ .tooDeep maxDepth) ∧
      parse "a = b;" { maxDepth := 256 } = parse "a = b;" { maxDepth := 8 } := by
  have hnone : (parse "a = b;" { maxDepth := 8 }).problems = [] := by decide +kernel
  have hshallow : ∀ p ∈ (parse "a = b;" { maxDepth := 8 }).problems, ∀ maxDepth,
      p.cause ≠ .tooDeep maxDepth := by
    rw [hnone]
    exact List.forall_mem_nil _
  exact ⟨by decide, hshallow, parse_deeper (by decide) hshallow⟩

end ScriptTree
