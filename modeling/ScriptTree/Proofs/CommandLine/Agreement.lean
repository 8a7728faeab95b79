import Mathlib
import ScriptTree.CommandLine.Run
import ScriptTree.Proofs.Parsing.Outcome

/-! Agreement of the commands.

Commands that report problems read and judge a source each on its own. `Command.Agreement` says that
they judge alike: on one file, and when `check` goes through many, where its loop can end early. The
loop is compared with what it should print and count from anywhere in the list (`checkFrom_readable`,
`checkFrom_unreadable`); `commands_agree` says it for whatever the system holds. -/
namespace ScriptTree

/-- Whether the source under a path can be read. -/
def Files.canRead (files : Files) (path : String) : Bool := (files.read path).isOk

namespace Command

/-- Whether a command ends well. -/
def succeeds (files : Files) (command : Command) : Bool := (command.run files).exitCode == 0

/-- The line that `check` prints for a file without problems. -/
def successLine (path : String) : String := s!"✓ {path}\n"

/-- Whether the commands agree about what the system holds. -/
structure Agreement (files : Files) : Prop where
  parse : ∀ path source, files.read path = .ok source → ∀ format,
    (Command.parse path format).succeeds files = (ScriptTree.parse source).problems.isEmpty
  checkOne : ∀ path source, files.read path = .ok source →
    (check [path]).succeeds files = (ScriptTree.parse source).problems.isEmpty
  lex : ∀ path source, files.read path = .ok source → ∀ format,
    (Command.parse path format).succeeds files → (Command.lex path).succeeds files
  highlight : ∀ path source, files.read path = .ok source → (highlight path).succeeds files
  /-- Files without problems are printed, in order, up to the first one that cannot be read. -/
  output : ∀ paths, ((check paths).run files).output =
    String.join (((paths.takeWhile files.canRead).filter fun path =>
      (Command.parse path .none).succeeds files).map successLine)
  /-- The first file that cannot be read decides how `check` ends, whatever it has found before. -/
  unreadable : ∀ before path after failure, (∀ p ∈ before, files.canRead p) →
    files.read path = .error failure →
      ((check (before ++ path :: after)).run files).failure = some (.reading failure)
  /-- When all can be read, the failed ones are counted. -/
  readable : ∀ paths, (∀ p ∈ paths, files.canRead p) →
    ((check paths).run files).failure =
      if paths.all fun p => (Command.parse p .none).succeeds files then none else
        some (.files (paths.countP fun p => !(Command.parse p .none).succeeds files) paths.length)

/-! ### One file -/

section
variable {files : Files} {path source : String}

theorem succeeds_eq (command : Command) :
    command.succeeds files = (command.run files).failure.isNone := by
  cases h : (command.run files).failure <;> simp [succeeds, Outcome.exitCode, h]

theorem withSource_ok (h : files.read path = .ok source) (run : String → Outcome) :
    withSource files path run = run source := by
  rw [withSource, h]

/-- The grammar can always be loaded, so a source has its tree. -/
theorem parseSource_eq (source : String) : parseSource source = .ok (ScriptTree.parse source) := rfl

theorem withTree_ok (h : files.read path = .ok source) (run : String → Tree → Outcome) :
    withTree files path run = run source (ScriptTree.parse source) := by
  rw [withTree, withSource_ok h, parseSource_eq]

theorem isNone_failureOf (path source : String) (problems : List Problem) :
    (failureOf path source problems).isNone = problems.isEmpty := by
  cases problems <;> rfl

theorem parse_succeeds (h : files.read path = .ok source) (format : TreeFormat) :
    (Command.parse path format).succeeds files = (ScriptTree.parse source).problems.isEmpty := by
  rw [succeeds_eq, run, runParse, withTree_ok h, isNone_failureOf]

theorem parse_fails {failure : ReadFailure} (h : files.read path = .error failure)
    (format : TreeFormat) : (Command.parse path format).succeeds files = false := by
  rw [succeeds_eq, run, runParse, withTree, withSource, h]
  rfl

theorem lex_succeeds (h : files.read path = .ok source) :
    (Command.lex path).succeeds files = (ScriptTree.lex source).problems.toList.isEmpty := by
  rw [succeeds_eq, run, runLex, withSource_ok h, isNone_failureOf]

theorem highlight_succeeds (h : files.read path = .ok source) :
    (highlight path).succeeds files = true := by
  rw [succeeds_eq, run, runHighlight, withTree_ok h]
  rfl

/-- The problems of a tree are those of the lexer and those of the parser. -/
theorem lex_problems_of_parse (h : (ScriptTree.parse source).problems.isEmpty = true) :
    (ScriptTree.lex source).problems.toList.isEmpty = true := by
  rw [parse_eq (by simp)] at h
  have hperm : (Parsing.sorted (reports source 256)).Perm (reports source 256) := List.mergeSort_perm _ _
  rw [show Parsing.sorted (reports source 256) = [] from List.isEmpty_iff.mp h] at hperm
  have hnil := hperm.symm.eq_nil
  rw [reports, List.append_eq_nil_iff] at hnil
  rw [hnil.1, List.isEmpty_nil]

end

/-! ### Many files -/

section
variable {files : Files} {total failed : Nat} {output : String}

/-- Whether a file can be read and has no problems. -/
abbrev passes (files : Files) (path : String) : Bool := (Command.parse path .none).succeeds files

theorem checkFrom_passing {path : String} (h : passes files path) (paths : List String) :
    checkFrom files total failed output (path :: paths) =
      checkFrom files total failed (output ++ successLine path) paths := by
  cases hread : files.read path with
  | error failure => rw [passes, parse_fails hread] at h; cases h
  | ok source =>
    rw [passes, parse_succeeds hread] at h
    rw [checkFrom, hread]
    simp only [parseSource_eq, h, if_true]
    rfl

theorem checkFrom_failing {path : String} (hread : files.canRead path)
    (h : passes files path = false) (paths : List String) :
    checkFrom files total failed output (path :: paths) =
      checkFrom files total (failed + 1) output paths := by
  cases hok : files.read path with
  | error failure => rw [Files.canRead, hok] at hread; cases hread
  | ok source =>
    rw [passes, parse_succeeds hok] at h
    rw [checkFrom, hok]
    simp only [parseSource_eq, h, Bool.false_eq_true, if_false]

/-- Files that can be read are passed over: those without problems are printed, the others
counted. -/
theorem checkFrom_append {before : List String} (hbefore : ∀ p ∈ before, files.canRead p)
    (after : List String) :
    checkFrom files total failed output (before ++ after) =
      checkFrom files total (failed + before.countP fun p => !passes files p)
        (output ++ String.join ((before.filter (passes files)).map successLine)) after := by
  induction before generalizing failed output with
  | nil => simp
  | cons path before ih =>
    obtain ⟨hread, hbefore⟩ := List.forall_mem_cons.mp hbefore
    cases hpass : passes files path with
    | true =>
      rw [List.cons_append, checkFrom_passing hpass, ih hbefore]
      simp [hpass, String.append_assoc]
    | false =>
      rw [List.cons_append, checkFrom_failing hread hpass, ih hbefore]
      simp [hpass, Nat.add_assoc, Nat.add_comm 1]

/-- What `check` does is settled by the files in front of the first one that cannot be read, and by
that one. -/
theorem run_check (files : Files) (paths : List String) : (check paths).run files =
    checkFrom files paths.length
      ((paths.takeWhile files.canRead).countP fun p => !passes files p)
      (String.join (((paths.takeWhile files.canRead).filter (passes files)).map successLine))
      (paths.dropWhile files.canRead) := by
  have hbefore : ∀ p ∈ paths.takeWhile files.canRead, files.canRead p :=
    fun p hp => List.mem_takeWhile_imp hp
  have hsplit := @checkFrom_append files paths.length 0 "" _ hbefore
    (paths.dropWhile files.canRead)
  rw [List.takeWhile_append_dropWhile, Nat.zero_add, String.empty_append] at hsplit
  exact hsplit

/-- From a file that cannot be read on nothing is printed. -/
theorem output_checkFrom_dropWhile (files : Files) (total failed : Nat) (output : String)
    (paths : List String) :
    (checkFrom files total failed output (paths.dropWhile files.canRead)).output = output := by
  cases h : paths.dropWhile files.canRead with
  | nil => rfl
  | cons path rest =>
    have hread := List.head?_dropWhile_not files.canRead paths
    rw [h] at hread
    cases hfile : files.read path with
    | ok source => simp [Files.canRead, hfile, Except.isOk, Except.toBool] at hread
    | error failure => rw [checkFrom, hfile]

end

/-- Whatever the system holds, the commands agree. -/
theorem commands_agree (files : Files) : Agreement files where
  parse _ _ h := parse_succeeds h
  checkOne path source h := by
    cases hproblems : (ScriptTree.parse source).problems.isEmpty <;>
      simp [succeeds_eq, run, runCheck, checkFrom, h, parseSource_eq, hproblems]
  lex path source h format hparse := by
    rw [parse_succeeds h] at hparse
    rw [lex_succeeds h, lex_problems_of_parse hparse]
  highlight _ _ h := highlight_succeeds h
  output paths := by rw [run_check, output_checkFrom_dropWhile]
  unreadable before path after failure hbefore h := by
    rw [run, runCheck, checkFrom_append hbefore, checkFrom, h]
  readable paths hpaths := by
    rw [run_check, List.takeWhile_eq_self_iff.mpr hpaths, List.dropWhile_eq_nil_iff.mpr hpaths,
      checkFrom]
    refine if_congr ?_ rfl rfl
    simp [List.countP_eq_zero]

end Command

end ScriptTree
