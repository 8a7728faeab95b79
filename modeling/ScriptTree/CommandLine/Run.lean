import ScriptTree.CommandLine.Files
import ScriptTree.CommandLine.Listing
import ScriptTree.Diagnostic.Basic
import ScriptTree.Grammar.NodeTypes
import ScriptTree.Parsing.Program
import ScriptTree.Text.Source
import ScriptTree.Tree.Text

/-! What the commands print.

A source is parsed as a tool does it that loads the grammar first. A command is run on what the system
holds and gives everything it prints, and the failure it ends with, if any. `check` stops at the first
file that cannot be read; files with problems do not stop it, they are counted. -/
namespace ScriptTree

/-- How a tree is printed. -/
inductive TreeFormat where
  | sexp
  | json
  | none
deriving DecidableEq, Repr

/-- What to do. -/
inductive Command where
  | parse (file : String) (format : TreeFormat)
  | lex (file : String)
  | check (files : List String)
  | highlight (file : String)
  | nodeTypes
  | language
deriving DecidableEq, Repr

/-- The files that a command reads. -/
def Command.files : Command → List String
  | parse file _ | lex file | highlight file => [file]
  | check files => files
  | nodeTypes | language => []

/-- Why a command fails. -/
inductive Failure where
  | reading (failure : ReadFailure)
  /-- The grammar cannot be loaded, for a reason if there is one. -/
  | grammar (mismatch : Option Language.VersionMismatch)
  /-- Problems in one source, as they are shown. -/
  | problems (text : String)
  /-- So many of so many files have problems. -/
  | files (failed total : Nat)
deriving DecidableEq, Repr

def Failure.message : Failure → String
  | reading failure => failure.message
  | grammar none => "Error loading TSZ grammar"
  | grammar (some mismatch) => s!"Error loading TSZ grammar: {mismatch.message}"
  | problems text => text
  | files failed total => s!"{failed} of {total} file(s) have syntax errors"

/-- What a command has printed and how it ended. -/
structure Outcome where
  output : String := ""
  failure : Option Failure := none
deriving DecidableEq, Repr

def Outcome.exitCode (o : Outcome) : Nat := if o.failure.isNone then 0 else 1

namespace Command

/-- Reports one below the other, without the blanks at the end. -/
def renderAll (path source : String) (problems : List Problem) : String :=
  let text := String.join (problems.map fun p => p.diagnostic.render path source)
  String.ofList (text.toList.reverse.dropWhile isWhiteSpace).reverse

/-- The failure that problems in a source amount to. -/
def failureOf (path source : String) (problems : List Problem) : Option Failure :=
  if problems.isEmpty then none else some (.problems (renderAll path source problems))

/-- Runs on the source under a path. -/
def withSource (files : Files) (path : String) (run : String → Outcome) : Outcome :=
  match files.read path with
  | .ok source => run source
  | .error failure => { failure := some (.reading failure) }

/-- The tree of a source, by a parser that is given the grammar. -/
def parseSource (source : String) : Except Failure Tree :=
  match Parser.withLanguage {} .tsz with
  | .error mismatch => .error (.grammar (some mismatch))
  | .ok parser =>
    match parser.parse? source with
    | some tree => .ok tree
    | none => .error (.grammar none)

/-- Runs on the source under a path and its tree. -/
def withTree (files : Files) (path : String) (run : String → Tree → Outcome) : Outcome :=
  withSource files path fun source =>
    match parseSource source with
    | .ok tree => run source tree
    | .error failure => { failure := some failure }

/-! ### The commands -/

def printTree (t : Tree) : TreeFormat → String
  | .sexp => t.sexp ++ "\n"
  | .json => t.json ++ "\n"
  | .none => ""

def runParse (files : Files) (path : String) (format : TreeFormat) : Outcome :=
  withTree files path fun source tree =>
    ⟨printTree tree format, failureOf path source tree.problems⟩

def runLex (files : Files) (path : String) : Outcome :=
  withSource files path fun source =>
    let lexed := ScriptTree.lex source
    let tokens := lexed.tokens.toList.map (Listing.tokenLine source)
    let comments := lexed.comments.toList.map Listing.commentLine
    ⟨String.join (tokens ++ comments), failureOf path source lexed.problems.toList⟩

/-- Checks the remaining files of `total`, `failed` of which have had problems so far. -/
def checkFrom (files : Files) (total failed : Nat) (output : String) : List String → Outcome
  | [] => ⟨output, if failed = 0 then none else some (.files failed total)⟩
  | path :: paths =>
    match files.read path with
    | .error failure => ⟨output, some (.reading failure)⟩
    | .ok source =>
      match parseSource source with
      | .error failure => ⟨output, some failure⟩
      | .ok tree =>
        if tree.problems.isEmpty then
          checkFrom files total failed (output ++ s!"✓ {path}\n") paths
        else checkFrom files total (failed + 1) output paths

def runCheck (files : Files) (paths : List String) : Outcome :=
  checkFrom files paths.length 0 "" paths

def runHighlight (files : Files) (path : String) : Outcome :=
  withTree files path fun _ tree =>
    { output := String.join (tree.highlights.toList.map (Listing.highlightLine tree)) }

/-- The facts that tools ask for before they load the grammar. -/
def describeLanguage (l : Language) : String :=
  s!"name: {l.name}\nversion: {Language.grammarVersion}\nabi: {l.formatVersion}\n" ++
    s!"node kinds: {Language.symbolCount}\nfields: {Language.fieldCount}\n"

/-- Runs a command. -/
def run (files : Files) : Command → Outcome
  | .parse file format => runParse files file format
  | .lex file => runLex files file
  | .check paths => runCheck files paths
  | .highlight file => runHighlight files file
  | .nodeTypes => { output := NodeType.text ++ "\n" }
  | .language => { output := describeLanguage .tsz }

end Command

end ScriptTree
