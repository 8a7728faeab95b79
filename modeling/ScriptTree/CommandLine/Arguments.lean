import ScriptTree.CommandLine.Run

/-! What the arguments ask for.

Arguments are read from left to right. The first names a command; behind it options and files may be
mixed, `--` ends the options, and a lone hyphen is a file name. The first fault decides what is
reported. Names of files are looked at only when an option or the end of the arguments follows them,
so an unknown option wins over an empty name before it; what options exclude each other is decided
last. Only the program around the commands reads arguments. -/
namespace ScriptTree

/-- Why arguments do not lead to a command. -/
inductive UsageError where
  /-- Help was asked for. -/
  | help
  /-- The version was asked for. -/
  | version
  /-- Nothing was asked for. -/
  | noCommand
  | unknownCommand
  | missingFile
  /-- An option is repeated or excluded by another. -/
  | conflict
  | emptyFileName
  /-- An unknown option, or more files than the command takes. -/
  | unknownArgument
  /-- A value for an option that takes none. -/
  | optionValue
deriving DecidableEq, Repr

namespace UsageError

/-- Asking for help or the version is no failure. -/
def exitCode : UsageError → Nat
  | help | version => 0
  | _ => 2

def message : UsageError → String
  | help | noCommand =>
    "usage: tsz (parse [-q | --quiet | --json] | lex | check | highlight | node-types" ++
      " | language) FILE..."
  | version => "tsz 0.1.0"
  | unknownCommand => "unknown command"
  | missingFile => "a file is missing"
  | conflict => "options exclude each other"
  | emptyFileName => "the name of a file is empty"
  | unknownArgument => "unexpected argument"
  | optionValue => "the option takes no value"

end UsageError

namespace Arguments

/-! ### The forms of an argument -/

/-- An argument by its form alone. -/
inductive Form where
  /-- Two hyphens, which end the options. -/
  | endOfOptions
  /-- An option by name, and whether a value is attached by an equals sign. -/
  | long (name : String) (hasValue : Bool)
  /-- Options by letter, one after another. -/
  | short (letters : List Char)
  | plain
deriving DecidableEq, Repr

def form (argument : String) : Form :=
  match argument.toList with
  | ['-', '-'] => .endOfOptions
  | '-' :: '-' :: name => .long (String.ofList (name.takeWhile (· != '='))) (name.contains '=')
  | '-' :: letter :: letters => .short (letter :: letters)
  | _ => .plain

/-! ### Commands and their options -/

/-- The commands by name. -/
inductive Name where
  | parse
  | lex
  | check
  | highlight
  | nodeTypes
  | language
deriving DecidableEq, Repr

def name? : String → Option Name
  | "parse" => some .parse
  | "lex" => some .lex
  | "check" => some .check
  | "highlight" => some .highlight
  | "node-types" => some .nodeTypes
  | "language" => some .language
  | _ => none

/-- The least number of files that a command takes. -/
def Name.leastFiles : Name → Nat
  | .nodeTypes | .language => 0
  | _ => 1

/-- Whether a command that has been given `n` files takes another one. -/
def Name.takesMore (name : Name) (n : Nat) : Bool :=
  match name with
  | .check => true
  | .nodeTypes | .language => false
  | _ => n == 0

inductive Flag where
  | help
  | quiet
  | json
deriving DecidableEq, Repr

def longFlag? (name : Name) (option : String) : Option Flag :=
  match name, option with
  | _, "help" => some .help
  | .parse, "quiet" => some .quiet
  | .parse, "json" => some .json
  | _, _ => none

def shortFlag? (name : Name) (letter : Char) : Option Flag :=
  match name, letter with
  | _, 'h' => some .help
  | .parse, 'q' => some .quiet
  | _, _ => none

/-! ### The arguments of a command -/

/-- What has been read behind the name of a command. -/
structure Given where
  files : Array String := #[]
  flags : List Flag := []

namespace Given

/-- Refuses an empty file name. -/
def checkFiles (given : Given) : Except UsageError Unit :=
  if given.files.any (·.isEmpty) then .error .emptyFileName else .ok ()

def addFile (name : Name) (given : Given) (file : String) : Except UsageError Given :=
  if name.takesMore given.files.size then .ok { given with files := given.files.push file }
  else .error .unknownArgument

def addFlag (given : Given) (flag : Flag) : Except UsageError Given := do
  given.checkFiles
  if flag = .help then throw .help
  if flag ∈ given.flags then throw .conflict
  return { given with flags := flag :: given.flags }

def addLong (name : Name) (given : Given) (option : String) (hasValue : Bool) :
    Except UsageError Given :=
  match longFlag? name option with
  | none => .error .unknownArgument
  | some flag => if hasValue then .error .optionValue else given.addFlag flag

def addLetter (name : Name) (given : Given) (letter : Char) : Except UsageError Given :=
  match shortFlag? name letter with
  | none => .error .unknownArgument
  | some flag => given.addFlag flag

/-- Adds the arguments of a command. -/
def addAll (name : Name) (given : Given) : List String → Except UsageError Given
  | [] => .ok given
  | argument :: rest =>
    match form argument with
    | .endOfOptions => rest.foldlM (addFile name) given
    | .long option hasValue => do addAll name (← given.addLong name option hasValue) rest
    | .short letters => do addAll name (← letters.foldlM (addLetter name) given) rest
    | .plain => do addAll name (← given.addFile name argument) rest

/-- How the flags say that a tree is printed. -/
def format (given : Given) : TreeFormat :=
  if .quiet ∈ given.flags then .none else if .json ∈ given.flags then .json else .sexp

/-- The command with what was given. -/
def command (name : Name) (given : Given) : Except UsageError Command := do
  given.checkFiles
  if .quiet ∈ given.flags && .json ∈ given.flags then throw .conflict
  if given.files.size < name.leastFiles then throw .missingFile
  let file := given.files.getD 0 ""
  return match name with
    | .parse => .parse file given.format
    | .lex => .lex file
    | .check => .check given.files.toList
    | .highlight => .highlight file
    | .nodeTypes => .nodeTypes
    | .language => .language

end Given

/-! ### The first argument -/

/-- What the word `help` asks for: help on one command at most, which may be itself. -/
def helpOn : List String → UsageError
  | [] => .help
  | [topic] => if topic == "help" || (name? topic).isSome then .help else .unknownCommand
  | _ => .unknownCommand

/-- What is wrong with options in front of a command. -/
def leadingOption : Form → UsageError
  | .long "help" hasValue => if hasValue then .optionValue else .help
  | .long "version" hasValue => if hasValue then .optionValue else .version
  | .short ('h' :: _) => .help
  | .short ('V' :: _) => .version
  | .plain => .unknownCommand
  | _ => .unknownArgument

/-- What is wrong with two hyphens in front of everything: options may be ended, but a command is
not a file. -/
def afterEndOfOptions : List String → UsageError
  | [] => .noCommand
  | argument :: _ =>
    if argument == "help" || (name? argument).isSome then .unknownArgument else .unknownCommand

end Arguments

/-- The command that the arguments ask for. -/
def Command.ofArguments : List String → Except UsageError Command
  | [] => .error .noCommand
  | first :: rest =>
    match Arguments.name? first, Arguments.form first with
    | some name, _ => do (← Arguments.Given.addAll name {} rest).command name
    | none, .endOfOptions => .error (Arguments.afterEndOfOptions rest)
    | none, form =>
      .error (if first == "help" then Arguments.helpOn rest else Arguments.leadingOption form)

end ScriptTree
