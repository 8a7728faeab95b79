import ScriptTree.CommandLine.Arguments

/-! A directory held in memory.

Commands can be tried on it in place of the system, whose words and limits it has. Paths are followed
one component at a time. An empty component or a single point stays in place and two points lead up,
but all of them need a directory to start from. Outside the directory there are directories on the way
to the root and nothing else. A name or path that is too long is refused where the system would look it
up. -/
namespace ScriptTree

namespace SystemFault

/-! ### What the system says -/

def notFound : SystemFault := ⟨"No such file or directory (os error 2)"⟩

def notADirectory : SystemFault := ⟨"Not a directory (os error 20)"⟩

def isADirectory : SystemFault := ⟨"Is a directory (os error 21)"⟩

def nameTooLong : SystemFault := ⟨"File name too long (os error 36)"⟩

def zeroInName : SystemFault := ⟨"file name contained an unexpected NUL byte"⟩

/-! ### Names that the system cannot hold -/

/-- The number of bytes of the longest name in a directory. -/
def maxName : Nat := 255

/-- The number of bytes of the longest path. -/
def maxPath : Nat := 4095

/-- What is wrong with a path whatever stands under it. -/
def ofPath? (path : String) : Option SystemFault :=
  if path.toList.contains '\x00' then some zeroInName
  else if maxPath < path.utf8ByteSize then some nameTooLong
  else none

/-- The fault of a name that is not found in a directory. -/
def ofAbsentName (name : String) : SystemFault :=
  if maxName < name.utf8ByteSize then nameTooLong else notFound

end SystemFault

/-- A directory can be found but not read. -/
def File.directory : File := ⟨0, fun _ => .error .isADirectory⟩

/-- The files of a directory and of the directories in it, each under the components of its path. -/
structure Directory where
  files : List (List String × File)

namespace Directory

/-- The components of a path. -/
def components (path : String) : List String := path.splitOn "/"

/-- A directory with these files, by their paths from it. Components that stay in place are left
out. -/
def ofFiles (files : List (String × File)) : Directory :=
  ⟨files.map fun (path, f) => ((components path).filter fun c => c != "" && c != ".", f)⟩

/-- Where a path has led so far. -/
inductive Place where
  | file (f : File)
  /-- A directory inside, by its components. -/
  | inside (folder : List String)
  | outside

/-- Whether there is a directory inside under these components. -/
def hasFolder (d : Directory) (folder : List String) : Bool :=
  d.files.any fun (components, _) =>
    folder.isPrefixOf components && folder.length < components.length

/-- What is found under a name in a directory inside. -/
def enter (d : Directory) (folder : List String) (name : String) : Except SystemFault Place :=
  let path := folder ++ [name]
  match d.files.lookup path with
  | some f => .ok (.file f)
  | none => if d.hasFolder path then .ok (.inside path) else .error (.ofAbsentName name)

/-- Follows one component. -/
def step (d : Directory) (place : Place) (component : String) : Except SystemFault Place :=
  match place, component with
  | .file _, _ => .error .notADirectory
  | .inside folder, "" | .inside folder, "." => .ok (.inside folder)
  | .inside [], ".." => .ok .outside
  | .inside folder, ".." => .ok (.inside folder.dropLast)
  | .inside folder, name => d.enter folder name
  | .outside, "" | .outside, "." | .outside, ".." => .ok .outside
  | .outside, name => .error (.ofAbsentName name)

/-- The files that can be reached by paths from the directory. -/
def lookup (d : Directory) : Files := fun path => do
  if let some fault := SystemFault.ofPath? path then throw fault
  let start := if path.startsWith "/" then Place.outside else .inside []
  match ← (components path).foldlM d.step start with
  | .file f => return f
  | .inside _ | .outside => return .directory

end Directory

end ScriptTree
