import ScriptTree.Text.Utf8

/-! Reading source files.

What the system holds is a function from paths to files, so that everything built on it can be run
on any assignment of contents, and what the system says is passed on. A file is read only after its
size has been found acceptable. -/
namespace ScriptTree

/-- Why the system refuses to do something with a path, in its own words. -/
structure SystemFault where
  message : String
deriving DecidableEq, Repr

/-- What stands under a path. -/
structure File where
  /-- The number of bytes. -/
  size : Nat
  content : Unit → Except SystemFault ByteArray

namespace File

def ofBytes (bytes : ByteArray) : File := ⟨bytes.size, fun _ => .ok bytes⟩

/-- The number of bytes of the largest source that is read. -/
def maxSize : Nat := 100 * 1024 * 1024

end File

/-- What the system holds. -/
abbrev Files := String → Except SystemFault File

/-- Why a source could not be read. -/
inductive ReadFailure where
  | inaccessible (path : String) (fault : SystemFault)
  | tooLarge (path : String) (size : Nat)
  | unreadable (path : String) (fault : SystemFault)
  | notText (path : String)
deriving DecidableEq, Repr

def ReadFailure.message : ReadFailure → String
  | inaccessible path fault => s!"Cannot access file '{path}': {fault.message}"
  | tooLarge path size =>
    s!"Source file '{path}' is too large ({size} bytes, max {File.maxSize} bytes)"
  | unreadable path fault => s!"Error reading file '{path}': {fault.message}"
  | notText path => s!"Error reading file '{path}': stream did not contain valid UTF-8"

/-- The source under a path. -/
def Files.read (files : Files) (path : String) : Except ReadFailure String :=
  match files path with
  | .error fault => .error (.inaccessible path fault)
  | .ok file =>
    if File.maxSize < file.size then .error (.tooLarge path file.size)
    else match file.content () with
      | .error fault => .error (.unreadable path fault)
      | .ok bytes =>
        match Utf8.decode bytes with
        | .ok source => .ok source
        | .error _ => .error (.notText path)

end ScriptTree
