import ScriptTree.CommandLine.Directory

/-! The program: reads the files that the arguments name, runs the command on them and prints what
it says. -/
namespace ScriptTree.Main

/-- A fault as the system reports it. -/
def faultOf : IO.Error → SystemFault
  | .noFileOrDirectory .. => .notFound
  | .inappropriateType _ 20 _ => .notADirectory
  | .inappropriateType _ 21 _ => .isADirectory
  | .invalidArgument _ 36 _ => .nameTooLong
  | .permissionDenied _ code _ => ⟨s!"Permission denied (os error {code})"⟩
  | e => ⟨toString e⟩

/-- Counts the bytes of an open file, and keeps them as long as there are not too many. -/
partial def readRest (h : IO.FS.Handle) (size : Nat) (bytes : ByteArray) : IO File := do
  let chunk ← h.read 65536
  if chunk.isEmpty then return ⟨size, fun _ => .ok bytes⟩
  let size := size + chunk.size
  readRest h size (if File.maxSize < size then .empty else bytes ++ chunk)

/-- What stands under a path. -/
def fetch (path : String) : IO (Except SystemFault File) := do
  if let some fault := SystemFault.ofPath? path then return .error fault
  match ← (IO.FS.Handle.mk path .read).toBaseIO with
  | .error e => return .error (faultOf e)
  | .ok h =>
    match ← (readRest h 0 .empty).toBaseIO with
    | .error e => return .ok ⟨0, fun _ => .error (faultOf e)⟩
    | .ok file => return .ok file

/-- Runs a command on the files of the system. -/
def runCommand (command : Command) : IO UInt32 := do
  let found ← command.files.mapM fun path => do return (path, ← fetch path)
  let outcome := command.run fun path => (found.lookup path).getD (.error .notFound)
  IO.print outcome.output
  if let some failure := outcome.failure then IO.eprintln failure.message
  return outcome.exitCode.toUInt32

end ScriptTree.Main

open ScriptTree in
def main (args : List String) : IO UInt32 := do
  match Command.ofArguments args with
  | .ok command => ScriptTree.Main.runCommand command
  | .error e =>
    if e.exitCode = 0 then IO.println e.message else IO.eprintln e.message
    return e.exitCode.toUInt32
