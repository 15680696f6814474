import NodeScript.Command

/-!
# The program

Reads what a command needs, does it, and writes its report.
-/

namespace NodeScript.Disk

/-- The fault of an error of the system. -/
def faultOf : IO.Error → FileFault
  | .noFileOrDirectory _ _ _ => .notFound
  | .inappropriateType _ 20 _ => .notDirectory
  | .inappropriateType _ 21 _ => .isDirectory
  | e => .other (toString e)

/-- The bytes of a file of the system. -/
def readBytes (path : String) : IO (Except FileFault ByteArray) := do
  try
    let root ← IO.currentDir
    if ← (root / path).isDir then return .error .isDirectory
    return .ok (← IO.FS.readBinFile (root / path))
  catch e => return .error (faultOf e)

/-- The text of a file of the system. -/
def readText (path : String) : IO (Except FileFault String) := do
  return decodeText (← readBytes path)

/-- The entries of a directory of the system. -/
def readEntries (path : String) : IO (Except FileFault (List DirEntry)) := do
  try
    let root ← IO.currentDir
    let entries ← (root / path).readDir
    let found ← entries.toList.mapM fun entry => do return ⟨entry.fileName, !(← entry.path.isDir)⟩
    return .ok found
  catch e => return .error (faultOf e)

/-- What a command may look at, read beforehand. A command that runs files reads each when its turn comes. -/
def gather (command : Command) : IO Files := do
  let pair (path : String) := do return (path, ← readBytes path)
  match command with
  | .run _ _ => return ⟨fun _ => .error .notFound, fun _ => .error .notFound⟩
  | .check paths =>
    let contents ← paths.mapM pair
    return ⟨fun path => (contents.lookup path).getD (.error .notFound), fun _ => .error .notFound⟩
  | .test directory =>
    let listed ← readEntries directory
    let names := match listed with
      | .ok entries => entries.map fun (entry : DirEntry) => directory ++ "/" ++ entry.name
      | .error _ => []
    let contents ← names.mapM pair
    return ⟨fun path => (contents.lookup path).getD (.error .notFound),
      fun path => if path = directory then listed else .error .notFound⟩

/-- What is left of the standard input. -/
def standardInput : IO Source := do
  let bytes ← (← IO.getStdin).readBinToEnd
  return ⟨bytes.toList⟩

end NodeScript.Disk

open NodeScript in
/-- The command line. -/
def main (args : List String) : IO UInt32 := do
  match Command.parse? args (← IO.getEnv Command.limitVariable) with
  | none =>
    IO.eprintln "usage: [--max-call-depth N] (run [--parsed] FILE... | check FILE... | test DIRECTORY)"
    return 2
  | some (command, config) =>
    let report ← match command with
      | .run paths parsed => Command.runFiles Disk.readText config parsed paths (← Disk.standardInput)
      | _ => pure (command.perform (← Disk.gather command) config ⟨[]⟩)
    IO.print report.stdout
    IO.eprint report.stderr
    return report.code.toUInt32
