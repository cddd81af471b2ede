import ImageTrust.CommandLine.Run

/-! # The program

The command line on the files and the environment of the process.
-/

namespace ImageTrust

/-- Why the system refused to open a file. A directory is opened but not read, so that its name is not
part of the refusal. -/
def FileFault.ofError : IO.Error → FileFault
  | .inappropriateType none _ _ => .isDirectory
  | .inappropriateType (some _) _ _ => .notDirectory
  | .permissionDenied .. => .denied
  | .invalidArgument _ 22 _ => .badName
  | .invalidArgument .. => .nameTooLong
  | _ => .notFound

def readBytes (path : String) : IO (Except FileFault (List UInt8)) := do
  try
    let bytes ← IO.FS.readBinFile path
    return .ok bytes.toList
  catch e => return .error (.ofError e)

/-- What a path leads to. A file that may not be read is there all the same. -/
def entryKind (path : String) : IO (Except FileFault EntryKind) := do
  match ← readBytes path with
  | .ok _ | .error .denied => return .ok .file
  | .error .isDirectory => return .ok .directory
  | .error fault => return .error fault

/-- The files of the machine. -/
def machineDisk : IO (Disk IO) := do
  return {
    workingDirectory := toString (← IO.currentDir)
    kind := entryKind
    read := readBytes }

/-- The variables of the process, as its status files list them: names and values with an equals sign
between them, each pair ended by a NUL character. -/
def processVariables : IO Variables := do
  match ← readBytes "/proc/self/environ" with
  | .error _ => return []
  | .ok bytes =>
    let text := (Text.ofBytes bytes).toOption.getD ""
    let pairs := (Text.splitAt '\x00' text.toList).map (Text.cutAt '=')
    return pairs.filterMap fun (name, value?) =>
      value?.map fun value => (String.ofList name, String.ofList value)

end ImageTrust

/-- Run the program and end with its exit code. What the program does not expect is told last. -/
def main (arguments : List String) : IO UInt32 := do
  let disk ← ImageTrust.machineDisk
  let outcome ← ImageTrust.CommandLine.run disk (← ImageTrust.processVariables) arguments
  IO.print outcome.stdout
  IO.eprint outcome.stderr
  if let some crash := outcome.crash then IO.eprintln crash.message
  return UInt32.ofNat outcome.exitCode
