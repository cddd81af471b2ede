import ImageTrust.Path
import ImageTrust.Text.Utf8

/-! # Disks

What a program asks of the files around it, in whatever monad the answers come, and how much its stack
holds.
-/

namespace ImageTrust

/-- Why a file cannot be opened. -/
inductive FileFault
  | notFound
  | isDirectory
  | notDirectory
  | denied
  | nameTooLong
  /-- The path holds a NUL character. -/
  | badName
  deriving DecidableEq, Repr

structure FileError where
  fault : FileFault
  path : String
  deriving DecidableEq, Repr

def FileError.message (e : FileError) : String :=
  let place := ": " ++ Text.quoted e.path
  match e.fault with
  | .notFound => "[Errno 2] No such file or directory" ++ place
  | .isDirectory => "[Errno 21] Is a directory" ++ place
  | .notDirectory => "[Errno 20] Not a directory" ++ place
  | .denied => "[Errno 13] Permission denied" ++ place
  | .nameTooLong => "[Errno 36] File name too long" ++ place
  | .badName => "embedded null byte"

/-- Why a file cannot be read as a text. -/
inductive ReadError
  | file (e : FileError)
  | notUtf8 (fault : Text.Utf8Fault)
  deriving DecidableEq, Repr

def ReadError.message : ReadError → String
  | .file e => e.message
  | .notUtf8 fault => fault.message

inductive EntryKind
  | file
  | directory
  deriving DecidableEq, Repr

/-- How much the stack of a program holds. How deep the program is when it starts to read is counted in. -/
structure Stack where
  /-- The deepest nesting of arrays and objects in the arguments of an instruction. -/
  nesting : Nat := 950
  /-- Whether the stack runs out while a configuration of some text is read. -/
  exhausts : String → Bool := fun _ => false

/-- The files that a program sees. -/
structure Disk (m : Type → Type) where
  /-- The directory from which relative paths start. -/
  workingDirectory : String
  /-- What a path leads to. -/
  kind : String → m (Except FileFault EntryKind)
  /-- The bytes of a file. -/
  read : String → m (Except FileFault (List UInt8))
  stack : Stack := {}

namespace Disk

variable {m : Type → Type} [Monad m]

/-- Whether a path leads to anything. -/
def has (disk : Disk m) (path : String) : m Bool := do
  return (← disk.kind path).toBool

/-- Whether a path leads to an entry of a kind. -/
def hasKind (disk : Disk m) (kind : EntryKind) (path : String) : m Bool := do
  match ← disk.kind path with
  | .ok k => return k = kind
  | .error _ => return false

/-- Whether a file may not be read. -/
def forbids (disk : Disk m) (path : String) : m Bool := do
  return (← disk.read path) matches .error .denied

/-- The text of a file. -/
def readText (disk : Disk m) (path : String) : m (Except ReadError String) := do
  match ← disk.read path with
  | .error fault => return .error (.file ⟨fault, path⟩)
  | .ok bytes => return (Text.ofBytes bytes).mapError .notUtf8

end Disk

end ImageTrust
