import ImageTrust.Disk
import ImageTrust.Template

/-! # Workspaces

Directories and files held in memory, with a working directory and the variables of a process. There are no
symbolic links.
-/

namespace ImageTrust

inductive Entry
  | directory
  | file (bytes : List UInt8)
  deriving DecidableEq, Repr

/-- Entries by the components of their paths from the root. -/
structure Workspace where
  entries : List (List String × Entry)
  directory : List String
  environment : Variables
  deriving Repr

namespace Workspace

/-- What stands at a place. The root is always a directory. -/
def entry? (w : Workspace) (place : List String) : Option Entry :=
  if place.isEmpty then some .directory else w.entries.lookup place

/-! ## Looking up -/

/-- The longest name of a file, in bytes. -/
def longestName : Nat :=
  255

/-- The longest path that is looked up, in bytes. -/
def longestPath : Nat :=
  4095

/-- Follow components from a place on. Every component needs a directory to start from. -/
def follow (w : Workspace) (place : List String) : List String → Except FileFault (List String)
  | [] => .ok place
  | c :: cs =>
    match w.entry? place with
    | none => .error .notFound
    | some (.file _) => .error .notDirectory
    | some .directory =>
      if c = "" || c = "." then w.follow place cs
      else if c = ".." then w.follow place.dropLast cs
      else if longestName < c.utf8ByteSize then .error .nameTooLong
      else w.follow (place ++ [c]) cs

/-- The place that a path leads to, and what stands there. -/
def find (w : Workspace) (path : String) : Except FileFault Entry :=
  if path.toList.contains '\x00' then .error .badName
  else if path.isEmpty then .error .notFound
  else if longestPath < path.utf8ByteSize then .error .nameTooLong
  else
    let start := if Path.isAbsolute path then [] else w.directory
    match w.follow start (Path.components path) with
    | .error fault => .error fault
    | .ok place =>
      match w.entry? place with
      | none => .error .notFound
      | some e => .ok e

def kind (w : Workspace) (path : String) : Except FileFault EntryKind :=
  (w.find path).map fun
    | .directory => .directory
    | .file _ => .file

def read (w : Workspace) (path : String) : Except FileFault (List UInt8) :=
  match w.find path with
  | .error fault => .error fault
  | .ok .directory => .error .isDirectory
  | .ok (.file bytes) => .ok bytes

def workingDirectory (w : Workspace) : String :=
  "/" ++ String.intercalate "/" w.directory

/-- A workspace as a program sees it. -/
def disk (w : Workspace) : Disk Id where
  workingDirectory := w.workingDirectory
  kind := w.kind
  read := w.read

/-! ## Changing -/

/-- The directories on the way to a place, the place included. -/
def steps (place : List String) : List (List String) :=
  (List.range place.length).map fun n => place.take (n + 1)

/-- A workspace that holds nothing but its working directory. -/
def empty (directory : List String) : Workspace where
  entries := (steps directory).map (·, .directory)
  directory
  environment := []

/-- The place that a path names, whether or not anything stands there. -/
def place (w : Workspace) (path : String) : List String :=
  Path.simplify [] (Path.components (Path.absolute w.workingDirectory path))

def put (w : Workspace) (place : List String) (e : Entry) : Workspace :=
  { w with entries := (place, e) :: w.entries.filter (·.1 ≠ place) }

/-- Make a directory and the directories around it. -/
def makeDirectory (w : Workspace) (path : String) : Workspace :=
  let missing := (steps (w.place path)).filter fun place => (w.entry? place).isNone
  missing.foldl (fun w place => w.put place .directory) w

/-- Write a file and make the directories around it. -/
def write (w : Workspace) (path : String) (bytes : List UInt8) : Workspace :=
  (w.makeDirectory (Path.parent path)).put (w.place path) (.file bytes)

/-- Remove an entry and all inside it. -/
def remove (w : Workspace) (path : String) : Workspace :=
  { w with entries := w.entries.filter fun (place, _) => !(w.place path).isPrefixOf place }

def setVariable (w : Workspace) (name value : String) : Workspace :=
  { w with environment := (name, value) :: w.environment.filter (·.1 ≠ name) }

def unsetVariable (w : Workspace) (name : String) : Workspace :=
  { w with environment := w.environment.filter (·.1 ≠ name) }

end Workspace

end ImageTrust
