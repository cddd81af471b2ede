import ImageTrust.Text.Blank

/-! # Paths

Names of files, with slashes between their components.
-/

namespace ImageTrust.Path

def isAbsolute (path : String) : Bool :=
  path.toList.head? = some '/'

/-- The components of a path as written, empty ones included. -/
def components (path : String) : List String :=
  (Text.splitAt '/' path.toList).map String.ofList

/-- A path as seen from a directory. -/
def join (directory path : String) : String :=
  if isAbsolute path then path
  else if directory.isEmpty || directory.toList.getLast? = some '/' then directory ++ path
  else directory ++ "/" ++ path

/-- Components without those that change nothing, each `..` taking away the one before it. -/
def simplify (kept : List String) : List String → List String
  | [] => kept.reverse
  | c :: cs =>
    if c = "" || c = "." then simplify kept cs
    else if c = ".." then simplify kept.tail cs
    else simplify (c :: kept) cs

/-- A path from the root, without superfluous components. Two slashes at its beginning are kept, more
are one. -/
def absolute (workingDirectory path : String) : String :=
  let full := join workingDirectory path
  let root :=
    match full.toList with
    | '/' :: '/' :: '/' :: _ => "/"
    | '/' :: '/' :: _ => "//"
    | _ => "/"
  root ++ String.intercalate "/" (simplify [] (components full))

/-- The directory of a path: what stands before its last slash. -/
def parent (path : String) : String :=
  let head := Text.dropEndWhile (· ≠ '/') path.toList
  let trimmed := Text.dropEndWhile (· = '/') head
  String.ofList (if trimmed.isEmpty then head else trimmed)

end ImageTrust.Path
