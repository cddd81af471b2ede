import ImageTrust.Disk
import ImageTrust.EnvironmentFile
import ImageTrust.Records
import ImageTrust.Yaml.Construction

/-! # Configuration files

A configuration is written in YAML. Its placeholders are replaced before it is read, and two variables
override what it says. Variables come from the caller and from an environment file in the directory of
the configuration.
-/

namespace ImageTrust

namespace Config

/-! ## Faults -/

inductive Error
  /-- The text requires a variable that is not set. -/
  | unset (v : UnsetVariable)
  /-- The text, with its placeholders replaced, is no YAML. -/
  | yaml (fault : Yaml.Fault)
  | notMapping
  | invalid (complaints : List Complaint)
  | unreadable (e : ReadError)
  deriving DecidableEq, Repr

def Error.message : Error → String
  | .unset v => "Cannot interpolate config: " ++ v.message
  | .yaml .malformed => "Invalid YAML in config"
  | .yaml fault => fault.message
  | .notMapping => "Config must be a mapping"
  | .invalid _ => "Invalid config"
  | .unreadable e => e.message

/-! ## Texts -/

/-- The variable that overrides the image. -/
def imageVariable : String :=
  "CERTINJECT_BASE_IMAGE"

/-- The variable that overrides the certificates, with colons between them. -/
def certificatesVariable : String :=
  "CERTINJECT_CERTIFICATES"

/-- The value of a variable that is set and not empty. -/
def filled? (vars : Variables) (name : String) : Option String :=
  (vars.lookup name).filter (· ≠ "")

/-- The parts of a list with colons between them, without empty ones. -/
def colonParts (value : String) : List String :=
  ((Text.splitAt ':' value.toList).filter (!·.isEmpty)).map String.ofList

/-- The fields that the variables override. -/
def overrides (vars : Variables) : List (String × Datum) :=
  ((filled? vars imageVariable).map fun v => ("base_image", Datum.text v)).toList ++
    ((filled? vars certificatesVariable).map fun v =>
      ("certificates", Datum.ofTexts (colonParts v))).toList

/-- The fields of a text, its placeholders replaced. An empty document has none. -/
def fields (vars : Variables) (content : String) : Except Error (List (String × Datum)) := do
  let text ← (Template.expand vars content).mapError Error.unset
  match ← (Yaml.load text).mapError Error.yaml with
  | .null => return []
  | .record fields => return fields
  | _ => throw .notMapping

/-- The configuration of some fields, of which variables override some. -/
def ofFields (vars : Variables) (fields : List (String × Datum)) : Except Error Config :=
  (Config.read (.record (fields ++ overrides vars))).mapError Error.invalid

/-- The configuration of a text. -/
def ofText (vars : Variables) (content : String) : Except Error Config := do
  ofFields vars (← fields vars content)

/-! ## Files -/

/-- What is worth telling about the reading of a configuration or of a Dockerfile. -/
inductive Notice
  | badLine (line : Nat)
  | loaded (count : Nat) (path : String)
  | unexpanded (warning : UnexpandedImage)
  deriving DecidableEq, Repr

/-- A path that is relative and not empty is seen from a directory. -/
def locate (directory path : String) : String :=
  if path.isEmpty || Path.isAbsolute path then path else Path.join directory path

variable {m : Type → Type} [Monad m]

/-- The variables for a configuration: those given, then those of the environment file in a
directory. A directory in the place of that file sets none. -/
def variablesFor (disk : Disk m) (environment given : Variables) (directory : String) :
    m (List Notice × Except ReadError Variables) := do
  let path := Path.join directory ".env"
  if ← disk.has path then
    let content ←
      if ← disk.hasKind .file path then disk.readText path else pure (.ok "")
    match content with
    | .error e => return ([], .error e)
    | .ok text =>
      let file := EnvironmentFile.ofText environment text
      return (file.badLines.map .badLine ++ [.loaded file.values.length path],
        .ok (given ++ file.values))
  else return ([], .ok given)

/-- The configuration in a file. The path of its Dockerfile is seen from the directory of the file. -/
def load (disk : Disk m) (environment given : Variables) (path : String) :
    m (List Notice × Except Error Config) := do
  let directory := Path.parent (Path.absolute disk.workingDirectory path)
  let (notices, vars) ← variablesFor disk environment given directory
  match vars with
  | .error e => return (notices, .error (.unreadable e))
  | .ok vars =>
    match ← disk.readText path with
    | .error e => return (notices, .error (.unreadable e))
    | .ok content =>
      let config := (ofText vars content).map fun c =>
        { c with dockerfile := c.dockerfile.map (locate directory) }
      return (notices, config)

/-- The text of a configuration whose placeholders are replaced, if it comes to that. -/
def expanded? (disk : Disk m) (environment given : Variables) (path : String) : m (Option String) := do
  let directory := Path.parent (Path.absolute disk.workingDirectory path)
  let (_, vars) ← variablesFor disk environment given directory
  match vars, ← disk.readText path with
  | .ok vars, .ok content => return (Template.expand vars content).toOption
  | _, _ => return none

/-! ## Images -/

/-- The base image of a Dockerfile whose arrays are not too large to be read. -/
def imageOfFile (disk : Disk m) (given : Variables) (path : String) :
    m (List Notice × Except ReadError (Option String)) := do
  match ← disk.readText path with
  | .error e => return ([], .error e)
  | .ok content =>
    return ((Dockerfile.warnings given content).map .unexpanded,
      .ok (Dockerfile.baseImage? given content))

/-- Why there is no answer to the question for an image. -/
inductive ImageError
  | unreadable (e : ReadError)
  /-- An array of a Dockerfile is too large to be read. -/
  | excessive (e : Json.Excess)
  deriving DecidableEq, Repr

/-- How large the arrays of a Dockerfile may be. -/
def limits (disk : Disk m) : Json.Limits :=
  ⟨Text.longestInteger, disk.stack.nesting⟩

/-- What of the arrays of a Dockerfile is too large, if it can be read as a text. -/
def excessOfFile? (disk : Disk m) (path : String) : m (Option Json.Excess) := do
  match ← disk.readText path with
  | .error _ => return none
  | .ok content => return Dockerfile.excess? (limits disk) content

/-- The base image of a Dockerfile, unless its arrays are too large. -/
def checkedImageOfFile (disk : Disk m) (given : Variables) (path : String) :
    m (List Notice × Except ImageError (Option String)) := do
  match ← excessOfFile? disk path with
  | some e => return ([], .error (.excessive e))
  | none =>
    let (notices, image) ← imageOfFile disk given path
    return (notices, image.mapError .unreadable)

/-- The image that a configuration is about: the one it names, else that of its Dockerfile. -/
def resolveImage (disk : Disk m) (c : Config) :
    m (List Notice × Except ImageError (Option String)) :=
  match c.image.filter (· ≠ ""), c.dockerfile.filter (· ≠ "") with
  | some image, _ => return ([], .ok (some image))
  | none, some path => checkedImageOfFile disk [] path
  | none, none => return ([], .ok none)

end Config

end ImageTrust
