import ImageTrust.ConfigFile

/-! # Variables of a configuration file

Where the variables for a configuration come from, on a disk that answers at once.
-/

namespace ImageTrust.Config

variable {disk : Disk Id} {environment given : Variables} {directory path text : String}

/-- The path of the environment file in a directory. -/
def environmentPath (directory : String) : String :=
  Path.join directory ".env"

/-- The directory of a configuration file. -/
def directoryOf (disk : Disk Id) (path : String) : String :=
  Path.parent (Path.absolute disk.workingDirectory path)

/-- What is told about an environment file that has been read. -/
def noticesOf (file : EnvironmentFile) (directory : String) : List Notice :=
  file.badLines.map .badLine ++ [.loaded file.values.length (environmentPath directory)]

theorem variablesFor_of_error {fault : FileFault}
    (h : disk.kind (environmentPath directory) = .error fault) :
    variablesFor disk environment given directory = ([], .ok given) := by
  rw [environmentPath] at h
  simp [variablesFor, Disk.has, h, bind, pure, Except.toBool]

theorem variablesFor_of_directory (h : disk.kind (environmentPath directory) = .ok .directory) :
    variablesFor disk environment given directory =
      (noticesOf (EnvironmentFile.ofText environment "") directory, .ok given) := by
  have hvalues : (EnvironmentFile.ofText environment "").values = [] := rfl
  rw [environmentPath] at h
  simp [variablesFor, Disk.has, Disk.hasKind, h, bind, pure, Except.toBool, noticesOf, hvalues,
    environmentPath]

theorem variablesFor_of_text (hkind : disk.kind (environmentPath directory) = .ok .file)
    (htext : disk.readText (environmentPath directory) = .ok text) :
    variablesFor disk environment given directory =
      (noticesOf (EnvironmentFile.ofText environment text) directory,
        .ok (given ++ (EnvironmentFile.ofText environment text).values)) := by
  rw [environmentPath] at hkind htext
  simp [variablesFor, Disk.has, Disk.hasKind, hkind, htext, bind, pure, Except.toBool, noticesOf,
    environmentPath]

theorem variablesFor_of_readError {e : ReadError}
    (hkind : disk.kind (environmentPath directory) = .ok .file)
    (htext : disk.readText (environmentPath directory) = .error e) :
    variablesFor disk environment given directory = ([], .error e) := by
  rw [environmentPath] at hkind htext
  simp [variablesFor, Disk.has, Disk.hasKind, hkind, htext, bind, pure, Except.toBool]

theorem load_of_error {notices : List Notice} {e : ReadError}
    (h : variablesFor disk environment given (directoryOf disk path) = (notices, .error e)) :
    load disk environment given path = (notices, .error (.unreadable e)) := by
  rw [directoryOf] at h
  simp [load, h, bind, pure]

theorem load_of_readError {notices : List Notice} {vars : Variables} {e : ReadError}
    (h : variablesFor disk environment given (directoryOf disk path) = (notices, .ok vars))
    (htext : disk.readText path = .error e) :
    load disk environment given path = (notices, .error (.unreadable e)) := by
  rw [directoryOf] at h
  simp [load, h, htext, bind, pure]

theorem load_of_text {notices : List Notice} {vars : Variables}
    (h : variablesFor disk environment given (directoryOf disk path) = (notices, .ok vars))
    (htext : disk.readText path = .ok text) :
    load disk environment given path =
      (notices, (ofText vars text).map fun c =>
        { c with dockerfile := c.dockerfile.map (locate (directoryOf disk path)) }) := by
  rw [directoryOf] at h
  simp [load, h, htext, bind, pure, directoryOf]

theorem expanded?_of_readError {e : ReadError} (h : disk.readText path = .error e) :
    expanded? disk environment given path = none := by
  simp only [expanded?, h, bind, pure]
  split <;> simp_all

theorem expanded?_of_text {notices : List Notice} {vars : Variables} {content : String}
    (h : variablesFor disk environment given (directoryOf disk path) = (notices, .ok vars))
    (hread : disk.readText path = .ok content) :
    expanded? disk environment given path = (Template.expand vars content).toOption := by
  rw [directoryOf] at h
  simp [expanded?, h, hread, bind, pure]

end ImageTrust.Config
