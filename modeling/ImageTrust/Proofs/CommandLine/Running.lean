import ImageTrust.CommandLine.Run
import ImageTrust.Proofs.Disk.Reading
import ImageTrust.Proofs.Yaml.Readers

/-! # Runs on a disk that answers at once

What a run does where its arguments are understood, step by step: the refusal of the Dockerfile that is
given, the configuration, the place where the image comes from.
-/

namespace ImageTrust.CommandLine

variable {disk : Disk Id} {environment : Variables} {arguments : List String}
variable {configPath path : String} {verbose : Bool} {log : String}
variable {request : DockerfileRequest} {config : Config}

/-! ## Images -/

/-- The path of the Dockerfile from which a run takes its image, none if it takes it from elsewhere. -/
def imageSource? (request : DockerfileRequest) (config : Config) : Option String :=
  match nonEmpty request.image, nonEmpty request.dockerfile, nonEmpty config.image with
  | none, some path, _ => some path
  | none, none, none => nonEmpty config.dockerfile
  | _, _, _ => none

theorem resolveImage_eq (disk : Disk Id) (config : Config) :
    Config.resolveImage disk config =
      match nonEmpty config.image, nonEmpty config.dockerfile with
      | some image, _ => ([], .ok (some image))
      | none, some path => Config.checkedImageOfFile disk [] path
      | none, none => ([], .ok none) :=
  rfl

theorem chooseImage_eq (disk : Disk Id) (request : DockerfileRequest) (config : Config) :
    chooseImage disk request config =
      match imageSource? request config with
      | some path => Config.checkedImageOfFile disk [] path
      | none => ([], .ok ((nonEmpty request.image).or (nonEmpty config.image))) := by
  rw [chooseImage, resolveImage_eq, imageSource?]
  cases nonEmpty request.image with
  | some image => rfl
  | none =>
      cases nonEmpty request.dockerfile with
      | some path => rfl
      | none =>
          cases nonEmpty config.image with
          | some image => rfl
          | none => cases nonEmpty config.dockerfile <;> rfl

theorem chooseImage_of_source (h : imageSource? request config = some path) :
    chooseImage disk request config = Config.checkedImageOfFile disk [] path := by
  rw [chooseImage_eq, h]

theorem chooseImage_of_no_source (h : imageSource? request config = none) :
    chooseImage disk request config =
      ([], .ok ((nonEmpty request.image).or (nonEmpty config.image))) := by
  rw [chooseImage_eq, h]

theorem dockerfile_eq_none_of_no_source (hsource : imageSource? request config = none)
    (himage : nonEmpty request.image = none) : nonEmpty request.dockerfile = none := by
  cases hdockerfile : nonEmpty request.dockerfile with
  | none => rfl
  | some path => simp [imageSource?, himage, hdockerfile] at hsource

/-! ## Dockerfiles -/

theorem checkedImageOfFile_of_error {e : ReadError} (h : disk.readText path = .error e) :
    Config.checkedImageOfFile disk [] path = ([], .error (.unreadable e)) := by
  simp [Config.checkedImageOfFile, Config.excessOfFile?, Config.imageOfFile, h, Except.mapError, bind,
    pure]

theorem checkedImageOfFile_of_excess {text : String} {e : Json.Excess}
    (h : disk.readText path = .ok text)
    (he : Dockerfile.excess? (Config.limits disk) text = some e) :
    Config.checkedImageOfFile disk [] path = ([], .error (.excessive e)) := by
  simp [Config.checkedImageOfFile, Config.excessOfFile?, h, he, bind, pure]

theorem checkedImageOfFile_of_ok {text : String} (h : disk.readText path = .ok text)
    (hexcess : Dockerfile.excess? (Config.limits disk) text = none) :
    Config.checkedImageOfFile disk [] path =
      ((Dockerfile.warnings [] text).map .unexpanded, .ok (Dockerfile.baseImage? [] text)) := by
  simp [Config.checkedImageOfFile, Config.excessOfFile?, Config.imageOfFile, h, hexcess,
    Except.mapError, bind, pure]

/-! ## Conclusions -/

/-- The certificates of a run: those that are given, else those of the configuration. -/
def chosenCertificates (request : DockerfileRequest) (config : Config) : List String :=
  if request.certificates.isEmpty then config.certificates else request.certificates

theorem chosenCertificates_of_none (h : request.certificates = []) :
    chosenCertificates request config = config.certificates := by
  simp [chosenCertificates, h]

theorem chosenCertificates_eq (h : ¬(request.certificates = [] ∧ config.certificates ≠ [])) :
    chosenCertificates request config = chosenCertificates request {} := by
  by_cases hgiven : request.certificates = []
  · have hlist : config.certificates = [] := by simpa [hgiven] using h
    rw [chosenCertificates_of_none hgiven, chosenCertificates_of_none hgiven, hlist]
  · simp [chosenCertificates, hgiven]

theorem conclude_of_image {image : Option String} {name : String} (h : nonEmpty image = some name) :
    conclude verbose log request config (.ok image) =
      { stdout := printed (Fragment.render (Plan.of name (chosenCertificates request config))
          ((nonEmpty request.user).or config.user))
        stderr := log ++
          logText verbose (detectionLines name (chosenCertificates request config)) } := by
  simp only [conclude, h]
  rfl

theorem conclude_of_no_image {image : Option String} (h : nonEmpty image = none) :
    conclude verbose log request config (.ok image) = failed log "no base image given" := by
  simp only [conclude, h]

theorem nonEmpty_eq_some_iff {text : Option String} {name : String} :
    nonEmpty text = some name ↔ text = some name ∧ name ≠ "" := by
  simp [nonEmpty, Option.filter_eq_some_iff]

theorem conclude_of_file {fault : FileFault} (h : fault ≠ .badName) :
    conclude verbose log request config (.error (.unreadable (.file ⟨fault, path⟩))) =
      failed log (FileError.message ⟨fault, path⟩) := by
  cases fault with
  | badName => exact absurd rfl h
  | _ => rfl

/-! ## Refusals -/

/-- Whether a run ends before anything is read, because the path that is given for the Dockerfile leads to
a directory or to a file that may not be read. -/
def Refuses (disk : Disk Id) (request : DockerfileRequest) : Prop :=
  ∃ path, request.dockerfile = some path ∧ '\x00' ∉ path.toList ∧
    (disk.kind path = .ok .directory ∨
      disk.kind path = .ok .file ∧ disk.read path = .error .denied)

theorem refusal?_of_nul (hpath : request.dockerfile = some path) (hnul : '\x00' ∈ path.toList) :
    refusal? disk request = some (crashed "" (.reading (.file ⟨.badName, path⟩))) := by
  simp [refusal?, hpath, hnul, pure]

theorem refusal?_of_refuses (h : Refuses disk request) :
    ∃ e, e ≠ UsageError.nothing ∧ refusal? disk request = some (misused e) := by
  obtain ⟨path, hpath, hnul, hkind | ⟨hkind, hread⟩⟩ := h
  · refine ⟨.directoryGiven dockerfileOption.shown path, by rintro ⟨⟩, ?_⟩
    simp [refusal?, hpath, hnul, hkind, pure, bind]
  · refine ⟨.unreadableGiven dockerfileOption.shown path, by rintro ⟨⟩, ?_⟩
    simp [refusal?, hpath, hnul, hkind, Disk.forbids_iff.mpr hread, pure, bind]

theorem refusal?_eq_none (hname : ∀ path, request.dockerfile = some path → '\x00' ∉ path.toList)
    (h : ¬Refuses disk request) : refusal? disk request = none := by
  cases hpath : request.dockerfile with
  | none => simp [refusal?, hpath, pure]
  | some path =>
      have hnul := hname path hpath
      cases hkind : disk.kind path with
      | error fault => simp [refusal?, hpath, hnul, hkind, pure, bind]
      | ok kind =>
          cases kind with
          | directory => exact absurd ⟨path, hpath, hnul, .inl hkind⟩ h
          | file =>
              have hread : disk.forbids path ≠ true := fun hforbids =>
                h ⟨path, hpath, hnul, .inr ⟨hkind, Disk.forbids_iff.mp hforbids⟩⟩
              simp [refusal?, hpath, hnul, hkind, hread, pure, bind]

/-! ## Runs -/

theorem run_of_dockerfile
    (h : readInvocation arguments = .ok ⟨configPath, verbose, .dockerfile request⟩) :
    run disk environment arguments =
      (refusal? disk request).getD (runDockerfile disk environment verbose configPath request) := by
  rw [run, h]
  cases hrefusal : refusal? disk request with
  | none => simp [hrefusal, bind]
  | some outcome => simp [hrefusal, bind, pure]

/-- The end of a run whose configuration cannot be read. -/
def rejected (log : String) : Config.Error → Outcome
  | .yaml fault =>
    if isReported fault then failed log (Config.Error.yaml fault).message
    else crashed log (.yaml fault)
  | e => failed log e.message

theorem runWith_eq (disk : Disk Id) (verbose : Bool) (log : String) (request : DockerfileRequest)
    (config : Config) :
    runWith disk verbose log request config =
      conclude verbose
        (log ++ logText verbose ((chooseImage disk request config).1.map noticeLine)) request config
        (chooseImage disk request config).2 :=
  rfl

/-! ## Configurations -/

-- Half of a pair of surrogates is no character, so it has no place in a text here and no proof comes to it.
-- What is said about runs is meant for configurations that spell none.
/-- A text without an escape that spells half of a pair of surrogates. A text that holds one cannot be
printed. -/
def Legible (text : String) : Prop :=
  ∀ number, Yaml.HasEscape text.toList number → ¬(0xD800 ≤ number ∧ number < 0xE000)

theorem legible_of_not_mem {text : String} (h : '\\' ∉ text.toList) : Legible text := by
  rintro number ⟨c, count, digits, rest, hsuffix, -, -⟩
  exact absurd (hsuffix.subset List.mem_cons_self) h

/-- What a run reads as its configuration is legible. -/
def LegibleConfig (disk : Disk Id) (environment : Variables) (configPath : String) : Prop :=
  ∀ text, Config.expanded? disk environment environment configPath = some text → Legible text

theorem loadConfig_of_error {fault : FileFault} (h : disk.kind configPath = .error fault) :
    loadConfig disk environment configPath = ([], .ok {}) := by
  simp [loadConfig, Disk.has_of_error h, bind, pure]

theorem loadConfig_of_kind {kind : EntryKind} (h : disk.kind configPath = .ok kind) :
    loadConfig disk environment configPath = Config.load disk environment environment configPath := by
  simp [loadConfig, Disk.has_of_kind h, bind]

/-- A configuration that is not there is not read. -/
theorem exhausts_of_error {fault : FileFault} (h : disk.kind configPath = .error fault) :
    exhausts disk environment configPath = false := by
  simp [exhausts, Disk.has_of_error h, bind, pure]

theorem exhausts_of_sufficient (h : ∀ text, disk.stack.exhausts text = false)
    (environment : Variables) (configPath : String) :
    exhausts disk environment configPath = false := by
  have hany : ∀ text : Option String, text.any disk.stack.exhausts = false := by
    intro text
    cases text with
    | none => rfl
    | some text => exact h text
  simp [exhausts, hany, bind, pure]

theorem runDockerfile_of_exhausts (h : exhausts disk environment configPath = true) :
    runDockerfile disk environment verbose configPath request =
      crashed (logText verbose ((loadConfig disk environment configPath).1.map noticeLine)) .stack := by
  simp only [runDockerfile, h, bind, pure, if_true]
  rfl

section Fitting

variable {notices : List Config.Notice} (hstack : exhausts disk environment configPath = false)

include hstack

theorem runDockerfile_of_ok (h : loadConfig disk environment configPath = (notices, .ok config)) :
    runDockerfile disk environment verbose configPath request =
      runWith disk verbose (logText verbose (notices.map noticeLine)) request config := by
  simp [runDockerfile, h, hstack, bind]

theorem runDockerfile_of_error {e : Config.Error}
    (h : loadConfig disk environment configPath = (notices, .error e)) :
    runDockerfile disk environment verbose configPath request =
      rejected (logText verbose (notices.map noticeLine)) e := by
  cases e <;> simp [runDockerfile, h, hstack, rejected, bind, pure]

end Fitting

/-! ## Runs with a configuration -/

theorem logText_nil (verbose : Bool) : logText verbose [] = "" :=
  rfl

theorem runWith_of_no_source (h : imageSource? request config = none) :
    runWith disk verbose log request config =
      conclude verbose log request config
        (.ok ((nonEmpty request.image).or (nonEmpty config.image))) := by
  rw [runWith_eq, chooseImage_of_no_source h, List.map_nil, logText_nil, String.append_empty]

theorem runWith_of_error {e : ReadError} (hsource : imageSource? request config = some path)
    (h : disk.readText path = .error e) :
    runWith disk verbose log request config =
      conclude verbose log request config (.error (.unreadable e)) := by
  rw [runWith_eq, chooseImage_of_source hsource, checkedImageOfFile_of_error h, List.map_nil,
    logText_nil, String.append_empty]

/-- An empty Dockerfile names no image. -/
theorem runWith_of_nil (hsource : imageSource? request config = some path)
    (h : disk.readText path = .ok "") :
    runWith disk verbose log request config = failed log "no base image given" := by
  have hscan : Dockerfile.scanFrom true (Dockerfile.preprocess "".toList) = [] := by
    simp [Dockerfile.preprocess, Dockerfile.dropComments, Dockerfile.dropCommentsFrom,
      Dockerfile.joinLines, Dockerfile.scanFrom, Dockerfile.afterComment?,
      Dockerfile.readInstruction?]
  have hexcess : Dockerfile.excess? (Config.limits disk) "" = none := by
    rw [Dockerfile.excess?, hscan]
    rfl
  have hstages : Dockerfile.checkedStages [] "" = [] := by
    rw [Dockerfile.checkedStages, Dockerfile.instructions, hscan]
    rfl
  have himage : nonEmpty (Dockerfile.baseImage? [] "") = none := by
    rw [Dockerfile.baseImage?, Dockerfile.stages, hstages]
    rfl
  rw [runWith_eq, chooseImage_of_source hsource, checkedImageOfFile_of_ok h hexcess,
    conclude_of_no_image himage, Dockerfile.warnings, hstages]
  simp [logText_nil]

/-! ## A command line -/

/-- A command line that names a Dockerfile. -/
def namingArguments : List String :=
  ["dockerfile", "-d", "Dockerfile", "ca.crt"]

/-- What it asks for. -/
def namingRequest : DockerfileRequest where
  image := none
  dockerfile := some "Dockerfile"
  user := none
  certificates := ["ca.crt"]

theorem readInvocation_namingArguments :
    readInvocation namingArguments = .ok ⟨defaultConfigPath, false, .dockerfile namingRequest⟩ :=
  rfl

end ImageTrust.CommandLine
