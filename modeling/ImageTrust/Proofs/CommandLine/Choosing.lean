import ImageTrust.Proofs.CommandLine.Running
import ImageTrust.Proofs.Config.EmptyFile
import ImageTrust.Proofs.Dockerfile.Excess
import ImageTrust.Proofs.Workspace.Placing

/-! # The choice of image, certificates and user

A run takes each of them from its arguments or from its configuration. It prints the whole fragment for
what it takes, or nothing at all if there is no image to be had. A Dockerfile with an array that is too
large does not tell its image.
-/

namespace ImageTrust.CommandLine

variable {disk : Disk Id} {environment : Variables} {arguments : List String}
variable {configPath path image log : String} {verbose : Bool}
variable {request : DockerfileRequest} {config : Config}

/-! ## Choices -/

/-- The base image of a Dockerfile that is read as a text and has no array that is too large. -/
def HoldsImage (disk : Disk Id) (path image : String) : Prop :=
  ∃ text, disk.readText path = .ok text ∧ Dockerfile.excess? (Config.limits disk) text = none ∧
    nonEmpty (Dockerfile.baseImage? [] text) = some image

/-- The image of a run. What is absent or empty is passed over; a Dockerfile that is given is not, even
if there is no image to be had from it. -/
inductive TakesImage (disk : Disk Id) (request : DockerfileRequest) (config : Config) (image : String) :
    Prop
  | given (himage : nonEmpty request.image = some image)
  | givenDockerfile (path : String) (himage : nonEmpty request.image = none)
      (hpath : nonEmpty request.dockerfile = some path) (hholds : HoldsImage disk path image)
  | configured (himage : nonEmpty request.image = none)
      (hdockerfile : nonEmpty request.dockerfile = none)
      (hconfigured : nonEmpty config.image = some image)
  | configuredDockerfile (path : String) (himage : nonEmpty request.image = none)
      (hdockerfile : nonEmpty request.dockerfile = none) (hconfigured : nonEmpty config.image = none)
      (hpath : nonEmpty config.dockerfile = some path) (hholds : HoldsImage disk path image)

/-- The user of a run: the one that is given, else that of the configuration. -/
def chosenUser (request : DockerfileRequest) (config : Config) : Option String :=
  (nonEmpty request.user).or config.user

/-- Arguments of the `dockerfile` command that are not refused before anything is read. -/
structure Accepts (disk : Disk Id) (arguments : List String) (configPath : String) (verbose : Bool)
    (request : DockerfileRequest) : Prop where
  asks : readInvocation arguments = .ok ⟨configPath, verbose, .dockerfile request⟩
  unrefused : refusal? disk request = none

/-- The configuration of a run is not there, or it is read without fault. The Dockerfile that the run
reads, if it reads one, spells characters only. -/
structure Prepared (disk : Disk Id) (environment : Variables) (configPath : String)
    (request : DockerfileRequest) (config : Config) : Prop where
  loads : (loadConfig disk environment configPath).2 = .ok config
  fits : exhausts disk environment configPath = false
  legible : LegibleConfig disk environment configPath
  source : ∀ path text, imageSource? request config = some path → disk.readText path = .ok text →
    Dockerfile.SpellsCharacters text

/-! ## Ends of a run -/

structure Outcome.Prints (outcome : Outcome) (text : String) : Prop where
  exitCode : outcome.exitCode = 0
  stdout : outcome.stdout = text
  crash : outcome.crash = none

structure Outcome.PrintsNothing (outcome : Outcome) : Prop where
  exitCode : outcome.exitCode = 1
  stdout : outcome.stdout = ""

theorem prints_conclude {found : Option String} (h : nonEmpty found = some image) :
    (conclude verbose log request config (.ok found)).Prints
      (printed (Fragment.render (Plan.of image (chosenCertificates request config))
        (chosenUser request config))) := by
  rw [conclude_of_image h]
  exact ⟨rfl, rfl, rfl⟩

theorem printsNothing_conclude_of_no_image {found : Option String} (h : nonEmpty found = none) :
    (conclude verbose log request config (.ok found)).PrintsNothing := by
  rw [conclude_of_no_image h]
  exact ⟨rfl, rfl⟩

theorem printsNothing_conclude_of_error (e : Config.ImageError) :
    (conclude verbose log request config (.error e)).PrintsNothing := by
  rcases e with (⟨fault, path⟩ | fault) | e
  · by_cases hname : fault = .badName
    · subst hname
      exact ⟨rfl, rfl⟩
    · rw [conclude_of_file hname]
      exact ⟨rfl, rfl⟩
  · exact ⟨rfl, rfl⟩
  · exact ⟨rfl, rfl⟩

/-! ## The image that is chosen -/

theorem takesImage_of_source (h : imageSource? request config = some path) :
    TakesImage disk request config image ↔ HoldsImage disk path image := by
  constructor
  · intro htakes
    cases htakes with
    | given himage => simp [imageSource?, himage] at h
    | givenDockerfile path' himage hpath hholds =>
        obtain rfl : path' = path := by simpa [imageSource?, himage, hpath] using h
        exact hholds
    | configured himage hdockerfile hconfigured =>
        simp [imageSource?, himage, hdockerfile, hconfigured] at h
    | configuredDockerfile path' himage hdockerfile hconfigured hpath hholds =>
        obtain rfl : path' = path := by
          simpa [imageSource?, himage, hdockerfile, hconfigured, hpath] using h
        exact hholds
  · intro hholds
    cases himage : nonEmpty request.image with
    | some name => simp [imageSource?, himage] at h
    | none =>
        cases hdockerfile : nonEmpty request.dockerfile with
        | some path' =>
            obtain rfl : path' = path := by simpa [imageSource?, himage, hdockerfile] using h
            exact .givenDockerfile path' himage hdockerfile hholds
        | none =>
            cases hconfigured : nonEmpty config.image with
            | some name => simp [imageSource?, himage, hdockerfile, hconfigured] at h
            | none =>
                have hpath : nonEmpty config.dockerfile = some path := by
                  simpa [imageSource?, himage, hdockerfile, hconfigured] using h
                exact .configuredDockerfile path himage hdockerfile hconfigured hpath hholds

theorem takesImage_of_no_source (h : imageSource? request config = none) :
    TakesImage disk request config image ↔
      (nonEmpty request.image).or (nonEmpty config.image) = some image := by
  constructor
  · intro htakes
    cases htakes with
    | given himage => rw [himage, Option.some_or]
    | givenDockerfile path himage hpath hholds => simp [imageSource?, himage, hpath] at h
    | configured himage hdockerfile hconfigured => rw [himage, Option.none_or, hconfigured]
    | configuredDockerfile path himage hdockerfile hconfigured hpath hholds =>
        simp [imageSource?, himage, hdockerfile, hconfigured, hpath] at h
  · intro hchosen
    cases himage : nonEmpty request.image with
    | some name =>
        rw [himage, Option.some_or] at hchosen
        exact .given (himage.trans hchosen)
    | none =>
        rw [himage, Option.none_or] at hchosen
        exact .configured himage (dockerfile_eq_none_of_no_source h himage) hchosen

theorem nonEmpty_or (text other : Option String) :
    nonEmpty ((nonEmpty text).or (nonEmpty other)) = (nonEmpty text).or (nonEmpty other) := by
  cases htext : nonEmpty text with
  | some name => exact nonEmpty_eq_some_iff.mpr ⟨rfl, (nonEmpty_eq_some_iff.mp htext).2⟩
  | none =>
      cases hother : nonEmpty other with
      | some name => exact nonEmpty_eq_some_iff.mpr ⟨rfl, (nonEmpty_eq_some_iff.mp hother).2⟩
      | none => rfl

/-! ## Runs -/

theorem prints_runWith (h : TakesImage disk request config image) :
    (runWith disk verbose log request config).Prints
      (printed (Fragment.render (Plan.of image (chosenCertificates request config))
        (chosenUser request config))) := by
  cases hsource : imageSource? request config with
  | some path =>
      obtain ⟨text, hread, hexcess, himage⟩ := (takesImage_of_source hsource).mp h
      rw [runWith_eq, chooseImage_of_source hsource, checkedImageOfFile_of_ok hread hexcess]
      exact prints_conclude himage
  | none =>
      have himage := (takesImage_of_no_source hsource).mp h
      rw [runWith_of_no_source hsource]
      exact prints_conclude ((nonEmpty_or _ _).trans himage)

theorem printsNothing_runWith (h : ∀ image, ¬TakesImage disk request config image) :
    (runWith disk verbose log request config).PrintsNothing := by
  cases hsource : imageSource? request config with
  | some path =>
      cases hread : disk.readText path with
      | error e =>
          rw [runWith_of_error hsource hread]
          exact printsNothing_conclude_of_error _
      | ok text =>
          rw [runWith_eq, chooseImage_of_source hsource]
          cases hexcess : Dockerfile.excess? (Config.limits disk) text with
          | some e =>
              rw [checkedImageOfFile_of_excess hread hexcess]
              exact printsNothing_conclude_of_error _
          | none =>
              rw [checkedImageOfFile_of_ok hread hexcess]
              refine printsNothing_conclude_of_no_image (Option.eq_none_iff_forall_ne_some.mpr ?_)
              intro image himage
              exact h image ((takesImage_of_source hsource).mpr ⟨text, hread, hexcess, himage⟩)
  | none =>
      rw [runWith_of_no_source hsource]
      refine printsNothing_conclude_of_no_image (Option.eq_none_iff_forall_ne_some.mpr ?_)
      intro image himage
      rw [nonEmpty_or] at himage
      exact h image ((takesImage_of_no_source hsource).mpr himage)

theorem exists_run_eq_runWith (haccepts : Accepts disk arguments configPath verbose request)
    (hprepared : Prepared disk environment configPath request config) :
    ∃ log, run disk environment arguments = runWith disk verbose log request config := by
  refine ⟨logText verbose ((loadConfig disk environment configPath).1.map noticeLine), ?_⟩
  rw [run_of_dockerfile haccepts.asks, haccepts.unrefused, Option.getD_none]
  exact runDockerfile_of_ok hprepared.fits (Prod.ext rfl hprepared.loads)

/-- With an image, a user and certificates among the arguments, nothing else is looked at. -/
theorem stdout_run_of_given {user : String} (haccepts : Accepts disk arguments configPath verbose request)
    (hprepared : Prepared disk environment configPath request config)
    (himage : nonEmpty request.image = some image) (huser : nonEmpty request.user = some user)
    (hcertificates : request.certificates ≠ []) :
    (run disk environment arguments).stdout =
      printed (Fragment.render (Plan.of image request.certificates) (some user)) := by
  obtain ⟨log, hrun⟩ := exists_run_eq_runWith haccepts hprepared
  have hchosen : chosenCertificates request config = request.certificates := by
    simp [chosenCertificates, hcertificates]
  have hprints : (runWith disk verbose log request config).Prints
      (printed (Fragment.render (Plan.of image (chosenCertificates request config))
        (chosenUser request config))) :=
    prints_runWith (.given himage)
  rw [hrun, hprints.stdout, hchosen, chosenUser, huser, Option.some_or]

/-- A run that is accepted and finds no fault with its configuration prints the fragment for the image,
the certificates and the user that it takes. It prints nothing if there is no image, in particular if
the Dockerfile it looks into cannot be opened. If all three are given, the configuration does not matter. -/
theorem prints_chosen (haccepts : Accepts disk arguments configPath verbose request)
    (hprepared : Prepared disk environment configPath request config) :
    (∀ image, TakesImage disk request config image →
        (run disk environment arguments).Prints
          (printed (Fragment.render (Plan.of image (chosenCertificates request config))
            (chosenUser request config)))) ∧
      ((∀ image, ¬TakesImage disk request config image) →
        (run disk environment arguments).PrintsNothing) ∧
      (∀ path fault, imageSource? request config = some path → disk.read path = .error fault →
        (run disk environment arguments).PrintsNothing) ∧
      (nonEmpty request.image ≠ none → nonEmpty request.user ≠ none → request.certificates ≠ [] →
        ∀ (disk' : Disk Id) (environment' : Variables) (config' : Config),
          Accepts disk' arguments configPath verbose request →
            Prepared disk' environment' configPath request config' →
              (run disk' environment' arguments).stdout = (run disk environment arguments).stdout) := by
  obtain ⟨log, hrun⟩ := exists_run_eq_runWith haccepts hprepared
  have hnothing : (∀ image, ¬TakesImage disk request config image) →
      (run disk environment arguments).PrintsNothing := by
    rw [hrun]
    exact printsNothing_runWith
  refine ⟨?_, hnothing, ?_, ?_⟩
  · rw [hrun]
    exact fun image => prints_runWith
  · intro path fault hsource hread
    refine hnothing fun image htakes => ?_
    obtain ⟨text, htext, -⟩ := (takesImage_of_source hsource).mp htakes
    cases (Disk.readText_of_error hread).symm.trans htext
  · intro himage huser hcertificates disk' environment' config' haccepts' hprepared'
    obtain ⟨image, himage⟩ := Option.ne_none_iff_exists'.mp himage
    obtain ⟨user, huser⟩ := Option.ne_none_iff_exists'.mp huser
    rw [stdout_run_of_given haccepts hprepared himage huser hcertificates,
      stdout_run_of_given haccepts' hprepared' himage huser hcertificates]

/-! ## A run with everything given -/

/-- A command line that gives an image, a user and a certificate. -/
def givingArguments : List String :=
  ["dockerfile", "-b", "alpine", "-u", "app", "ca.crt"]

/-- What it asks for. -/
def givingRequest : DockerfileRequest where
  image := some "alpine"
  dockerfile := none
  user := some "app"
  certificates := ["ca.crt"]

theorem accepts_givingArguments (disk : Disk Id) :
    Accepts disk givingArguments defaultConfigPath false givingRequest :=
  ⟨rfl, rfl⟩

/-- Nothing is read to find the image, so that only the configuration has to be prepared. -/
theorem prepared_of_given (hloads : (loadConfig disk environment configPath).2 = .ok config)
    (hfits : exhausts disk environment configPath = false)
    (hlegible : LegibleConfig disk environment configPath) :
    Prepared disk environment configPath givingRequest config :=
  ⟨hloads, hfits, hlegible, by rintro _ _ ⟨⟩⟩

/-- A variable that names another image changes nothing, whether or not there is a configuration file
with which it is looked up. -/
theorem prints_chosen_given :
    (run (Workspace.empty ["w"]).disk [] givingArguments).Prints
        (printed (Fragment.render (Plan.of "alpine" ["ca.crt"]) (some "app"))) ∧
      (run ((Workspace.empty ["w"]).touch ["w", defaultConfigPath]).disk
          [(Config.imageVariable, "debian")] givingArguments).stdout =
        (run (Workspace.empty ["w"]).disk [] givingArguments).stdout := by
  have haccepts := fun w : Workspace => accepts_givingArguments w.disk
  have hmissing : Prepared (Workspace.empty ["w"]).disk [] defaultConfigPath givingRequest {} :=
    prepared_of_given rfl rfl (by rintro text ⟨⟩)
  have hload : loadConfig ((Workspace.empty ["w"]).touch ["w", defaultConfigPath]).disk
      [(Config.imageVariable, "debian")] defaultConfigPath =
        ([], .ok (Config.ofOverrides [(Config.imageVariable, "debian")])) :=
    (loadConfig_of_kind rfl).trans (Config.load_of_nil rfl rfl)
  have hexpanded : Config.expanded? ((Workspace.empty ["w"]).touch ["w", defaultConfigPath]).disk
      [(Config.imageVariable, "debian")] [(Config.imageVariable, "debian")] defaultConfigPath =
        some "" :=
    Config.expanded?_of_nil rfl rfl
  have hempty : Prepared ((Workspace.empty ["w"]).touch ["w", defaultConfigPath]).disk
      [(Config.imageVariable, "debian")] defaultConfigPath givingRequest
        (Config.ofOverrides [(Config.imageVariable, "debian")]) := by
    refine prepared_of_given (by rw [hload]) (exhausts_of_sufficient (fun _ => rfl) _ _) ?_
    intro text htext
    cases hexpanded.symm.trans htext
    exact legible_of_not_mem (by decide)
  obtain ⟨hprints, -, -, hindependent⟩ := prints_chosen (haccepts (Workspace.empty ["w"])) hmissing
  refine ⟨hprints "alpine" (.given rfl), ?_⟩
  exact hindependent (by decide) (by decide) (by decide) _ _ _ (haccepts _) hempty

/-! ## A Dockerfile that does not tell its image -/

/-- Nines, one more than an integer may have. -/
theorem exists_long_integer : ∃ digits, Json.IsInteger digits ∧ Text.longestInteger < digits.length := by
  refine ⟨List.replicate (Text.longestInteger + 1) '9', ⟨fun c hc => ?_, '9', _, rfl, by decide⟩, ?_⟩
  · rw [List.eq_of_mem_replicate hc]
    rfl
  · rw [List.length_replicate]
    exact Nat.lt_succ_self _

/-- A Dockerfile with a base image and an array that is too large. -/
theorem exists_untold_image : ∃ text : String, '\r' ∉ text.toList ∧ Dockerfile.SpellsCharacters text ∧
    Dockerfile.baseImage? [] text = some "alpine" ∧
      ∃ e, Dockerfile.excess? ⟨Text.longestInteger, 950⟩ text = some e := by
  obtain ⟨digits, hinteger, hlong⟩ := exists_long_integer
  exact ⟨Dockerfile.withInteger digits,
    Dockerfile.not_mem_withInteger hinteger.digit (by decide) (by decide),
    Dockerfile.spellsCharacters_withInteger hinteger,
    Dockerfile.baseImage?_withInteger hinteger.digit,
    _, Dockerfile.excess?_withInteger hinteger hlong (by decide)⟩

/-- A run that looks for its image in a Dockerfile with an array that is too large prints nothing. -/
theorem printsNothing_of_excess {text : String} {e : Json.Excess}
    (haccepts : Accepts disk arguments configPath verbose request)
    (hprepared : Prepared disk environment configPath request config)
    (hsource : imageSource? request config = some path) (htext : disk.readText path = .ok text)
    (hexcess : Dockerfile.excess? (Config.limits disk) text = some e) :
    (run disk environment arguments).PrintsNothing := by
  obtain ⟨log, hrun⟩ := exists_run_eq_runWith haccepts hprepared
  rw [hrun, runWith_eq, chooseImage_of_source hsource, checkedImageOfFile_of_excess htext hexcess]
  exact printsNothing_conclude_of_error _

/-- The image of a Dockerfile that is read is not always taken: one of its arrays may be too large. -/
theorem not_forall_prints :
    ¬∀ (disk : Disk Id) (environment : Variables) (arguments : List String) (configPath : String)
      (verbose : Bool) (request : DockerfileRequest) (config : Config) (path text image : String),
      Accepts disk arguments configPath verbose request →
        Prepared disk environment configPath request config →
          imageSource? request config = some path → disk.readText path = .ok text →
            nonEmpty (Dockerfile.baseImage? [] text) = some image →
              (run disk environment arguments).Prints
                (printed (Fragment.render (Plan.of image (chosenCertificates request config))
                  (chosenUser request config))) := by
  intro hall
  obtain ⟨text, hreturn, hspells, himage, e, hexcess⟩ := exists_untold_image
  -- What the file holds does not matter for the way to it.
  have hdisk : ∀ bytes, ∃ disk : Disk Id, disk.read "Dockerfile" = .ok bytes ∧
      disk.kind defaultConfigPath = .error .notFound ∧
      disk.read defaultConfigPath = .error .notFound ∧
      Config.limits disk = ⟨Text.longestInteger, 950⟩ ∧
      Accepts disk namingArguments defaultConfigPath false namingRequest := fun bytes =>
    ⟨((Workspace.empty ["w"]).put ["w", "Dockerfile"] (.file bytes)).disk, rfl, rfl, rfl, rfl, rfl, rfl⟩
  obtain ⟨disk, hread, hmissing, hmissing', hlimits, haccepts⟩ := hdisk (Text.encode text.toList)
  have hsource : imageSource? namingRequest {} = some "Dockerfile" := rfl
  have htext : disk.readText "Dockerfile" = .ok text := by
    rw [Disk.readText_of_encode hread, Text.unified_of_not_mem hreturn]
  have hprepared : Prepared disk [] defaultConfigPath namingRequest {} := by
    refine ⟨by rw [loadConfig_of_error hmissing], exhausts_of_error hmissing, ?_, ?_⟩
    · intro text htext
      cases (Config.expanded?_of_readError (Disk.readText_of_error hmissing')).symm.trans htext
    · intro path text hpath hread
      cases hsource.symm.trans hpath
      cases htext.symm.trans hread
      exact hspells
  have hnothing := printsNothing_of_excess haccepts hprepared hsource htext (hlimits ▸ hexcess)
  have hprints := hall disk [] namingArguments _ _ _ {} _ _ "alpine" haccepts hprepared hsource htext
    (by rw [himage]; rfl)
  cases hnothing.exitCode.symm.trans hprints.exitCode

end ImageTrust.CommandLine
