import ImageTrust.Proofs.CommandLine.Comparing
import ImageTrust.Proofs.CommandLine.Running
import ImageTrust.Proofs.Config.EmptyFile
import ImageTrust.Proofs.Workspace.Placing

/-! # Runs without a configuration file

A run without a configuration file is compared with the run that finds an empty one in its place. The
variables that override a configuration are looked up only where there is a file, so that the two runs
differ where one of them matters.
-/

namespace ImageTrust.CommandLine

open Text

variable {w : Workspace} {place : List String} {environment vars : Variables}
variable {arguments : List String} {configPath path log log' : String} {verbose : Bool}
variable {request : DockerfileRequest} {config : Config} {notices : List Config.Notice}

/-- The variables that a configuration file is read with. -/
def variablesBeside (disk : Disk Id) (environment : Variables) (configPath : String) :
    Except ReadError Variables :=
  (Config.variablesFor disk environment environment (Config.directoryOf disk configPath)).2

/-- The ways in which an empty configuration file matters for a run of the `dockerfile` command. -/
inductive EmptyFileMatters (w : Workspace) (environment : Variables) (place : List String)
    (configPath : String) (request : DockerfileRequest) : Prop
  /-- The environment file beside it is no text. -/
  | environmentFile (e : ReadError)
      (hvars : variablesBeside (w.touch place).disk environment configPath = .error e)
  /-- A variable names the image, and no argument does. -/
  | image (vars : Variables) (name : String)
      (hvars : variablesBeside (w.touch place).disk environment configPath = .ok vars)
      (himage : nonEmpty request.image = none) (hdockerfile : nonEmpty request.dockerfile = none)
      (hname : Config.filled? vars Config.imageVariable = some name)
  /-- A variable lists certificates, no argument does, and the arguments give an image. -/
  | certificates (vars : Variables) (list name : String)
      (hvars : variablesBeside (w.touch place).disk environment configPath = .ok vars)
      (hlist : Config.filled? vars Config.certificatesVariable = some list)
      (hparts : Config.colonParts list ≠ []) (hnone : request.certificates = [])
      (himage : (chooseImage w.disk request {}).2 = .ok (some name)) (hname : name ≠ "")
  /-- The Dockerfile that is given is the configuration file, or is looked for behind it. -/
  | dockerfile (path : String) (hsource : imageSource? request {} = some path)
      (hpath : w.LeadsThrough path place)

/-! ## Rendered fragments -/

theorem render_nil (image : String) (user : Option String) :
    Fragment.render (Plan.of image []) user = "" :=
  rfl

/-- A plan with certificates begins with the copying of the first. -/
theorem printed_render_ne {certificates : List String} (h : certificates ≠ []) (image : String)
    (user : Option String) : printed (Fragment.render (Plan.of image certificates) user) ≠ "" := by
  obtain ⟨certificate, others, rfl⟩ := List.exists_cons_of_ne_nil h
  have hcommands : (Plan.of image (certificate :: others)).commands.isEmpty = false := by
    simp [Plan.of, Certificate.installCommands, Certificate.systemCommands]
  have hhead : ∃ rest,
      (Fragment.render (Plan.of image (certificate :: others)) user).toList = 'C' :: rest := by
    rw [Fragment.render, hcommands]
    simp [Plan.of, Certificate.copyEntries, Fragment.copyLine]
  obtain ⟨rest, hrest⟩ := hhead
  rw [printed, hrest, dropSequences_cons_of_ne (by decide)]
  simp

/-! ## Conclusions -/

/-- An image that has been found in both cases leads to the same end, unless there are certificates only
in one of them. -/
theorem agrees_conclude_iff (hlog : Terminated log.toList) (hlog' : Terminated log'.toList)
    (huser : config.user = none) (image : Except Config.ImageError (Option String)) :
    (conclude verbose log request {} image).Agrees (conclude verbose log' request config image) ↔
      ¬∃ name, image = .ok (some name) ∧ name ≠ "" ∧ request.certificates = [] ∧
        config.certificates ≠ [] := by
  cases image with
  | error e =>
      refine iff_of_true ?_ (by rintro ⟨_, ⟨⟩, -⟩)
      rcases e with (⟨fault, path⟩ | fault) | e
      · cases fault with
        | badName => exact agrees_crashed _
        | _ => exact agrees_failed hlog hlog' _
      · exact agrees_crashed _
      · exact agrees_crashed _
  | ok image =>
      cases himage : nonEmpty image with
      | none =>
          rw [conclude_of_no_image himage, conclude_of_no_image himage]
          refine iff_of_true (agrees_failed hlog hlog' _) ?_
          rintro ⟨name, heq, hname, -⟩
          cases heq
          simp [nonEmpty, hname] at himage
      | some name =>
          obtain ⟨rfl, hname⟩ := nonEmpty_eq_some_iff.mp himage
          rw [conclude_of_image himage, conclude_of_image himage, huser]
          by_cases hchosen : request.certificates = [] ∧ config.certificates ≠ []
          · refine iff_of_false (fun hagrees => ?_) fun h => h ⟨name, rfl, hname, hchosen⟩
            have hempty : printed "" = "" := by simp [printed, dropSequences]
            have hstdout := hagrees.stdout
            rw [chosenCertificates_of_none hchosen.1, chosenCertificates_of_none hchosen.1] at hstdout
            rw [render_nil, hempty] at hstdout
            exact printed_render_ne hchosen.2 _ _ hstdout.symm
          · refine iff_of_true ?_ (by rintro ⟨_, -, -, h⟩; exact hchosen h)
            rw [chosenCertificates_eq hchosen]
            exact agrees_of_success rfl rfl rfl rfl

/-! ## Configurations -/

/-- Variables say nothing about a Dockerfile. -/
theorem imageSource?_ofOverrides (request : DockerfileRequest) (vars : Variables) :
    imageSource? request (Config.ofOverrides vars) = imageSource? request {} := by
  rw [imageSource?, imageSource?]
  cases nonEmpty request.image with
  | some image => rfl
  | none =>
      cases nonEmpty request.dockerfile with
      | some path => rfl
      | none => cases nonEmpty (Config.ofOverrides vars).image <;> rfl

theorem certificates_ofOverrides_ne_nil_iff :
    (Config.ofOverrides vars).certificates ≠ [] ↔
      ∃ list, Config.filled? vars Config.certificatesVariable = some list ∧
        Config.colonParts list ≠ [] := by
  rw [Config.ofOverrides]
  cases Config.filled? vars Config.certificatesVariable <;> simp

theorem nonEmpty_image_ofOverrides (vars : Variables) :
    nonEmpty (Config.ofOverrides vars).image = Config.filled? vars Config.imageVariable := by
  simp [Config.ofOverrides, nonEmpty, Config.filled?]

section Missing

variable (hmissing : w.entry? place = none)

include hmissing

theorem refusal?_touch (request : DockerfileRequest) :
    refusal? (w.touch place).disk request = refusal? w.disk request := by
  cases hpath : request.dockerfile with
  | none => simp [refusal?, hpath]
  | some path =>
      by_cases hnul : '\x00' ∈ path.toList
      · rw [refusal?_of_nul hpath hnul, refusal?_of_nul hpath hnul]
      by_cases hthrough : w.LeadsThrough path place
      · have hname : ∀ path', request.dockerfile = some path' → '\x00' ∉ path'.toList := by
          intro path' hpath'
          cases hpath.symm.trans hpath'
          exact hnul
        have hkind := Workspace.kind_of_leadsThrough hmissing hthrough
        have hkind' := Workspace.kind_touch_of_leadsThrough hmissing hthrough
        have hread' := Workspace.read_touch_of_leadsThrough hmissing hthrough
        rw [refusal?_eq_none hname, refusal?_eq_none hname]
        all_goals
          rintro ⟨path', hpath', -, hrefused⟩
          cases hpath.symm.trans hpath'
        · rw [hkind] at hrefused
          simp at hrefused
        · rcases hrefused with hdirectory | ⟨-, hdenied⟩
          · rcases hkind' with hfile | herror <;> cases hdirectory.symm.trans ‹_›
          · rcases hread' with hok | herror <;> cases hdenied.symm.trans ‹_›
      · have hkind := Workspace.kind_touch_of_not_leadsThrough hthrough
        have hread := Workspace.read_touch_of_not_leadsThrough hthrough
        simp only [refusal?, hpath, Disk.forbids, hkind, hread]

variable (hpath : w.LeadsTo configPath place)

include hpath

theorem runDockerfile_missing :
    runDockerfile w.disk environment verbose configPath request =
      runWith w.disk verbose "" request {} := by
  have hkind := Workspace.kind_of_leadsThrough hmissing hpath.leadsThrough
  exact runDockerfile_of_ok (exhausts_of_error hkind) (loadConfig_of_error hkind)

theorem loadConfig_touch :
    loadConfig (w.touch place).disk environment configPath =
      Config.load (w.touch place).disk environment environment configPath :=
  loadConfig_of_kind (Workspace.kind_touch_of_leadsTo hmissing hpath)

theorem runDockerfile_touch_of_ok
    (hvars : Config.variablesFor (w.touch place).disk environment environment
      (Config.directoryOf (w.touch place).disk configPath) = (notices, .ok vars)) :
    runDockerfile (w.touch place).disk environment verbose configPath request =
      runWith (w.touch place).disk verbose (logText verbose (notices.map noticeLine)) request
        (Config.ofOverrides vars) := by
  have hread := Workspace.read_touch_of_leadsTo hmissing hpath
  exact runDockerfile_of_ok (exhausts_of_sufficient (fun _ => rfl) _ _)
    ((loadConfig_touch hmissing hpath).trans (Config.load_of_nil hvars hread))

theorem runDockerfile_touch_of_error {e : ReadError}
    (hvars : Config.variablesFor (w.touch place).disk environment environment
      (Config.directoryOf (w.touch place).disk configPath) = (notices, .error e)) :
    runDockerfile (w.touch place).disk environment verbose configPath request =
      failed (logText verbose (notices.map noticeLine)) e.message :=
  runDockerfile_of_error (exhausts_of_sufficient (fun _ => rfl) _ _)
    ((loadConfig_touch hmissing hpath).trans (Config.load_of_error hvars))

end Missing

/-! ## Errors that are told apart -/

theorem exists_fault_of_variablesFor {directory : String} {given : Variables} {e : ReadError}
    (h : Config.variablesFor w.disk environment given directory = (notices, .error e)) :
    ∃ fault, e = .notUtf8 fault := by
  cases hkind : w.disk.kind (Config.environmentPath directory) with
  | error fault =>
      rw [Config.variablesFor_of_error hkind] at h
      cases h
  | ok kind =>
      cases kind with
      | directory =>
          rw [Config.variablesFor_of_directory hkind] at h
          cases h
      | file =>
          obtain ⟨bytes, hbytes⟩ := Workspace.exists_read_of_kind_file hkind
          have hread := Disk.readText_of_bytes hbytes
          cases htext : ofBytes bytes with
          | ok text =>
              rw [htext] at hread
              rw [Config.variablesFor_of_text hkind hread] at h
              cases h
          | error fault =>
              rw [htext] at hread
              rw [Config.variablesFor_of_readError hkind hread] at h
              cases h
              exact ⟨fault, rfl⟩

theorem newline_not_mem_noImage : '\n' ∉ "no base image given".toList := by
  simp

theorem exists_message_noImage : ∃ rest, "no base image given".toList = 'n' :: rest := by
  simp

theorem exists_message_utf8Fault (fault : Utf8Fault) :
    ∃ rest, fault.message.toList = '\'' :: rest := by
  unfold Utf8Fault.message
  simp

theorem exists_message_fileError {fault : FileFault} (h : fault ≠ .badName) (path : String) :
    ∃ rest, (FileError.message ⟨fault, path⟩).toList = '[' :: rest := by
  cases fault with
  | badName => exact absurd rfl h
  | _ => simp [FileError.message]

/-- An unreadable environment file is an error that no run without a configuration has. -/
theorem not_agrees_conclude_notUtf8 (hlog : Terminated log.toList) (hlog' : Terminated log'.toList)
    (image : Except Config.ImageError (Option String)) (fault : Utf8Fault) :
    ¬(conclude verbose log request config image).Agrees
      (failed log' (ReadError.notUtf8 fault).message) := by
  obtain ⟨rest', hmessage'⟩ := exists_message_utf8Fault fault
  cases image with
  | error e =>
      rcases e with (⟨other, path⟩ | other) | e
      · by_cases hname : other = .badName
        · subst hname
          exact fun h => by cases h.crash
        · obtain ⟨rest, hmessage⟩ := exists_message_fileError hname path
          rw [conclude_of_file hname]
          refine not_agrees_failed hlog hlog' (newline_not_mem_fileError _)
            (newline_not_mem_utf8Fault fault) ?_
          rw [hmessage, ReadError.message, hmessage']
          exact dropSequences_ne List.not_mem_nil (by decide) (by decide) (by decide)
      · exact fun h => by cases h.crash
      · exact fun h => by cases h.crash
  | ok image =>
      cases himage : nonEmpty image with
      | none =>
          rw [conclude_of_no_image himage]
          refine not_agrees_failed hlog hlog' newline_not_mem_noImage
            (newline_not_mem_utf8Fault fault) ?_
          obtain ⟨rest, hmessage⟩ := exists_message_noImage
          rw [hmessage, ReadError.message, hmessage']
          exact dropSequences_ne List.not_mem_nil (by decide) (by decide) (by decide)
      | some name =>
          rw [conclude_of_image himage]
          exact fun h => by cases h.exitCode

/-! ## Images -/

theorem checkedImageOfFile_touch_of_not_leadsThrough (h : ¬w.LeadsThrough path place) :
    Config.checkedImageOfFile (w.touch place).disk [] path =
      Config.checkedImageOfFile w.disk [] path := by
  have hread := Workspace.read_touch_of_not_leadsThrough h
  have hlimits : Config.limits (w.touch place).disk = Config.limits w.disk := rfl
  simp only [Config.checkedImageOfFile, Config.excessOfFile?, Config.imageOfFile, Disk.readText, hread,
    hlimits]

/-- A Dockerfile that is looked for at the place of the configuration file is not found there, or is
found to be empty, or is looked for behind a file: the errors differ. -/
theorem not_agrees_runWith_of_leadsThrough (hmissing : w.entry? place = none)
    (hlog : Terminated log.toList) (hlog' : Terminated log'.toList)
    (hsource : imageSource? request {} = some path) (hsource' : imageSource? request config = some path)
    (hpath : w.LeadsThrough path place) :
    ¬(runWith w.disk verbose log request {}).Agrees
      (runWith (w.touch place).disk verbose log' request config) := by
  have hread := Disk.readText_of_error (Workspace.read_of_leadsThrough hmissing hpath)
  have hnotFound : FileFault.notFound ≠ .badName := by decide
  have hnotDirectory : FileFault.notDirectory ≠ .badName := by decide
  rw [runWith_of_error hsource hread, conclude_of_file hnotFound]
  rcases Workspace.read_touch_of_leadsThrough hmissing hpath with hread' | hread'
  · rw [runWith_of_nil hsource' (Disk.readText_of_nil hread')]
    refine not_agrees_failed hlog hlog' (newline_not_mem_fileError _) newline_not_mem_noImage ?_
    obtain ⟨rest, hmessage⟩ := exists_message_fileError hnotFound path
    obtain ⟨rest', hmessage'⟩ := exists_message_noImage
    rw [hmessage, hmessage']
    exact dropSequences_ne List.not_mem_nil (by decide) (by decide) (by decide)
  · rw [runWith_of_error hsource' (Disk.readText_of_error hread'), conclude_of_file hnotDirectory]
    refine not_agrees_failed hlog hlog' (newline_not_mem_fileError _) (newline_not_mem_fileError _) ?_
    have hmark : '\x1b' ∉ "[Errno 2".toList := by simp
    have hmessage : ∃ rest,
        (FileError.message ⟨.notFound, path⟩).toList = "[Errno 2".toList ++ ']' :: rest := by
      simp [FileError.message]
    have hmessage' : ∃ rest,
        (FileError.message ⟨.notDirectory, path⟩).toList = "[Errno 2".toList ++ '0' :: rest := by
      simp [FileError.message]
    obtain ⟨rest, hmessage⟩ := hmessage
    obtain ⟨rest', hmessage'⟩ := hmessage'
    rw [hmessage, hmessage']
    exact dropSequences_ne hmark (by decide) (by decide) (by decide)

theorem agrees_runWith_of_not_leadsThrough (hlog : Terminated log.toList)
    (hlog' : Terminated log'.toList) (huser : config.user = none)
    (hsource : imageSource? request {} = some path) (hsource' : imageSource? request config = some path)
    (hpath : ¬w.LeadsThrough path place) :
    (runWith w.disk verbose log request {}).Agrees
        (runWith (w.touch place).disk verbose log' request config) ↔
      ¬∃ name, (chooseImage w.disk request {}).2 = .ok (some name) ∧ name ≠ "" ∧
        request.certificates = [] ∧ config.certificates ≠ [] := by
  rw [runWith_eq, runWith_eq, chooseImage_of_source hsource, chooseImage_of_source hsource',
    checkedImageOfFile_touch_of_not_leadsThrough hpath]
  exact agrees_conclude_iff (terminated_append_logText hlog _ _)
    (terminated_append_logText hlog' _ _) huser _

/-- Without a Dockerfile, the image is given or is that of the variables. -/
theorem agrees_runWith_of_no_source (hlog : Terminated log.toList) (hlog' : Terminated log'.toList)
    (hsource : imageSource? request {} = none) :
    (runWith w.disk verbose log request {}).Agrees
        (runWith (w.touch place).disk verbose log' request (Config.ofOverrides vars)) ↔
      ¬(nonEmpty request.image = none ∧ nonEmpty request.dockerfile = none ∧
          (Config.filled? vars Config.imageVariable).isSome) ∧
        ¬∃ name, (chooseImage w.disk request {}).2 = .ok (some name) ∧ name ≠ "" ∧
          request.certificates = [] ∧ (Config.ofOverrides vars).certificates ≠ [] := by
  have hsource' := (imageSource?_ofOverrides request vars).trans hsource
  have hconfig : nonEmpty ({} : Config).image = none := rfl
  rw [chooseImage_of_no_source hsource, runWith_of_no_source hsource, runWith_of_no_source hsource',
    nonEmpty_image_ofOverrides, hconfig]
  cases himage : nonEmpty request.image with
  | some name =>
      rw [Option.some_or, Option.some_or, agrees_conclude_iff hlog hlog' rfl]
      simp
  | none =>
      have hdockerfile := dockerfile_eq_none_of_no_source hsource himage
      rw [Option.or_none, Option.none_or, conclude_of_no_image rfl]
      cases hname : Config.filled? vars Config.imageVariable with
      | none =>
          rw [conclude_of_no_image rfl]
          refine iff_of_true (agrees_failed hlog hlog' _) ⟨?_, ?_⟩
          · rintro ⟨-, -, ⟨⟩⟩
          · rintro ⟨_, ⟨⟩, -⟩
      | some name =>
          rw [← nonEmpty_image_ofOverrides] at hname
          have hne := (nonEmpty_eq_some_iff.mp hname).2
          rw [conclude_of_image (nonEmpty_eq_some_iff.mpr ⟨rfl, hne⟩)]
          refine iff_of_false (fun h => by cases h.exitCode) fun h => h.1 ⟨rfl, hdockerfile, rfl⟩

/-! ## Runs -/

theorem emptyFileMatters_iff
    (hvars : variablesBeside (w.touch place).disk environment configPath = .ok vars) :
    EmptyFileMatters w environment place configPath request ↔
      (nonEmpty request.image = none ∧ nonEmpty request.dockerfile = none ∧
          (Config.filled? vars Config.imageVariable).isSome) ∨
        (∃ name, (chooseImage w.disk request {}).2 = .ok (some name) ∧ name ≠ "" ∧
          request.certificates = [] ∧ (Config.ofOverrides vars).certificates ≠ []) ∨
        ∃ path, imageSource? request {} = some path ∧ w.LeadsThrough path place := by
  rw [certificates_ofOverrides_ne_nil_iff, Option.isSome_iff_exists]
  constructor
  · intro h
    cases h with
    | environmentFile e h => cases hvars.symm.trans h
    | image vars' name h himage hdockerfile hname =>
        cases hvars.symm.trans h
        exact .inl ⟨himage, hdockerfile, name, hname⟩
    | certificates vars' list name h hlist hparts hnone himage hname =>
        cases hvars.symm.trans h
        exact .inr (.inl ⟨name, himage, hname, hnone, list, hlist, hparts⟩)
    | dockerfile path hsource hpath => exact .inr (.inr ⟨path, hsource, hpath⟩)
  · rintro (⟨himage, hdockerfile, name, hname⟩ | ⟨name, himage, hname, hnone, list, hlist, hparts⟩ |
      ⟨path, hsource, hpath⟩)
    · exact .image vars name hvars himage hdockerfile hname
    · exact .certificates vars list name hvars hlist hparts hnone himage hname
    · exact .dockerfile path hsource hpath

theorem agrees_runDockerfile_iff (hmissing : w.entry? place = none)
    (hpath : w.LeadsTo configPath place) :
    (runDockerfile w.disk environment verbose configPath request).Agrees
        (runDockerfile (w.touch place).disk environment verbose configPath request) ↔
      ¬EmptyFileMatters w environment place configPath request := by
  have hlog : Terminated "".toList := .inl rfl
  rw [runDockerfile_missing hmissing hpath]
  cases hvars : Config.variablesFor (w.touch place).disk environment environment
      (Config.directoryOf (w.touch place).disk configPath) with
  | mk notices result =>
      have hbeside : variablesBeside (w.touch place).disk environment configPath = result := by
        rw [variablesBeside, hvars]
      have hlog' := terminated_logText verbose (notices.map noticeLine)
      cases result with
      | error e =>
          -- The run with the empty file has an error of its own.
          obtain ⟨fault, rfl⟩ := exists_fault_of_variablesFor hvars
          rw [runDockerfile_touch_of_error hmissing hpath hvars]
          refine iff_of_false ?_ fun h => h (.environmentFile _ hbeside)
          exact not_agrees_conclude_notUtf8 (terminated_append_logText hlog _ _) hlog' _ fault
      | ok vars =>
          -- Both runs look for the image in the same place, since variables name no Dockerfile.
          rw [runDockerfile_touch_of_ok hmissing hpath hvars, emptyFileMatters_iff hbeside]
          cases hsource : imageSource? request {} with
          | none =>
              rw [agrees_runWith_of_no_source hlog hlog' hsource]
              simp
          | some path =>
              have hsource' := (imageSource?_ofOverrides request vars).trans hsource
              by_cases hthrough : w.LeadsThrough path place
              · refine iff_of_false ?_ fun h => h (.inr (.inr ⟨path, rfl, hthrough⟩))
                exact not_agrees_runWith_of_leadsThrough hmissing hlog hlog' hsource hsource' hthrough
              · rw [agrees_runWith_of_not_leadsThrough hlog hlog' rfl hsource hsource' hthrough]
                have hgiven : ¬(nonEmpty request.image = none ∧ nonEmpty request.dockerfile = none ∧
                    (Config.filled? vars Config.imageVariable).isSome) := by
                  rintro ⟨himage, hdockerfile, -⟩
                  have hnone : imageSource? request {} = none := by
                    rw [imageSource?, himage, hdockerfile]
                    rfl
                  cases hnone.symm.trans hsource
                simp [hgiven, hthrough]

/-- A run without a configuration file agrees with the run that finds an empty one, except where the
empty file matters. -/
theorem agrees_touch_iff_not_emptyFileMatters (hmissing : w.entry? place = none)
    (hplace : ∀ configPath verbose request,
      readInvocation arguments = .ok ⟨configPath, verbose, .dockerfile request⟩ →
        w.LeadsTo configPath place) :
    (run w.disk environment arguments).Agrees (run (w.touch place).disk environment arguments) ↔
      ∀ configPath verbose request,
        readInvocation arguments = .ok ⟨configPath, verbose, .dockerfile request⟩ →
          refusal? w.disk request = none →
            ¬EmptyFileMatters w environment place configPath request := by
  cases hread : readInvocation arguments with
  | error e =>
      rw [run, run, hread]
      exact iff_of_true (.refl _) (by rintro _ _ _ ⟨⟩)
  | ok invocation =>
      obtain ⟨configPath, verbose, asked⟩ := invocation
      cases asked with
      | dockerfile request =>
          have hpath := hplace configPath verbose request hread
          rw [run_of_dockerfile hread, run_of_dockerfile hread, refusal?_touch hmissing]
          cases hrefusal : refusal? w.disk request with
          | some outcome =>
              refine iff_of_true (.refl _) ?_
              rintro _ _ _ heq
              cases heq
              rw [hrefusal]
              rintro ⟨⟩
          | none =>
              rw [Option.getD_none, Option.getD_none, agrees_runDockerfile_iff hmissing hpath]
              constructor
              · rintro h _ _ _ heq -
                cases heq
                exact h
              · intro h
                exact h configPath verbose request rfl hrefusal
      | _ =>
          rw [run, run, hread]
          exact iff_of_true (.refl _) (by rintro _ _ _ ⟨⟩)

/-! ## Runs in an empty directory -/

/-- The place of the configuration file in an otherwise empty working directory. -/
def defaultPlace : List String :=
  ["w", defaultConfigPath]

theorem leadsTo_defaultPlace : (Workspace.empty ["w"]).LeadsTo defaultConfigPath defaultPlace :=
  ⟨⟨by decide, by decide, by decide⟩, rfl⟩

/-- An image that is given as an argument goes before that of a variable. -/
theorem agrees_touch_of_given_image :
    Workspace.entry? (Workspace.empty ["w"]) defaultPlace = none ∧
      (run (Workspace.empty ["w"]).disk [(Config.imageVariable, "debian")]
        ["dockerfile", "-b", "alpine", "ca.crt"]).Agrees
      (run ((Workspace.empty ["w"]).touch defaultPlace).disk [(Config.imageVariable, "debian")]
        ["dockerfile", "-b", "alpine", "ca.crt"]) := by
  have hread : readInvocation ["dockerfile", "-b", "alpine", "ca.crt"] =
      .ok ⟨defaultConfigPath, false, .dockerfile ⟨some "alpine", none, none, ["ca.crt"]⟩⟩ := rfl
  refine ⟨rfl, (agrees_touch_iff_not_emptyFileMatters rfl ?_).mpr ?_⟩
  · intro configPath verbose request h
    cases hread.symm.trans h
    exact leadsTo_defaultPlace
  · intro configPath verbose request h _ hmatters
    cases hread.symm.trans h
    cases hmatters with
    | environmentFile e hvars => cases hvars
    | image vars name _ himage _ _ => cases himage
    | certificates vars list name _ _ _ hnone _ _ => cases hnone
    | dockerfile path hsource _ => cases hsource

/-- Without a configuration file, a variable that names the image is left aside. -/
theorem not_forall_agrees_touch :
    ¬∀ (w : Workspace) (place : List String) (environment : Variables) (arguments : List String),
      w.entry? place = none →
        (∀ configPath verbose request,
          readInvocation arguments = .ok ⟨configPath, verbose, .dockerfile request⟩ →
            w.LeadsTo configPath place) →
          (run w.disk environment arguments).Agrees
            (run (w.touch place).disk environment arguments) := by
  intro h
  have hread : readInvocation ["dockerfile", "ca.crt"] =
      .ok ⟨defaultConfigPath, false, .dockerfile ⟨none, none, none, ["ca.crt"]⟩⟩ := rfl
  have hagrees := h (Workspace.empty ["w"]) defaultPlace [(Config.imageVariable, "alpine")]
    ["dockerfile", "ca.crt"] rfl fun configPath verbose request heq => by
      cases hread.symm.trans heq
      exact leadsTo_defaultPlace
  rw [run_of_dockerfile hread, run_of_dockerfile hread, refusal?_touch rfl] at hagrees
  exact (agrees_runDockerfile_iff rfl leadsTo_defaultPlace).mp hagrees
    (.image [(Config.imageVariable, "alpine")] "alpine" rfl rfl rfl rfl)

end ImageTrust.CommandLine
