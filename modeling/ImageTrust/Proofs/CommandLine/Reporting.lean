import ImageTrust.Proofs.CommandLine.Arguments
import ImageTrust.Proofs.CommandLine.Printing
import ImageTrust.Proofs.CommandLine.Running
import ImageTrust.Proofs.Text.Utf8
import ImageTrust.Workspace

/-! # Reported errors

A run is meant to end with exit code 0, or to say what went wrong in an error line. It does, unless one of
a few faults leaves the program: a Dockerfile that is not encoded as a text is one of them.
-/

namespace ImageTrust.CommandLine

open Text

variable {disk : Disk Id} {environment : Variables} {arguments : List String}
variable {configPath path log : String} {verbose : Bool}
variable {request : DockerfileRequest} {config : Config} {outcome : Outcome}

/-- A run that ends as it is meant to: nothing leaves the program, and a run that fails prints nothing
but tells of an error. -/
structure Outcome.Reported (outcome : Outcome) : Prop where
  unbroken : outcome.crash = none
  code : outcome.exitCode = 0 ∨ outcome.exitCode = 1 ∨
    outcome.exitCode = 2 ∧ ∃ e, outcome = misused e
  told : outcome.exitCode ≠ 0 → outcome.stdout = "" ∧ HasErrorLine outcome.stderr

/-- The faults of a Dockerfile that no run reports: its path holds a NUL character, its bytes are not the
encoding of any text, or it has an array that is too large to be read. -/
inductive Unreported (disk : Disk Id) (path : String) : Prop
  | name (hread : disk.read path = .error .badName)
  | encoding (bytes : List UInt8) (hread : disk.read path = .ok bytes)
      (htext : ∀ cs, bytes ≠ encode cs)
  | array (text : String) (e : Json.Excess) (hread : disk.readText path = .ok text)
      (hexcess : Dockerfile.excess? (Config.limits disk) text = some e)

/-- The ways in which a run of the `dockerfile` command breaks off. -/
inductive BreaksOff (disk : Disk Id) (environment : Variables) (configPath : String)
    (request : DockerfileRequest) : Prop
  /-- The path that is given for the Dockerfile holds a NUL character. -/
  | name (path : String) (hgiven : request.dockerfile = some path) (hnul : '\x00' ∈ path.toList)
  /-- The configuration is too deep for the stack. -/
  | stack (hrefuses : ¬Refuses disk request) (hstack : exhausts disk environment configPath = true)
  /-- The configuration holds a value of which no scalar can be made. -/
  | config (fault : Yaml.Fault) (hrefuses : ¬Refuses disk request)
      (hload : (loadConfig disk environment configPath).2 = .error (.yaml fault))
      (hfault : isReported fault = false)
  /-- The Dockerfile of the run, given or configured, has a fault that no run reports. -/
  | dockerfile (config : Config) (path : String) (hrefuses : ¬Refuses disk request)
      (hload : (loadConfig disk environment configPath).2 = .ok config)
      (hsource : imageSource? request config = some path) (hread : Unreported disk path)

/-! ## Outcomes -/

theorem reported_of_success (hcode : outcome.exitCode = 0) (hcrash : outcome.crash = none) :
    outcome.Reported :=
  ⟨hcrash, .inl hcode, fun h => absurd hcode h⟩

theorem reported_failed (hlog : Terminated log.toList) (message : String) :
    (failed log message).Reported :=
  ⟨rfl, .inr (.inl rfl), fun _ => ⟨rfl, hasErrorLine_append hlog message⟩⟩

theorem reported_misused {e : UsageError} (h : e ≠ .nothing) : (misused e).Reported := by
  refine ⟨rfl, .inr (.inr ⟨rfl, e, rfl⟩), fun _ => ⟨rfl, ?_⟩⟩
  have hnothing : Terminated "".toList := .inl rfl
  rw [misused, if_neg h]
  simpa using hasErrorLine_append hnothing e.message

theorem not_reported_crashed (crash : Crash) : ¬(crashed log crash).Reported :=
  fun h => by cases h.unbroken

theorem reported_rejected_iff (hlog : Terminated log.toList) {e : Config.Error} :
    (rejected log e).Reported ↔ ¬∃ fault, e = .yaml fault ∧ isReported fault = false := by
  cases e with
  | yaml fault =>
      rw [rejected]
      cases hfault : isReported fault with
      | true =>
          rw [if_pos rfl]
          refine iff_of_true (reported_failed hlog _) ?_
          rintro ⟨_, heq, hunreported⟩
          cases heq
          rw [hfault] at hunreported
          cases hunreported
      | false => exact iff_of_false (not_reported_crashed _) fun h => h ⟨fault, rfl, hfault⟩
  | _ => exact iff_of_true (reported_failed hlog _) (by rintro ⟨_, ⟨⟩, -⟩)

/-! ## Dockerfiles -/

theorem reported_conclude_ok (hlog : Terminated log.toList) (image : Option String) :
    (conclude verbose log request config (.ok image)).Reported := by
  cases himage : nonEmpty image with
  | none =>
      rw [conclude_of_no_image himage]
      exact reported_failed hlog _
  | some name =>
      rw [conclude_of_image himage]
      exact reported_of_success rfl rfl

theorem reported_conclude_file (hlog : Terminated log.toList) {fault : FileFault}
    (h : fault ≠ .badName) :
    (conclude verbose log request config (.error (.unreadable (.file ⟨fault, path⟩)))).Reported := by
  rw [conclude_of_file h]
  exact reported_failed hlog _

theorem unreported_iff_of_error {fault : FileFault} (h : disk.read path = .error fault) :
    Unreported disk path ↔ fault = .badName := by
  constructor
  · intro hunreported
    cases hunreported with
    | name hname => exact Except.error.inj (h.symm.trans hname)
    | encoding bytes hbytes _ => cases h.symm.trans hbytes
    | array text e htext _ => cases (Disk.readText_of_error h).symm.trans htext
  · rintro rfl
    exact .name h

theorem unreported_iff_of_text {text : String} (h : disk.readText path = .ok text) :
    Unreported disk path ↔ ∃ e, Dockerfile.excess? (Config.limits disk) text = some e := by
  constructor
  · intro hunreported
    cases hunreported with
    | name hname => cases (Disk.readText_of_error hname).symm.trans h
    | encoding bytes hbytes hnone =>
        obtain ⟨fault, hfault⟩ := forall_ne_encode_iff.mp hnone
        rw [Disk.readText_of_bytes hbytes, hfault] at h
        cases h
    | array text' e htext hexcess =>
        cases h.symm.trans htext
        exact ⟨e, hexcess⟩
  · exact fun ⟨e, hexcess⟩ => .array text e h hexcess

theorem reported_conclude_checkedImageOfFile_iff (hlog : Terminated log.toList) :
    (conclude verbose log request config (Config.checkedImageOfFile disk [] path).2).Reported ↔
      ¬Unreported disk path := by
  cases hread : disk.read path with
  | error fault =>
      rw [checkedImageOfFile_of_error (Disk.readText_of_error hread), unreported_iff_of_error hread]
      by_cases hfault : fault = .badName
      · subst hfault
        exact iff_of_false (not_reported_crashed _) fun h => h rfl
      · exact iff_of_true (reported_conclude_file hlog hfault) hfault
  | ok bytes =>
      have hread' := Disk.readText_of_bytes hread
      cases htext : ofBytes bytes with
      | error fault =>
          rw [htext] at hread'
          rw [checkedImageOfFile_of_error hread']
          refine iff_of_false (not_reported_crashed _) fun h => h ?_
          exact .encoding bytes hread (forall_ne_encode_iff.mpr ⟨fault, htext⟩)
      | ok text =>
          rw [htext] at hread'
          rw [unreported_iff_of_text hread']
          cases hexcess : Dockerfile.excess? (Config.limits disk) text with
          | none =>
              rw [checkedImageOfFile_of_ok hread' hexcess]
              exact iff_of_true (reported_conclude_ok hlog _) (by rintro ⟨_, ⟨⟩⟩)
          | some e =>
              rw [checkedImageOfFile_of_excess hread' hexcess]
              exact iff_of_false (not_reported_crashed _) fun h => h ⟨e, rfl⟩

/-! ## Runs -/

theorem reported_runWith_iff (hlog : Terminated log.toList) :
    (runWith disk verbose log request config).Reported ↔
      ∀ path, imageSource? request config = some path → ¬Unreported disk path := by
  have hlog' := fun notices : List Config.Notice =>
    terminated_append_logText hlog verbose (notices.map noticeLine)
  rw [runWith_eq]
  cases hsource : imageSource? request config with
  | none =>
      rw [chooseImage_of_no_source hsource]
      exact iff_of_true (reported_conclude_ok (hlog' []) _) (by rintro _ ⟨⟩)
  | some path =>
      rw [chooseImage_of_source hsource, reported_conclude_checkedImageOfFile_iff (hlog' _)]
      simp

section Unrefused

variable {notices : List Config.Notice} (hrefuses : ¬Refuses disk request)
  (hname : ∀ path, request.dockerfile = some path → '\x00' ∉ path.toList)

include hrefuses hname

section Fitting

variable (hstack : exhausts disk environment configPath = false)

include hstack

theorem breaksOff_iff_of_ok
    (h : loadConfig disk environment configPath = (notices, .ok config)) :
    BreaksOff disk environment configPath request ↔
      ∃ path, imageSource? request config = some path ∧ Unreported disk path := by
  constructor
  · intro hbreaks
    cases hbreaks with
    | name path hgiven hnul => exact absurd hnul (hname path hgiven)
    | stack _ hexhausts => cases hstack.symm.trans hexhausts
    | config fault _ hload _ =>
        rw [h] at hload
        cases hload
    | dockerfile config path _ hload hsource hread =>
        rw [h] at hload
        cases hload
        exact ⟨path, hsource, hread⟩
  · rintro ⟨path, hsource, hread⟩
    exact .dockerfile config path hrefuses (by rw [h]) hsource hread

theorem breaksOff_iff_of_error {e : Config.Error}
    (h : loadConfig disk environment configPath = (notices, .error e)) :
    BreaksOff disk environment configPath request ↔
      ∃ fault, e = .yaml fault ∧ isReported fault = false := by
  constructor
  · intro hbreaks
    cases hbreaks with
    | name path hgiven hnul => exact absurd hnul (hname path hgiven)
    | stack _ hexhausts => cases hstack.symm.trans hexhausts
    | config fault _ hload hfault =>
        rw [h] at hload
        exact ⟨fault, Except.error.inj hload, hfault⟩
    | dockerfile config path _ hload _ _ =>
        rw [h] at hload
        cases hload
  · rintro ⟨fault, rfl, hfault⟩
    exact .config fault hrefuses (by rw [h]) hfault

end Fitting

theorem reported_runDockerfile_iff :
    (runDockerfile disk environment verbose configPath request).Reported ↔
      ¬BreaksOff disk environment configPath request := by
  have hlog := fun notices : List Config.Notice => terminated_logText verbose (notices.map noticeLine)
  cases hstack : exhausts disk environment configPath with
  | true =>
      rw [runDockerfile_of_exhausts hstack]
      exact iff_of_false (not_reported_crashed _) fun h => h (.stack hrefuses hstack)
  | false =>
      cases hload : loadConfig disk environment configPath with
      | mk notices config =>
          cases config with
          | ok config =>
              rw [runDockerfile_of_ok hstack hload, reported_runWith_iff (hlog notices),
                breaksOff_iff_of_ok hrefuses hname hstack hload]
              simp
          | error e =>
              rw [runDockerfile_of_error hstack hload,
                breaksOff_iff_of_error hrefuses hname hstack hload]
              exact reported_rejected_iff (hlog notices)

end Unrefused

theorem reported_run_dockerfile_iff
    (h : readInvocation arguments = .ok ⟨configPath, verbose, .dockerfile request⟩) :
    (run disk environment arguments).Reported ↔
      ¬BreaksOff disk environment configPath request := by
  rw [run_of_dockerfile h]
  -- A path with a NUL character breaks the run off before it could be refused.
  by_cases hname : ∀ path, request.dockerfile = some path → '\x00' ∉ path.toList
  · by_cases hrefuses : Refuses disk request
    · obtain ⟨e, he, hrefusal⟩ := refusal?_of_refuses hrefuses
      rw [hrefusal]
      refine iff_of_true (reported_misused he) fun hbreaks => ?_
      cases hbreaks with
      | name path hgiven hnul => exact hname path hgiven hnul
      | stack hunrefused _ => exact hunrefused hrefuses
      | config _ hunrefused _ _ => exact hunrefused hrefuses
      | dockerfile _ _ hunrefused _ _ _ => exact hunrefused hrefuses
    · rw [refusal?_eq_none hname hrefuses]
      exact reported_runDockerfile_iff hrefuses hname
  · obtain ⟨path, hname⟩ := not_forall.mp hname
    obtain ⟨hpath, hnul⟩ := Classical.not_imp.mp hname
    rw [not_not] at hnul
    rw [refusal?_of_nul hpath hnul]
    exact iff_of_false (not_reported_crashed _) fun h => h (.name path hpath hnul)

/-- A run that is given arguments, with a configuration that is legible if it reads one. -/
structure LegibleRun (disk : Disk Id) (environment : Variables) (arguments : List String) : Prop where
  ne_nil : arguments ≠ []
  legible : ∀ configPath verbose request,
    readInvocation arguments = .ok ⟨configPath, verbose, .dockerfile request⟩ →
      LegibleConfig disk environment configPath

/-- Every run that is given arguments and a legible configuration ends as it is meant to, except that a
run of the `dockerfile` command breaks off in the ways that are listed. -/
theorem reported_iff_forall_not_breaksOff (h : LegibleRun disk environment arguments) :
    (run disk environment arguments).Reported ↔
      ∀ configPath verbose request,
        readInvocation arguments = .ok ⟨configPath, verbose, .dockerfile request⟩ →
          ¬BreaksOff disk environment configPath request := by
  cases hread : readInvocation arguments with
  | error e =>
      have he : e ≠ .nothing := fun he => readInvocation_ne_nothing h.ne_nil (hread.trans (by rw [he]))
      rw [run, hread]
      exact iff_of_true (reported_misused he) (by rintro _ _ _ ⟨⟩)
  | ok invocation =>
      obtain ⟨configPath, verbose, asked⟩ := invocation
      cases asked with
      | dockerfile request =>
          rw [reported_run_dockerfile_iff hread]
          constructor
          · rintro hbreaks _ _ _ heq
            cases heq
            exact hbreaks
          · intro hbreaks
            exact hbreaks configPath verbose request rfl
      | _ =>
          rw [run, hread]
          exact iff_of_true (reported_of_success rfl rfl) (by rintro _ _ _ ⟨⟩)

/-! ## Runs on a workspace -/

theorem legibleRun_namingArguments : LegibleRun (Workspace.empty ["w"]).disk [] namingArguments := by
  refine ⟨by decide, ?_⟩
  rintro configPath verbose request hread text htext
  rw [readInvocation_namingArguments] at hread
  cases hread
  cases htext

theorem reported_of_missing_dockerfile :
    LegibleRun (Workspace.empty ["w"]).disk [] namingArguments ∧
      (run (Workspace.empty ["w"]).disk [] namingArguments).Reported := by
  refine ⟨legibleRun_namingArguments,
    (reported_iff_forall_not_breaksOff legibleRun_namingArguments).mpr ?_⟩
  intro configPath verbose request hread hbreaks
  rw [readInvocation_namingArguments] at hread
  cases hread
  cases hbreaks with
  | name path hgiven hnul =>
      cases hgiven
      revert hnul
      decide
  | stack _ hstack => cases hstack
  | config fault _ hload _ => cases hload
  | dockerfile config path _ _ hsource hread =>
      have hpath : path = "Dockerfile" := Option.some.inj (hsource.symm.trans rfl)
      subst hpath
      have hmissing : (Workspace.empty ["w"]).disk.read "Dockerfile" = .error .notFound := rfl
      cases (unreported_iff_of_error hmissing).mp hread

/-- A Dockerfile whose bytes are no text is not reported. -/
theorem not_forall_reported :
    ¬∀ bytes, (run ((Workspace.empty ["w"]).put ["w", "Dockerfile"] (.file bytes)).disk []
      namingArguments).Reported := by
  intro h
  -- The single byte starts a character of three bytes.
  have htext : ∀ cs, [0xE9] ≠ encode cs := by
    refine forall_ne_encode_iff.mpr ⟨⟨.unexpectedEnd, 0, 1, 0xE9⟩, ?_⟩
    rw [ofBytes, decodeFrom]
    rfl
  refine (reported_run_dockerfile_iff readInvocation_namingArguments).mp (h [0xE9]) ?_
  refine .dockerfile {} "Dockerfile" ?_ rfl rfl (.encoding [0xE9] rfl htext)
  rintro ⟨path, hpath, -, hkind | ⟨-, hread⟩⟩ <;> cases hpath
  · cases hkind
  · cases hread

end ImageTrust.CommandLine
