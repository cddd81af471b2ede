import ImageTrust.Proofs.Config.EmptyFile
import ImageTrust.Proofs.EnvironmentFile.References
import ImageTrust.Workspace

/-! # Configurations and the environment of the process

With variables of its own, a configuration depends on the environment of the process through the
references of its environment file only.
-/

namespace ImageTrust.Config

variable {disk : Disk Id} {path : String}

/-- The text of the environment file beside a configuration. -/
structure HasEnvironmentText (disk : Disk Id) (path text : String) : Prop where
  kind_eq : disk.kind (environmentPath (directoryOf disk path)) = .ok .file
  readText_eq : disk.readText (environmentPath (directoryOf disk path)) = .ok text

theorem variablesFor_congr {environment other : Variables} (given : Variables)
    (h : ∀ text, HasEnvironmentText disk path text → ∀ name ∈ EnvironmentFile.references text,
      environment.lookup name = other.lookup name) :
    variablesFor disk environment given (directoryOf disk path) =
      variablesFor disk other given (directoryOf disk path) := by
  cases hkind : disk.kind (environmentPath (directoryOf disk path)) with
  | error fault => rw [variablesFor_of_error hkind, variablesFor_of_error hkind]
  | ok kind =>
      cases kind with
      | directory =>
          have hfile : EnvironmentFile.ofText environment "" = EnvironmentFile.ofText other "" := rfl
          rw [variablesFor_of_directory hkind, variablesFor_of_directory hkind, hfile]
      | file =>
          cases htext : disk.readText (environmentPath (directoryOf disk path)) with
          | error e => rw [variablesFor_of_readError hkind htext, variablesFor_of_readError hkind htext]
          | ok text =>
              have hfile := EnvironmentFile.ofText_congr (h text ⟨hkind, htext⟩)
              rw [variablesFor_of_text hkind htext, variablesFor_of_text hkind htext, hfile]

/-! ## Public theorem -/

/-- Two processes that agree on the variables that the environment file refers to, and does not bind
before, find the same configuration with variables that are given. -/
theorem load_eq_of_agree {environment other : Variables} (given : Variables)
    (h : ∀ text, HasEnvironmentText disk path text → ∀ name ∈ EnvironmentFile.references text,
      environment.lookup name = other.lookup name) :
    load disk environment given path = load disk other given path := by
  have hvars := variablesFor_congr given h
  rw [directoryOf] at hvars
  rw [load, load, hvars]

/-! ## A reference to the environment of the process -/

/-- An environment file that hands on a variable of the process. -/
def handingOnText : String :=
  "NAME=alpine\nCERTINJECT_BASE_IMAGE=$\x7bNAME\x7d:$\x7bTAG:-3\x7d\n"

/-- An empty configuration beside that environment file. -/
def handingOn : Workspace where
  entries := [(["w"], .directory), (["w", "certinject.yml"], .file []),
    (["w", ".env"], .file handingOnText.toUTF8.toList)]
  directory := ["w"]
  environment := []

theorem environmentPath_handingOn :
    environmentPath (directoryOf handingOn.disk "certinject.yml") = "/w/.env" := by
  decide +kernel

theorem hasEnvironmentText_handingOn :
    HasEnvironmentText handingOn.disk "certinject.yml" handingOnText := by
  have hkind : handingOn.kind "/w/.env" = .ok .file := by decide +kernel
  have hread : handingOn.read "/w/.env" = .ok handingOnText.toUTF8.toList := by decide +kernel
  have htext : Text.ofBytes handingOnText.toUTF8.toList = .ok handingOnText := by decide +kernel
  refine ⟨?_, ?_⟩
  · rw [environmentPath_handingOn]
    exact hkind
  · rw [environmentPath_handingOn, Disk.readText_of_bytes hread, htext]
    rfl

theorem load_eq_of_agree_handingOn :
    (∀ text, HasEnvironmentText handingOn.disk "certinject.yml" text →
        ∀ name ∈ EnvironmentFile.references text,
          ([("NAME", "debian"), ("TAG", "4")] : Variables).lookup name =
            ([("HOME", "/root"), ("TAG", "4")] : Variables).lookup name) ∧
      load handingOn.disk [("NAME", "debian"), ("TAG", "4")] [] "certinject.yml" =
        load handingOn.disk [("HOME", "/root"), ("TAG", "4")] [] "certinject.yml" := by
  have h : ∀ text, HasEnvironmentText handingOn.disk "certinject.yml" text →
      ∀ name ∈ EnvironmentFile.references text,
        ([("NAME", "debian"), ("TAG", "4")] : Variables).lookup name =
          ([("HOME", "/root"), ("TAG", "4")] : Variables).lookup name := by
    intro text htext
    have heq := hasEnvironmentText_handingOn.readText_eq.symm.trans htext.readText_eq
    rw [← Except.ok.inj heq]
    decide +kernel
  exact ⟨h, load_eq_of_agree [] h⟩

theorem load_handingOn (environment : Variables) :
    (load handingOn.disk environment [] "certinject.yml").2 =
      .ok (ofOverrides (EnvironmentFile.ofText environment handingOnText).values) := by
  have hread : handingOn.read "certinject.yml" = .ok [] := by decide +kernel
  have hvars : variablesFor handingOn.disk environment [] (directoryOf handingOn.disk "certinject.yml") =
      (_, .ok (EnvironmentFile.ofText environment handingOnText).values) :=
    variablesFor_of_text hasEnvironmentText_handingOn.kind_eq hasEnvironmentText_handingOn.readText_eq
  rw [load_of_nil hvars hread]

/-- Variables that are given do not keep those of the process away. -/
theorem not_forall_load_eq :
    ¬ ∀ (disk : Disk Id) (given environment other : Variables) (path : String),
      (load disk environment given path).2 = (load disk other given path).2 := by
  intro hall
  have heq := hall handingOn.disk [] [] [("TAG", "4")] "certinject.yml"
  rw [load_handingOn, load_handingOn] at heq
  exact absurd heq (by decide +kernel)

end ImageTrust.Config
