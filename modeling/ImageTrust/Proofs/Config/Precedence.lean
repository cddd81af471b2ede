import ImageTrust.Proofs.Config.Isolation
import ImageTrust.Proofs.EnvironmentFile.Shadowing
import ImageTrust.Proofs.Text.Utf8

/-! # Variables that come before those of the environment file

A name that is given has the value it is given with, whatever the environment file says of it, except
where the file itself refers to that name after binding it.
-/

namespace ImageTrust.Config

variable {vars others given environment : Variables}

/-! ## Variables with the same values -/

theorem overrides_congr (h : ∀ name, vars.lookup name = others.lookup name) :
    overrides vars = overrides others := by
  simp only [overrides, filled?, h]

/-- Variables count by the value of each name. -/
theorem ofText_congr (h : ∀ name, vars.lookup name = others.lookup name) (content : String) :
    ofText vars content = ofText others content := by
  have hfields : fields vars content = fields others content :=
    fields_congr (Template.expand_congr fun name _ => h name)
  have hof : ∀ fs, ofFields vars fs = ofFields others fs := by
    intro fs
    rw [ofFields, ofFields, overrides_congr h]
  rw [ofText_eq_bind, ofText_eq_bind, hfields, funext hof]

/-! ## Public theorem -/

/-- Two environment files that differ only in what they say of names that are given lead to the same
configuration, as long as no value of another name refers to a name that is given and that the file has
bound before. -/
theorem load_eq_of_agreeOutside {disk other : Disk Id} {path text text' : String}
    (hdirectory : disk.workingDirectory = other.workingDirectory)
    (hcontent : disk.readText path = other.readText path)
    (htext : HasEnvironmentText disk path text) (htext' : HasEnvironmentText other path text')
    (hagree : EnvironmentFile.AgreeOutside (given.map Prod.fst) (EnvironmentFile.bindingsOf text)
      (EnvironmentFile.bindingsOf text'))
    (hfree : EnvironmentFile.shadowedReferences (given.map Prod.fst) []
      (EnvironmentFile.bindingsOf text) = []) :
    (load disk environment given path).2 = (load other environment given path).2 := by
  have hvars : variablesFor disk environment given (directoryOf disk path) = _ :=
    variablesFor_of_text htext.kind_eq htext.readText_eq
  have hvars' : variablesFor other environment given (directoryOf other path) = _ :=
    variablesFor_of_text htext'.kind_eq htext'.readText_eq
  have hplace : directoryOf disk path = directoryOf other path := by
    rw [directoryOf, directoryOf, hdirectory]
  have hlookup : ∀ name, (given ++ (EnvironmentFile.ofText environment text).values).lookup name =
      (given ++ (EnvironmentFile.ofText environment text').values).lookup name :=
    fun name => lookup_append_congr (EnvironmentFile.lookup_values_congr hagree hfree)
  cases hread : disk.readText path with
  | error e => rw [load_of_readError hvars hread, load_of_readError hvars' (hcontent ▸ hread)]
  | ok content =>
      rw [load_of_text hvars hread, load_of_text hvars' (hcontent ▸ hread)]
      dsimp only
      rw [ofText_congr hlookup, hplace]

/-! ## Environment files beside an empty configuration -/

/-- An empty configuration beside an environment file. -/
def besideEmpty (text : String) : Workspace where
  entries := [(["w"], .directory), (["w", "certinject.yml"], .file []),
    (["w", ".env"], .file text.toUTF8.toList)]
  directory := ["w"]
  environment := []

section BesideEmpty

variable {text : String}

theorem find_besideEmpty_environment :
    (besideEmpty text).find "/w/.env" = .ok (.file text.toUTF8.toList) := by
  have hcomponents : Path.components "/w/.env" = ["", "w", ".env"] := rfl
  have hsize : "/w/.env".utf8ByteSize = 7 := rfl
  have hsizes : "w".utf8ByteSize = 1 ∧ ".env".utf8ByteSize = 4 := ⟨rfl, rfl⟩
  simp [Workspace.find, hcomponents, hsize, hsizes, Workspace.longestPath, Workspace.longestName,
    Workspace.follow, Workspace.entry?, besideEmpty, Path.isAbsolute, List.lookup_cons]

theorem find_besideEmpty_config : (besideEmpty text).find "certinject.yml" = .ok (.file []) := by
  have hcomponents : Path.components "certinject.yml" = ["certinject.yml"] := rfl
  have hsize : "certinject.yml".utf8ByteSize = 14 := rfl
  simp [Workspace.find, hcomponents, hsize, Workspace.longestPath, Workspace.longestName,
    Workspace.follow, Workspace.entry?, besideEmpty, Path.isAbsolute, List.lookup_cons]

theorem read_besideEmpty_config : (besideEmpty text).disk.read "certinject.yml" = .ok [] := by
  change (besideEmpty text).read "certinject.yml" = _
  rw [Workspace.read, find_besideEmpty_config]

theorem readText_besideEmpty_config :
    (besideEmpty text).disk.readText "certinject.yml" = .ok "" :=
  Disk.readText_of_nil read_besideEmpty_config

theorem workingDirectory_besideEmpty : (besideEmpty text).disk.workingDirectory = "/w" := by
  have hjoin : "/" ++ String.intercalate "/" ["w"] = "/w" := rfl
  exact hjoin

theorem hasEnvironmentText_besideEmpty (h : '\r' ∉ text.toList) :
    HasEnvironmentText (besideEmpty text).disk "certinject.yml" text := by
  have hpath : environmentPath (directoryOf (besideEmpty text).disk "certinject.yml") = "/w/.env" := by
    rw [directoryOf, workingDirectory_besideEmpty]
    rfl
  have hkind : (besideEmpty text).kind "/w/.env" = .ok .file := by
    rw [Workspace.kind, find_besideEmpty_environment]
    rfl
  have hread : (besideEmpty text).read "/w/.env" = .ok text.toUTF8.toList := by
    rw [Workspace.read, find_besideEmpty_environment]
  refine ⟨?_, ?_⟩
  · rw [hpath]
    exact hkind
  · rw [hpath, Disk.readText_of_bytes hread, Text.ofBytes_toUTF8 h]
    rfl

end BesideEmpty

/-- A registry, and an image that does not come from it. -/
def registryText (registry : String) : String :=
  "HOST=" ++ registry ++ "\nNAME=alpine\nCERTINJECT_BASE_IMAGE=$\x7bNAME\x7d:3\n"

theorem load_eq_of_agreeOutside_registry :
    ((besideEmpty (registryText "a")).disk.workingDirectory =
        (besideEmpty (registryText "b")).disk.workingDirectory ∧
      (besideEmpty (registryText "a")).disk.readText "certinject.yml" =
        (besideEmpty (registryText "b")).disk.readText "certinject.yml" ∧
      HasEnvironmentText (besideEmpty (registryText "a")).disk "certinject.yml" (registryText "a") ∧
      HasEnvironmentText (besideEmpty (registryText "b")).disk "certinject.yml" (registryText "b") ∧
      EnvironmentFile.AgreeOutside ["HOST"] (EnvironmentFile.bindingsOf (registryText "a"))
        (EnvironmentFile.bindingsOf (registryText "b")) ∧
      EnvironmentFile.shadowedReferences ["HOST"] []
        (EnvironmentFile.bindingsOf (registryText "a")) = []) ∧
      (load (besideEmpty (registryText "a")).disk [] [("HOST", "prod")] "certinject.yml").2 =
        (load (besideEmpty (registryText "b")).disk [] [("HOST", "prod")] "certinject.yml").2 := by
  have htext : HasEnvironmentText (besideEmpty (registryText "a")).disk "certinject.yml"
      (registryText "a") :=
    hasEnvironmentText_besideEmpty (by decide)
  have htext' : HasEnvironmentText (besideEmpty (registryText "b")).disk "certinject.yml"
      (registryText "b") :=
    hasEnvironmentText_besideEmpty (by decide)
  have hagree : EnvironmentFile.AgreeOutside ["HOST"]
      (EnvironmentFile.bindingsOf (registryText "a")) (EnvironmentFile.bindingsOf (registryText "b")) := by
    decide
  have hfree : EnvironmentFile.shadowedReferences ["HOST"] []
      (EnvironmentFile.bindingsOf (registryText "a")) = [] :=
    rfl
  have hdirectory : (besideEmpty (registryText "a")).disk.workingDirectory =
      (besideEmpty (registryText "b")).disk.workingDirectory :=
    workingDirectory_besideEmpty.trans workingDirectory_besideEmpty.symm
  have hcontent : (besideEmpty (registryText "a")).disk.readText "certinject.yml" =
      (besideEmpty (registryText "b")).disk.readText "certinject.yml" :=
    readText_besideEmpty_config.trans readText_besideEmpty_config.symm
  exact ⟨⟨hdirectory, hcontent, htext, htext', hagree, hfree⟩,
    load_eq_of_agreeOutside hdirectory hcontent htext htext' hagree hfree⟩

/-! ## A name that is given and that the file refers to -/

/-- A registry, and an image that comes from it. -/
def mirrorText (registry : String) : String :=
  "HOST=" ++ registry ++ "\nCERTINJECT_BASE_IMAGE=$\x7bHOST\x7d/alpine\n"

theorem load_mirrorText {registry : String} (h : '\r' ∉ (mirrorText registry).toList) :
    (load (besideEmpty (mirrorText registry)).disk [] [("HOST", "prod")] "certinject.yml").2 =
      .ok (ofOverrides ([("HOST", "prod")] ++
        (EnvironmentFile.ofText [] (mirrorText registry)).values)) := by
  have htext := hasEnvironmentText_besideEmpty h
  rw [load_of_nil (variablesFor_of_text htext.kind_eq htext.readText_eq) read_besideEmpty_config]

/-- What the file says of a name that is given may reach the configuration through a reference. -/
theorem not_forall_load_eq_of_agreeOutside :
    ¬ ∀ (disk other : Disk Id) (environment given : Variables) (path text text' : String),
      disk.workingDirectory = other.workingDirectory →
      disk.readText path = other.readText path →
      HasEnvironmentText disk path text → HasEnvironmentText other path text' →
      EnvironmentFile.AgreeOutside (given.map Prod.fst) (EnvironmentFile.bindingsOf text)
        (EnvironmentFile.bindingsOf text') →
      (load disk environment given path).2 = (load other environment given path).2 := by
  intro hall
  have hfirst : '\r' ∉ (mirrorText "a").toList := by decide
  have hsecond : '\r' ∉ (mirrorText "b").toList := by decide
  have heq := hall (besideEmpty (mirrorText "a")).disk (besideEmpty (mirrorText "b")).disk []
    [("HOST", "prod")] "certinject.yml" _ _
    (workingDirectory_besideEmpty.trans workingDirectory_besideEmpty.symm)
    (readText_besideEmpty_config.trans readText_besideEmpty_config.symm)
    (hasEnvironmentText_besideEmpty hfirst) (hasEnvironmentText_besideEmpty hsecond) (by decide)
  rw [load_mirrorText hfirst, load_mirrorText hsecond] at heq
  exact absurd heq (by decide)

end ImageTrust.Config
