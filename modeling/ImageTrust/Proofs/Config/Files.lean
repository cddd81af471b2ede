import ImageTrust.Proofs.Config.Precedence
import ImageTrust.Proofs.Disk.Reading
import ImageTrust.Proofs.Workspace.Neighbours

/-! # Configurations in files

A configuration in a file is that of its text, with the variables that are given and those of the
environment file beside it, and with the path of its Dockerfile seen from where it stands. It does not
matter how the path of the file is written.
-/

namespace ImageTrust.Config

open Workspace (neighbour longestPath)

variable {w : Workspace} {environment given : Variables} {path raw : String} {place : List String}

/-- The text of the environment file beside a file. A file whose path is too long is as good as none. -/
inductive EnvironmentBeside (w : Workspace) (path : String) (place : List String) : Option String → Prop
  | absent (h : w.entry? (place.dropLast ++ [".env"]) = none) : EnvironmentBeside w path place none
  | unreachable (h : longestPath < (neighbour path place ".env").utf8ByteSize) :
      EnvironmentBeside w path place none
  | present {text : String}
      (hfile : w.entry? (place.dropLast ++ [".env"]) = some (.file (Text.encode text.toList)))
      (hreach : (neighbour path place ".env").utf8ByteSize ≤ longestPath) :
      EnvironmentBeside w path place (some text)

/-- A name has the value that it is given. Else it has the value that the environment file sets it to. -/
inductive Means (environment given : Variables) : Option String → String → String → Prop
  | given {text? : Option String} {name value : String} (h : given.lookup name = some value) :
      Means environment given text? name value
  | set {text name value : String} (hfree : name ∉ given.map Prod.fst)
      (h : EnvironmentFile.Sets environment (EnvironmentFile.bindingsOf (Text.unified text)) name value) :
      Means environment given (some text) name value

/-- The path of a Dockerfile, as written and as seen from the file that it is written in. -/
inductive SeenFrom (path : String) (place : List String) : Option String → Option String → Prop
  | none : SeenFrom path place none none
  | empty : SeenFrom path place (some "") (some "")
  | absolute {d : String} (h : Path.isAbsolute d) : SeenFrom path place (some d) (some d)
  | relative {d : String} (hne : d ≠ "") (h : ¬ Path.isAbsolute d) :
      SeenFrom path place (some d) (some (neighbour path place d))

/-! ## The environment file -/

theorem means_none_iff {name value : String} :
    given.lookup name = some value ↔ Means environment given none name value := by
  constructor
  · exact .given
  · rintro ⟨h⟩
    exact h

theorem means_some_iff {text name value : String} :
    (given ++ (EnvironmentFile.ofText environment (Text.unified text)).values).lookup name = some value ↔
      Means environment given (some text) name value := by
  rw [List.lookup_append]
  constructor
  · intro h
    cases hgiven : given.lookup name with
    | some v =>
        rw [hgiven, Option.some_or] at h
        exact .given (hgiven.trans h)
    | none =>
        rw [hgiven, Option.none_or] at h
        exact .set (lookup_eq_none_iff_key.mp hgiven) (EnvironmentFile.lookup_values_iff.mp h)
  · rintro (h | ⟨hfree, h⟩)
    · rw [h, Option.some_or]
    · rw [lookup_eq_none_iff_key.mpr hfree, Option.none_or]
      exact EnvironmentFile.lookup_values_iff.mpr h

section WellFormed

variable {bytes : List UInt8} (hw : w.WellFormed) (h : w.LeadsTo path place)
  (hfile : w.entry? place = some (.file bytes))

include hw h hfile

theorem join_directoryOf {name : String} (hname : ¬ Path.isAbsolute name) :
    Path.join (directoryOf w.disk path) name = neighbour path place name :=
  hw.join_parent h hfile hname

theorem exists_variablesFor {text? : Option String} (hbeside : EnvironmentBeside w path place text?) :
    ∃ notices vars,
      variablesFor w.disk environment given (directoryOf w.disk path) = (notices, .ok vars) ∧
        ∀ name value, vars.lookup name = some value ↔ Means environment given text? name value := by
  have hpath : environmentPath (directoryOf w.disk path) = neighbour path place ".env" :=
    join_directoryOf hw h hfile (by decide)
  have hleads : (neighbour path place ".env").utf8ByteSize ≤ longestPath →
      w.LeadsTo (neighbour path place ".env") (place.dropLast ++ [".env"]) :=
    hw.leadsTo_neighbour hfile (by decide)
  have hunread {fault : FileFault} (hkind : w.disk.kind (neighbour path place ".env") = .error fault) :
      variablesFor w.disk environment given (directoryOf w.disk path) = ([], .ok given) :=
    variablesFor_of_error (hpath ▸ hkind)
  have hlong (hlength : longestPath < (neighbour path place ".env").utf8ByteSize) :
      variablesFor w.disk environment given (directoryOf w.disk path) = ([], .ok given) :=
    (Workspace.exists_kind_eq_error_of_long hlength).elim fun _ hkind => hunread hkind
  cases hbeside with
  | absent hmissing =>
      refine ⟨[], given, ?_, fun name value => means_none_iff⟩
      by_cases hreach : (neighbour path place ".env").utf8ByteSize ≤ longestPath
      · exact hunread (Workspace.kind_of_leadsTo_missing (hleads hreach) hmissing)
      · exact hlong (Nat.lt_of_not_le hreach)
  | unreachable hlength => exact ⟨[], given, hlong hlength, fun name value => means_none_iff⟩
  | present hbeside hreach =>
      have hkind := Workspace.kind_of_leadsTo (hleads hreach) hbeside
      have htext := Disk.readText_of_encode (Workspace.read_of_leadsTo (hleads hreach) hbeside)
      rw [← hpath] at hkind htext
      exact ⟨_, _, variablesFor_of_text hkind htext, fun name value => means_some_iff⟩

/-! ## The path of the Dockerfile -/

theorem seenFrom_locate (d : Option String) :
    SeenFrom path place d (d.map (locate (directoryOf w.disk path))) := by
  cases d with
  | none => exact .none
  | some d =>
      rw [Option.map_some, locate]
      by_cases hempty : d = ""
      · subst hempty
        exact .empty
      by_cases habsolute : Path.isAbsolute d
      · rw [if_pos (by simp [habsolute])]
        exact .absolute habsolute
      · rw [if_neg (by simp [hempty, habsolute]), join_directoryOf hw h hfile habsolute]
        exact .relative hempty habsolute

end WellFormed

theorem SeenFrom.unique {d seen seen' : Option String} (h : SeenFrom path place d seen)
    (h' : SeenFrom path place d seen') : seen = seen' := by
  cases h with
  | none => cases h'; rfl
  | empty =>
      cases h' with
      | empty => rfl
      | absolute => rfl
      | relative hne => exact absurd rfl hne
  | absolute habsolute =>
      cases h' with
      | empty => rfl
      | absolute => rfl
      | relative _ hrelative => exact absurd habsolute hrelative
  | relative hne hrelative =>
      cases h' with
      | empty => exact absurd rfl hne
      | absolute habsolute => exact absurd habsolute hrelative
      | relative => rfl

theorem SeenFrom.empty_or_absolute {d : Option String} {seen : String}
    (h : SeenFrom path place d (some seen)) : seen = "" ∨ Path.isAbsolute seen := by
  cases h with
  | empty => exact .inl rfl
  | absolute h => exact .inr h
  | relative hne h => exact .inr (Workspace.isAbsolute_neighbour path place _)

/-! ## Public theorem -/

/-- A file is read as a text is, with some variables. Only the path of the Dockerfile is another: one that
is relative is seen from where the file stands. -/
structure LoadsAs (w : Workspace) (environment given : Variables) (path : String) (place : List String)
    (text : String) (vars : Variables) : Prop where
  error_iff : ∀ e, (load w.disk environment given path).2 = .error e ↔ ofText vars text = .error e
  ok_iff : ∀ c, (load w.disk environment given path).2 = .ok c ↔
    ∃ d, ofText vars text = .ok { c with dockerfile := d } ∧ SeenFrom path place d c.dockerfile
  empty_or_absolute : ∀ c, (load w.disk environment given path).2 = .ok c →
    ∀ d, c.dockerfile = some d → d = "" ∨ Path.isAbsolute d

theorem loadsAs_of_load_eq {text : String} {vars : Variables} {bytes : List UInt8} (hw : w.WellFormed)
    (h : w.LeadsTo path place) (hfile : w.entry? place = some (.file bytes))
    (hload : (load w.disk environment given path).2 = (ofText vars text).map fun c =>
      { c with dockerfile := c.dockerfile.map (locate (directoryOf w.disk path)) }) :
    LoadsAs w environment given path place text vars := by
  have hok : ∀ c, (load w.disk environment given path).2 = .ok c ↔
      ∃ d, ofText vars text = .ok { c with dockerfile := d } ∧ SeenFrom path place d c.dockerfile := by
    intro c
    rw [hload]
    cases ofText vars text with
    | error e => simp [Except.map]
    | ok read =>
        have hseen := seenFrom_locate hw h hfile read.dockerfile
        constructor
        · rintro ⟨⟩
          exact ⟨read.dockerfile, rfl, hseen⟩
        · rintro ⟨d, heq, hseen'⟩
          cases heq
          rw [Except.map, hseen.unique hseen']
  refine ⟨fun e => ?_, hok, fun c hc d hd => ?_⟩
  · rw [hload]
    cases ofText vars text <;> simp [Except.map]
  · obtain ⟨d', -, hseen⟩ := (hok c).mp hc
    exact (hd ▸ hseen).empty_or_absolute

/-- A configuration file, however its path is written, is read as its text is, with each variable as it is
given or else as the environment file beside it sets it. -/
theorem exists_loadsAs (environment given : Variables) {text? : Option String} (hw : w.WellFormed)
    (h : w.LeadsTo path place) (hfile : w.entry? place = some (.file (Text.encode raw.toList)))
    (hbeside : EnvironmentBeside w path place text?) :
    ∃ vars : Variables,
      (∀ name value, vars.lookup name = some value ↔ Means environment given text? name value) ∧
        LoadsAs w environment given path place (Text.unified raw) vars := by
  obtain ⟨notices, vars, hvars, hmeans⟩ := exists_variablesFor hw h hfile hbeside
  have htext := Disk.readText_of_encode (Workspace.read_of_leadsTo h hfile)
  exact ⟨vars, hmeans, loadsAs_of_load_eq hw h hfile (congrArg Prod.snd (load_of_text hvars htext))⟩

/-- A configuration with the line ends of another system, which asks for two variables. -/
def projectText : String :=
  "base_image: $\x7bBASE\x7d:$\x7bTAG\x7d\r\ndockerfile: Dockerfile\r\n"

/-- That configuration beside an environment file, seen from a directory next to them. -/
def project : Workspace :=
  ((Workspace.empty ["w", "sub"]).put ["w", "certinject.yml"] (.file (Text.encode projectText.toList))).put
    ["w", ".env"] (.file (Text.encode "BASE=fedora\nTAG=1\nTAG\n".toList))

theorem wellFormed_project : project.WellFormed := by
  have hnames : ∀ c ∈ ["w", "sub"], Workspace.EntryName c :=
    List.forall_mem_cons.mpr ⟨by decide, List.forall_mem_singleton.mpr (by decide)⟩
  have hempty := Workspace.wellFormed_empty hnames
  have hconfig : Workspace.WellFormed ((Workspace.empty ["w", "sub"]).put ["w", "certinject.yml"]
      (.file (Text.encode projectText.toList))) :=
    hempty.put ((hempty ["w"] .directory rfl).concat rfl (by decide)) nofun
  exact hconfig.put ((hconfig ["w"] .directory rfl).concat rfl (by decide)) nofun

theorem exists_loadsAs_project :
    (project.WellFormed ∧ project.LeadsTo "../certinject.yml" ["w", "certinject.yml"] ∧
      project.entry? ["w", "certinject.yml"] = some (.file (Text.encode projectText.toList)) ∧
      EnvironmentBeside project "../certinject.yml" ["w", "certinject.yml"]
        (some "BASE=fedora\nTAG=1\nTAG\n")) ∧
      ∃ vars : Variables,
        (∀ name value, vars.lookup name = some value ↔
          Means [] [("TAG", "")] (some "BASE=fedora\nTAG=1\nTAG\n") name value) ∧
          LoadsAs project [] [("TAG", "")] "../certinject.yml" ["w", "certinject.yml"]
            (Text.unified projectText) vars := by
  have h : project.LeadsTo "../certinject.yml" ["w", "certinject.yml"] := by
    refine ⟨⟨by decide, by decide, by decide⟩, ?_⟩
    decide +kernel
  have hbeside : EnvironmentBeside project "../certinject.yml" ["w", "certinject.yml"]
      (some "BASE=fedora\nTAG=1\nTAG\n") :=
    .present rfl (by decide +kernel)
  exact ⟨⟨wellFormed_project, h, rfl, hbeside⟩,
    exists_loadsAs [] [("TAG", "")] wellFormed_project h rfl hbeside⟩

end ImageTrust.Config
