import ImageTrust.Fragment
import ImageTrust.Proofs.Certificate.Installation
import ImageTrust.Proofs.Dockerfile.Writing

/-! # Rendered plans are read back -/

namespace ImageTrust

open Dockerfile

/-! ## The instructions of a plan -/

def userInstructions (user : Option String) (name : String) : List Instruction :=
  if user.getD "" = "" then [] else [written "USER" name]

/-- The instructions of a plan with commands: its copy entries, and all its commands on one line, as
root if there is a user to go back to. -/
def fragmentInstructions (plan : Plan) (user : Option String) : List Instruction :=
  plan.copyEntries.map (fun entry => written "COPY" (entry.source ++ " " ++ entry.destination)) ++
    (userInstructions user "root" ++
      written "RUN" (String.intercalate " &&      " plan.commands) ::
        userInstructions user (user.getD ""))

namespace Fragment

/-! ## Reading a rendered plan -/

theorem isKeyword_copy : IsKeyword "COPY" :=
  ⟨by decide, List.all_eq_true.mp (by decide), by decide, by decide⟩

theorem isKeyword_run : IsKeyword "RUN" :=
  ⟨by decide, List.all_eq_true.mp (by decide), by decide, by decide⟩

theorem isKeyword_user : IsKeyword "USER" :=
  ⟨by decide, List.all_eq_true.mp (by decide), by decide, by decide⟩

theorem instructions_copyLines {entries : List CopyEntry}
    (h : ∀ entry ∈ entries, Plain (entry.source ++ " " ++ entry.destination).toList) (rest : String) :
    instructions (String.join (entries.map copyLine) ++ rest) =
      entries.map (fun entry => written "COPY" (entry.source ++ " " ++ entry.destination)) ++
        instructions rest := by
  induction entries with
  | nil => simp
  | cons entry entries ih =>
      have hentry := instructions_line isKeyword_copy (h entry List.mem_cons_self)
        (String.join (entries.map copyLine) ++ rest)
      have htext : String.join ((entry :: entries).map copyLine) ++ rest =
          "COPY" ++ " " ++ (entry.source ++ " " ++ entry.destination) ++ "\n" ++
            (String.join (entries.map copyLine) ++ rest) := by
        rw [List.map_cons, String.join_cons, copyLine, ← String.toList_inj]
        simp
      rw [htext, hentry, ih fun entry hmem => h entry (List.mem_cons_of_mem _ hmem)]
      rfl

theorem instructions_userLine {user : Option String} {name : String}
    (h : user.getD "" = "" ∨ Plain name.toList) (rest : String) :
    instructions (userLine user name ++ rest) = userInstructions user name ++ instructions rest := by
  by_cases huser : user.getD "" = ""
  · simp [userLine, userInstructions, huser]
  · have hname := instructions_line isKeyword_user (h.resolve_left huser) rest
    have htext : userLine user name ++ rest = "USER" ++ " " ++ name ++ "\n" ++ rest := by
      rw [userLine, if_neg (by simpa using huser), ← String.toList_inj]
      simp
    rw [htext, hname, userInstructions, if_neg huser]
    rfl

theorem instructions_runLines {commands : List String} (hne : commands ≠ [])
    (h : ∀ command ∈ commands, PlainLine command.toList) (rest : String) :
    instructions (runLines commands ++ rest) =
      written "RUN" (String.intercalate " &&      " commands) :: instructions rest := by
  obtain ⟨first, others, rfl⟩ := List.exists_cons_of_ne_nil hne
  have hrun := instructions_intercalate isKeyword_run h rest
  have htext : runLines (first :: others) ++ rest =
      "RUN" ++ " " ++ String.intercalate " && \\\n    " (first :: others) ++ "\n" ++ rest := by
    rw [runLines, ← String.toList_inj]
    simp
  rw [htext, hrun]

/-- A plan that can be written line by line is read back from what it is rendered as. -/
theorem instructions_render {plan : Plan} {user : Option String}
    (hentries : ∀ entry ∈ plan.copyEntries, Plain (entry.source ++ " " ++ entry.destination).toList)
    (hne : plan.commands ≠ []) (hcommands : ∀ command ∈ plan.commands, PlainLine command.toList)
    (huser : user.getD "" = "" ∨ Plain (user.getD "").toList) :
    instructions (render plan user) = fragmentInstructions plan user := by
  have hroot : user.getD "" = "" ∨ Plain "root".toList :=
    .inr (plainLine_of_ends rfl rfl (by decide) (by decide) (by decide)).toPlain
  have hrest := instructions_userLine huser ""
  rw [String.append_empty, instructions_empty, List.append_nil] at hrest
  rw [render, if_neg (by simpa using hne), String.append_assoc, String.append_assoc,
    instructions_copyLines hentries, instructions_userLine hroot, instructions_runLines hne hcommands,
    hrest, fragmentInstructions]

end Fragment

namespace Certificate

/-! ## Texts of a plan -/

/-- A name that lies on one line and leaves nothing at its end that a reader takes away. -/
structure EndsLine (name : List Char) : Prop where
  single : '\n' ∉ name
  last : ∀ c ∈ name.getLast?, Text.isBlank c = false ∧ c ≠ '\\'

theorem newline_not_mem_fileName {path : String} (h : '\n' ∉ lastComponent path.toList)
    (index : ℕ) : '\n' ∉ (fileName path index).toList := by
  rw [toList_fileName, toList_toString_ofNat]
  simp [Text.newline_not_mem_toDigits, h]

theorem newline_not_mem_stagedPath {path : String} (h : '\n' ∉ lastComponent path.toList)
    (index : ℕ) : '\n' ∉ (stagedPath path index).toList := by
  simp [stagedPath, stagingDirectory, newline_not_mem_fileName h]

theorem newline_not_mem_copyEntry {image : String} {certificates : List String}
    (h : ∀ path ∈ certificates, '\n' ∉ lastComponent path.toList)
    {entry : CopyEntry} (hentry : entry ∈ (Plan.of image certificates).copyEntries) :
    '\n' ∉ entry.source.toList ∧ '\n' ∉ entry.destination.toList := by
  simp only [Plan.of, copyEntries, List.mem_map] at hentry
  obtain ⟨⟨path, index⟩, hmem, rfl⟩ := hentry
  have hname := newline_not_mem_fileName (h path (List.fst_mem_of_mem_zipIdx hmem)) index
  exact ⟨hname, by simp [stagingDirectory, hname]⟩

theorem plainLine_fileName {path : String} (h : EndsLine (lastComponent path.toList)) (index : ℕ) :
    PlainLine (fileName path index).toList := by
  have htext := toList_fileName path index
  rw [toList_toString_ofNat] at htext
  have hsingle := newline_not_mem_fileName h.single index
  have hhead : (fileName path index).toList.head? = some 'c' := by simp [htext]
  cases hlast : (lastComponent path.toList).getLast? with
  | none =>
      have hdash : (fileName path index).toList.getLast? = some '-' := by
        rw [List.getLast?_eq_none_iff] at hlast
        simp [htext, hlast, List.getLast?_cons]
      exact plainLine_of_ends hhead hdash (by decide) (by decide) hsingle
  | some c =>
      have hname : (fileName path index).toList.getLast? = some c := by
        simp [htext, hlast, List.getLast?_append, List.getLast?_cons]
      exact plainLine_of_ends hhead hname (by decide) (h.last c hlast) hsingle

theorem plain_copyEntry {certificates : List String}
    (h : ∀ path ∈ certificates, EndsLine (lastComponent path.toList)) {entry : CopyEntry}
    (hentry : entry ∈ copyEntries certificates stagingDirectory) :
    Plain (entry.source ++ " " ++ entry.destination).toList := by
  simp only [copyEntries, List.mem_map] at hentry
  obtain ⟨⟨path, index⟩, hmem, rfl⟩ := hentry
  have hname := (plainLine_fileName (h path (List.fst_mem_of_mem_zipIdx hmem)) index).toPlain
  have hmiddle : '\n' ∉ " /tmp/certs/".toList := by decide
  simpa [stagingDirectory] using hname.append hname hmiddle

theorem plainLine_refresh (family : OsFamily) : PlainLine family.trustStore.refresh.toList := by
  cases family <;> exact plainLine_of_ends rfl rfl (by decide) (by decide) (by decide)

theorem plainLine_copyText (family : OsFamily) {source : String} (h : '\n' ∉ source.toList) :
    PlainLine (copyText family.trustStore.directory source).toList := by
  have hhead : (copyText family.trustStore.directory source).toList.head? = some 'c' := by
    simp [copyText]
  have hlast : (copyText family.trustStore.directory source).toList.getLast? = some '/' := by
    cases family <;> simp [copyText, OsFamily.trustStore, List.getLast?_cons]
  have hsingle : '\n' ∉ (copyText family.trustStore.directory source).toList := by
    cases family <;> simp [copyText, OsFamily.trustStore, h]
  exact plainLine_of_ends hhead hlast (by decide) (by decide) hsingle

theorem newline_not_mem_keytoolText {name source : String} (hname : '\n' ∉ name.toList)
    (hsource : '\n' ∉ source.toList) (keystore : String) (hkeystore : '\n' ∉ keystore.toList) :
    '\n' ∉ (keytoolText name source keystore).toList := by
  unfold keytoolText
  simp [hname, hsource, hkeystore]

theorem plainLine_importText {name source : String} (hname : '\n' ∉ name.toList)
    (hsource : '\n' ∉ source.toList) : PlainLine (importText name source).toList := by
  have hhead : (importText name source).toList.head? = some 'k' := by
    simp [importText, head?_keytoolText]
  have hlast : (importText name source).toList.getLast? = some 'e' := by
    simp [importText, List.getLast?_append, List.getLast?_cons]
  have hsingle : '\n' ∉ (importText name source).toList := by
    have hnewer := newline_not_mem_keytoolText hname hsource "$JAVA_HOME/lib/security/cacerts"
      (by decide)
    have holder := newline_not_mem_keytoolText hname hsource "$JAVA_HOME/jre/lib/security/cacerts"
      (by decide)
    simp [importText, hnewer, holder]
  exact plainLine_of_ends hhead hlast (by decide) (by decide) hsingle

theorem commands_planOf_ne_nil (image : String) {certificates : List String} (hne : certificates ≠ []) :
    (Plan.of image certificates).commands ≠ [] := by
  rw [commands_planOf image hne, commandTexts]
  simp

/-- A command copies a staged file, refreshes the store or imports a staged file. -/
theorem mem_commands_planOf {image : String} {certificates : List String} {command : String}
    (h : command ∈ (Plan.of image certificates).commands) :
    (∃ x ∈ certificates.zipIdx, command =
        copyText (Image.osFamily image).trustStore.directory (stagedPath x.1 x.2)) ∨
      command = (Image.osFamily image).trustStore.refresh ∨
      ∃ x ∈ certificates.zipIdx, command =
        importText (Keystore.certificateAlias x.2) (stagedPath x.1 x.2) := by
  have hne : certificates ≠ [] := by
    rintro rfl
    simp [Plan.of, installCommands] at h
  rw [commands_planOf image hne, commandTexts, keystoreNames, Plan.of, map_destination_copyEntries,
    List.zipWith_map, List.zipWith_self, List.map_map, List.mem_append, List.mem_cons] at h
  rcases h with hcopy | hrefresh | hjava
  · obtain ⟨x, hx, heq⟩ := List.mem_map.mp hcopy
    exact .inl ⟨x, hx, heq.symm⟩
  · exact .inr (.inl hrefresh)
  · split at hjava
    · obtain ⟨x, hx, heq⟩ := List.mem_map.mp hjava
      exact .inr (.inr ⟨x, hx, heq.symm⟩)
    · cases hjava

/-- File names on one line are enough for commands on one line. -/
theorem plainLine_of_mem_commands {image : String} {certificates : List String}
    (h : ∀ path ∈ certificates, '\n' ∉ lastComponent path.toList) {command : String}
    (hcommand : command ∈ (Plan.of image certificates).commands) : PlainLine command.toList := by
  have hstaged : ∀ x ∈ certificates.zipIdx, '\n' ∉ (stagedPath x.1 x.2).toList :=
    fun x hx => newline_not_mem_stagedPath (h x.1 (List.fst_mem_of_mem_zipIdx hx)) x.2
  have halias : ∀ i, '\n' ∉ (Keystore.certificateAlias i).toList := by
    intro i hmem
    exact absurd (isBlank_certificateAlias hmem) (by decide)
  rcases mem_commands_planOf hcommand with ⟨x, hx, rfl⟩ | rfl | ⟨x, hx, rfl⟩
  · exact plainLine_copyText _ (hstaged x hx)
  · exact plainLine_refresh _
  · exact plainLine_importText (halias x.2) (hstaged x hx)

theorem plainLine_command {image : String} {certificates : List String}
    (h : ∀ path ∈ certificates, EndsLine (lastComponent path.toList)) {command : String}
    (hcommand : command ∈ (Plan.of image certificates).commands) : PlainLine command.toList :=
  plainLine_of_mem_commands (fun path hpath => (h path hpath).single) hcommand

/-! ## Public theorem -/

/-- What a plan is rendered as is read back as its copy entries and its commands, in order and
complete, whatever the image is. -/
theorem instructions_render_planOf (image : String) {certificates : List String}
    (hne : certificates ≠ []) (hnames : ∀ path ∈ certificates, EndsLine (lastComponent path.toList))
    {user : Option String} (huser : user.getD "" = "" ∨ Plain (user.getD "").toList) :
    instructions (Fragment.render (Plan.of image certificates) user) =
      fragmentInstructions (Plan.of image certificates) user := by
  exact Fragment.instructions_render (fun entry hentry => plain_copyEntry hnames hentry)
    (commands_planOf_ne_nil image hne) (fun command hcommand => plainLine_command hnames hcommand) huser

theorem instructions_render_planOf_java :
    (∀ path ∈ ["certs/root # \\ ca.crt"], EndsLine (lastComponent path.toList)) ∧
      Plain "app \\ #1".toList ∧
      instructions (Fragment.render (Plan.of "openjdk:11" ["certs/root # \\ ca.crt"])
        (some "app \\ #1")) =
          fragmentInstructions (Plan.of "openjdk:11" ["certs/root # \\ ca.crt"])
            (some "app \\ #1") := by
  have hnames : ∀ path ∈ ["certs/root # \\ ca.crt"], EndsLine (lastComponent path.toList) := by
    intro path hpath
    rw [List.mem_singleton.mp hpath]
    refine ⟨by decide, fun c hc => ?_⟩
    cases hc
    decide
  have huser : Plain "app \\ #1".toList :=
    (plainLine_of_ends rfl rfl (by decide) (by decide) (by decide)).toPlain
  exact ⟨hnames, huser, instructions_render_planOf _ (by decide) hnames (.inr huser)⟩

end Certificate

end ImageTrust
