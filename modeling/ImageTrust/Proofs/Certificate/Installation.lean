import ImageTrust.Proofs.Certificate.FileName
import ImageTrust.Proofs.Text.Lines

/-! # Plans install what they copy -/

namespace ImageTrust

/-! ## Commands as texts -/

/-- The command that copies a file of the image into a directory. -/
def copyText (directory source : String) : String :=
  "cp " ++ source ++ " " ++ directory

/-- The command that imports a file of the image into a keystore under a name. -/
def keytoolText (name source keystore : String) : String :=
  "keytool -importcert -noprompt -trustcacerts -alias " ++ name ++ " -file " ++ source ++
    " -keystore " ++ keystore ++ " -storepass " ++ "changeit"

/-- The import into the newer keystore of Java, else into the older one, else nothing. -/
def importText (name source : String) : String :=
  keytoolText name source "$JAVA_HOME/lib/security/cacerts" ++ " || " ++
    (keytoolText name source "$JAVA_HOME/jre/lib/security/cacerts" ++ " || " ++ "true")

/-- The commands of a plan for the store of the system and for that of Java, told from where the
plan copies its files and from the names it gives them. -/
def commandTexts (plan : Plan) (names : List String) : List String :=
  let sources := plan.copyEntries.map CopyEntry.destination
  sources.map (copyText plan.osFamily.trustStore.directory) ++
    plan.osFamily.trustStore.refresh ::
      if plan.runtime = .java then List.zipWith importText names sources else []

/-- A plan copies every certificate to a place of its own, and its commands read exactly these
places: each file is put into the store of the system, the store is refreshed once, and where there is
Java each file is imported under a name of its own. -/
structure Plan.Installs (plan : Plan) (certificates : List String) : Prop where
  length_eq : plan.copyEntries.length = certificates.length
  source_eq : ∀ (i : ℕ) path, certificates[i]? = some path →
    (plan.copyEntries.map CopyEntry.source)[i]? = some (Certificate.fileName path i)
  staged : ∀ entry ∈ plan.copyEntries,
    entry.destination = "/tmp/certs/" ++ entry.source ∧ '/' ∉ entry.source.toList
  destination_nodup : (plan.copyEntries.map CopyEntry.destination).Nodup
  commands_eq : ∃ names : List String, names.length = certificates.length ∧ names.Nodup ∧
    (∀ name ∈ names, ∀ c ∈ name.toList, Text.isBlank c = false) ∧
    plan.commands = commandTexts plan names
  refresh_once : ∀ (i : ℕ) family, plan.commands[i]? = some (OsFamily.trustStore family).refresh →
    i = certificates.length

namespace Certificate

/-! ## Copy entries -/

theorem map_destination_copyEntries (certificates : List String) :
    (copyEntries certificates stagingDirectory).map CopyEntry.destination =
      certificates.zipIdx.map fun x => stagedPath x.1 x.2 := by
  simp [copyEntries, stagedPath]

theorem destination_copyEntries {certificates : List String} {entry : CopyEntry}
    (h : entry ∈ copyEntries certificates stagingDirectory) :
    entry.destination = "/tmp/certs/" ++ entry.source ∧ '/' ∉ entry.source.toList := by
  simp only [copyEntries, List.mem_map] at h
  obtain ⟨⟨path, index⟩, _, rfl⟩ := h
  exact ⟨rfl, slash_not_mem_fileName path index⟩

theorem stagedPath_eq_iff {p q : String} {i j : ℕ} :
    stagedPath p i = stagedPath q j ↔ i = j ∧ lastComponent p.toList = lastComponent q.toList := by
  rw [stagedPath, stagedPath, String.append_right_inj, fileName_eq_iff, Int.natCast_inj]

/-- A function of the index keeps the members of a list apart if it keeps the indices apart. -/
theorem nodup_map_zipIdx {α β : Type} (xs : List α) (f : α × ℕ → β)
    (h : ∀ x y, f x = f y → x.2 = y.2) : (xs.zipIdx.map f).Nodup := by
  have hindex : (xs.zipIdx.map Prod.snd).Nodup := by
    rw [List.zipIdx_map_snd]
    exact List.nodup_range'
  rw [List.Nodup, List.pairwise_map] at hindex ⊢
  exact hindex.imp fun hne heq => hne (h _ _ heq)

/-! ## Names in keystores -/

theorem certificateAlias_injective {i j : ℕ}
    (h : Keystore.certificateAlias i = Keystore.certificateAlias j) : i = j := by
  have hdigits := congrArg String.toList ((String.append_right_inj _).mp h)
  simp only [Nat.toString_eq_repr, Nat.toList_repr] at hdigits
  have hvalue := congrArg (fun digits => Nat.ofDigitChars 10 digits 0) hdigits
  simpa using hvalue

theorem isBlank_certificateAlias {i : ℕ} {c : Char}
    (h : c ∈ (Keystore.certificateAlias i).toList) : Text.isBlank c = false := by
  simp only [Keystore.certificateAlias, String.toList_append, Nat.toString_eq_repr,
    Nat.toList_repr, List.mem_append] at h
  rcases h with h | h
  · have hletters : ∀ d ∈ "jkube-cert-".toList, (!Text.isBlank d) = true :=
      List.all_eq_true.mp (by decide)
    simpa using hletters c h
  · exact Text.isBlank_eq_false_of_isDigit (isDigit_of_mem_decimal h)

/-! ## Commands -/

theorem copyCommand_eq (store : TrustStore) (path : String) (index : ℕ) :
    copyCommand store path index = copyText store.directory (stagedPath path index) := by
  rw [copyCommand, copyText]

theorem importCommand_eq (path : String) (index : ℕ) (keystore : String) :
    importCommand path index keystore =
      keytoolText (Keystore.certificateAlias index) (stagedPath path index) keystore := by
  unfold importCommand keytoolText Keystore.password
  with_reducible rfl

theorem javaCommand_eq (path : String) (index : ℕ) :
    javaCommand path index = importText (Keystore.certificateAlias index) (stagedPath path index) := by
  simp only [javaCommand, Keystore.locations, List.map_cons, List.map_nil, List.cons_append,
    List.nil_append, String.intercalate_cons_cons, String.intercalate_singleton, importText,
    importCommand_eq]

/-- The names under which the certificates at the indices of a list are stored. -/
def keystoreNames (certificates : List String) : List String :=
  certificates.zipIdx.map fun x => Keystore.certificateAlias x.2

theorem commands_planOf (image : String) {certificates : List String} (hne : certificates ≠ []) :
    (Plan.of image certificates).commands =
      commandTexts (Plan.of image certificates) (keystoreNames certificates) := by
  have hempty : certificates.isEmpty = false := by simpa using hne
  simp only [Plan.of, installCommands, hempty, commandTexts, map_destination_copyEntries,
    systemCommands, javaCommands, keystoreNames, copyCommand_eq, javaCommand_eq]
  cases Image.runtime image with
  | java => simp [List.zipWith_map, List.zipWith_self]
  | generic => simp

/-! ## The refresh command -/

theorem head?_refresh (family : OsFamily) : family.trustStore.refresh.toList.head? = some 'u' := by
  cases family <;> simp [OsFamily.trustStore]

theorem copyText_ne_refresh (directory source : String) (family : OsFamily) :
    copyText directory source ≠ family.trustStore.refresh := by
  intro h
  have hhead := head?_refresh family
  simp [← h, copyText] at hhead

theorem head?_keytoolText (name source keystore : String) :
    (keytoolText name source keystore).toList.head? = some 'k' := by
  unfold keytoolText
  simp

theorem importText_ne_refresh (name source : String) (family : OsFamily) :
    importText name source ≠ family.trustStore.refresh := by
  intro h
  have hhead := head?_refresh family
  simp [← h, importText, head?_keytoolText] at hhead

theorem getElem?_commandTexts_eq_refresh {plan : Plan} {names : List String} {i : ℕ}
    {family : OsFamily} (h : (commandTexts plan names)[i]? = some family.trustStore.refresh) :
    i = plan.copyEntries.length := by
  simp only [commandTexts, List.getElem?_append, List.length_map] at h
  split at h
  · have hmem := List.mem_of_getElem? h
    obtain ⟨source, _, heq⟩ := List.mem_map.mp hmem
    exact absurd heq (copyText_ne_refresh _ _ _)
  · next hle =>
      cases hi : i - plan.copyEntries.length with
      | zero => omega
      | succ k =>
          rw [hi, List.getElem?_cons_succ] at h
          have hmem := List.mem_of_getElem? h
          split at hmem
          · rw [List.mem_iff_getElem] at hmem
            obtain ⟨j, hj, heq⟩ := hmem
            rw [List.getElem_zipWith] at heq
            exact absurd heq (importText_ne_refresh _ _ _)
          · simp at hmem

/-! ## Public theorem -/

/-- Whatever the image and the paths are, a plan installs exactly what it copies. -/
theorem planOf_installs (image : String) (certificates : List String) (hne : certificates ≠ []) :
    (Plan.of image certificates).Installs certificates := by
  have hlength : (Plan.of image certificates).copyEntries.length = certificates.length := by
    simp [Plan.of, copyEntries]
  refine ⟨hlength, ?_, fun entry h => destination_copyEntries h, ?_, ?_, ?_⟩
  · intro i path hpath
    simp [Plan.of, copyEntries, hpath]
  · simp only [Plan.of, map_destination_copyEntries]
    exact nodup_map_zipIdx _ _ fun x y h => (stagedPath_eq_iff.mp h).1
  · refine ⟨keystoreNames certificates, by simp [keystoreNames], ?_, ?_, commands_planOf image hne⟩
    · exact nodup_map_zipIdx _ _ fun x y h => certificateAlias_injective h
    · intro name hname c hc
      obtain ⟨x, _, rfl⟩ := List.mem_map.mp hname
      exact isBlank_certificateAlias hc
  · intro i family h
    rw [commands_planOf image hne] at h
    rw [getElem?_commandTexts_eq_refresh h, hlength]

theorem planOf_installs_java :
    ["a/ca.crt", "update-ca-trust", "b/ca.crt"] ≠ [] ∧
      (Plan.of "openjdk:11-jre-slim" ["a/ca.crt", "update-ca-trust", "b/ca.crt"]).Installs
        ["a/ca.crt", "update-ca-trust", "b/ca.crt"] :=
  ⟨by decide, planOf_installs _ _ (by decide)⟩

end Certificate

end ImageTrust
