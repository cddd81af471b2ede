import ImageTrust.Fragment
import ImageTrust.Proofs.Certificate.Installation
import ImageTrust.Proofs.Text.Words

/-! # Words of commands and COPY lines

File names stand unquoted in commands and in COPY lines. Both have the words they are meant to have
exactly where the name has no white space.
-/

namespace ImageTrust

open Text

/-- The command at an index copies an entry into the store of the system, in three words. -/
def Plan.CopiesInWords (plan : Plan) (i : ℕ) (entry : CopyEntry) : Prop :=
  ∃ command, plan.commands[i]? = some command ∧
    wordsOf command.toList = ["cp", entry.destination, plan.osFamily.trustStore.directory]

/-- A line that a text has behind some other lines. -/
def LineBehind (before line text : List Char) : Prop :=
  ∃ after, text = before ++ (line ++ after) ∧ Terminated before ∧ '\n' ∉ line ∧ AtLineEnd after

/-- In a rendered plan, the line behind those of the entries before an index is the COPY line of an
entry, in three words. -/
def Fragment.CopiesInWords (plan : Plan) (user : Option String) (i : ℕ) (entry : CopyEntry) : Prop :=
  ∃ line, LineBehind (String.join ((plan.copyEntries.take i).map copyLine)).toList line
      (render plan user).toList ∧
    wordsOf line = ["COPY", entry.source, entry.destination]

namespace Fragment

/-! ## COPY lines -/

theorem terminated_copyLines (entries : List CopyEntry) :
    Terminated (String.join (entries.map copyLine)).toList := by
  induction entries with
  | nil => exact .inl (by simp)
  | cons entry entries ih =>
      have hline := ih.append_cons ("COPY " ++ entry.source ++ " " ++ entry.destination).toList
      rw [List.map_cons, String.join_cons, copyLine]
      simpa using hline

/-- The lines of the entries stand at the beginning of a rendered plan, each in its place. -/
theorem exists_render_eq {plan : Plan} {i : ℕ} {entry : CopyEntry} (hne : plan.commands ≠ [])
    (hentry : plan.copyEntries[i]? = some entry) (user : Option String) :
    ∃ rest, render plan user =
      String.join ((plan.copyEntries.take i).map copyLine) ++ (copyLine entry ++ rest) := by
  obtain ⟨hi, rfl⟩ := List.getElem?_eq_some_iff.mp hentry
  have hsplit : plan.copyEntries =
      plan.copyEntries.take i ++ plan.copyEntries[i] :: plan.copyEntries.drop (i + 1) := by
    rw [← List.drop_eq_getElem_cons hi, List.take_append_drop]
  have hlines : String.join (plan.copyEntries.map copyLine) =
      String.join ((plan.copyEntries.take i).map copyLine) ++ (copyLine plan.copyEntries[i] ++
        String.join ((plan.copyEntries.drop (i + 1)).map copyLine)) := by
    conv => lhs; rw [hsplit]
    rw [List.map_append, String.join_append, List.map_cons, String.join_cons]
  rw [render, if_neg (by simpa using hne), hlines]
  simp only [String.append_assoc]
  exact ⟨_, rfl⟩

theorem wordsOf_copyLine {source destination : String} (hsource : wordsOf source.toList = [source])
    (hdestination : wordsOf destination.toList = [destination]) :
    wordsOf ("COPY " ++ source ++ " " ++ destination).toList = ["COPY", source, destination] := by
  have htext : ("COPY " ++ source ++ " " ++ destination).toList =
      "COPY".toList ++ ' ' :: (source.toList ++ ' ' :: destination.toList) := by
    simp
  have hkeyword : wordsOf "COPY".toList = ["COPY"] :=
    wordsOf_of_visible (by decide) (isBlank_eq_false_of_all (by decide))
  rw [htext, wordsOf_append_cons (by decide), wordsOf_append_cons (by decide), hkeyword, hsource,
    hdestination]
  rfl

end Fragment

namespace Certificate

/-- The last component of a path has no white space. -/
def Unbroken (path : String) : Prop :=
  ∀ c ∈ lastComponent path.toList, isBlank c = false

instance (path : String) : Decidable (Unbroken path) :=
  decidable_of_iff ((lastComponent path.toList).all (!isBlank ·)) (by simp [Unbroken])

variable {image : String} {certificates : List String} {user : Option String} {i : ℕ} {path : String}
  {entry : CopyEntry}

/-! ## Names without white space -/

theorem isBlank_fileName_iff (path : String) (i : ℕ) :
    (∀ c ∈ (fileName path i).toList, isBlank c = false) ↔ Unbroken path := by
  have hstart : ∀ c ∈ "cert-".toList, isBlank c = false :=
    isBlank_eq_false_of_all (by decide)
  have hindex : ∀ c ∈ Nat.toDigits 10 i, isBlank c = false :=
    fun c hc => isBlank_eq_false_of_isDigit (isDigit_of_mem_decimal hc)
  have hdash : isBlank '-' = false := by decide
  rw [toList_fileName, toList_toString_ofNat, Unbroken, List.forall_mem_append,
    List.forall_mem_append, List.forall_mem_cons]
  exact ⟨fun h => h.2.2.2, fun h => ⟨hstart, hindex, hdash, h⟩⟩

theorem wordsOf_fileName (h : Unbroken path) (i : ℕ) :
    wordsOf (fileName path i).toList = [fileName path i] := by
  refine wordsOf_of_visible ?_ ((isBlank_fileName_iff path i).mpr h)
  rw [← String.toList_inj.ne, toList_fileName]
  simp

theorem isBlank_stagedPath (h : Unbroken path) (i : ℕ) :
    ∀ c ∈ (stagedPath path i).toList, isBlank c = false := by
  have hdirectory : ∀ c ∈ (stagingDirectory ++ "/").toList, isBlank c = false :=
    isBlank_eq_false_of_all (by decide)
  rw [stagedPath, String.toList_append, List.forall_mem_append]
  exact ⟨hdirectory, (isBlank_fileName_iff path i).mpr h⟩

theorem wordsOf_stagedPath (h : Unbroken path) (i : ℕ) :
    wordsOf (stagedPath path i).toList = [stagedPath path i] := by
  refine wordsOf_of_visible ?_ (isBlank_stagedPath h i)
  rw [← String.toList_inj.ne, stagedPath, stagingDirectory]
  simp

theorem unbroken_of_stagedPath (h : ∀ c ∈ (stagedPath path i).toList, isBlank c = false) :
    Unbroken path := by
  rw [stagedPath, String.toList_append, List.forall_mem_append] at h
  exact (isBlank_fileName_iff path i).mp h.2

/-! ## Three words -/

theorem wordsOf_copyText (family : OsFamily) {source : String}
    (h : wordsOf source.toList = [source]) :
    wordsOf (copyText family.trustStore.directory source).toList =
      ["cp", source, family.trustStore.directory] := by
  have htext : (copyText family.trustStore.directory source).toList =
      "cp".toList ++ ' ' :: (source.toList ++ ' ' :: family.trustStore.directory.toList) := by
    simp [copyText]
  have hcp : wordsOf "cp".toList = ["cp"] :=
    wordsOf_of_visible (by decide) (isBlank_eq_false_of_all (by decide))
  have hdirectory : wordsOf family.trustStore.directory.toList = [family.trustStore.directory] := by
    cases family <;> exact wordsOf_of_visible (by decide) (isBlank_eq_false_of_all (by decide))
  rw [htext, wordsOf_append_cons (by decide), wordsOf_append_cons (by decide), hcp, h, hdirectory]
  rfl

theorem entry_eq (hpath : certificates[i]? = some path)
    (hentry : (Plan.of image certificates).copyEntries[i]? = some entry) :
    entry = ⟨fileName path i, stagedPath path i⟩ := by
  simp only [Plan.of, copyEntries, List.getElem?_map, List.getElem?_zipIdx, hpath, Option.map_some,
    Nat.zero_add, Option.some.injEq] at hentry
  rw [← hentry, stagedPath]

theorem getElem?_commands_planOf (image : String) (hpath : certificates[i]? = some path) :
    (Plan.of image certificates).commands[i]? =
      some (copyText (Image.osFamily image).trustStore.directory (stagedPath path i)) := by
  have hne : certificates ≠ [] := by
    rintro rfl
    cases hpath
  have hi : i < certificates.zipIdx.length := by
    rw [List.length_zipIdx]
    exact (List.getElem?_eq_some_iff.mp hpath).1
  rw [commands_planOf image hne, commandTexts, Plan.of, map_destination_copyEntries, List.map_map,
    List.getElem?_append_left (by rwa [List.length_map]), List.getElem?_map, List.getElem?_zipIdx,
    hpath]
  simp

theorem copiesInWords_iff_unbroken (hpath : certificates[i]? = some path)
    (hentry : (Plan.of image certificates).copyEntries[i]? = some entry) :
    (Plan.of image certificates).CopiesInWords i entry ↔ Unbroken path := by
  have hcommand := getElem?_commands_planOf image hpath
  rw [entry_eq hpath hentry, Plan.CopiesInWords]
  refine ⟨?_, fun h => ⟨_, hcommand, wordsOf_copyText _ (wordsOf_stagedPath h i)⟩⟩
  rintro ⟨command, _, hwords⟩
  have hmem : stagedPath path i ∈ wordsOf command.toList := by
    rw [hwords]
    exact List.mem_cons_of_mem _ List.mem_cons_self
  exact unbroken_of_stagedPath (isBlank_of_mem_wordsOf hmem)

theorem fragmentCopiesInWords_iff_unbroken (hpath : certificates[i]? = some path)
    (hentry : (Plan.of image certificates).copyEntries[i]? = some entry) :
    Fragment.CopiesInWords (Plan.of image certificates) user i entry ↔ Unbroken path := by
  have hcommand := getElem?_commands_planOf image hpath
  have hne : (Plan.of image certificates).commands ≠ [] := by
    intro hnil
    rw [hnil] at hcommand
    cases hcommand
  obtain ⟨rest, hrender⟩ := Fragment.exists_render_eq hne hentry user
  rw [entry_eq hpath hentry] at hrender ⊢
  rw [Fragment.CopiesInWords]
  refine ⟨?_, fun h => ?_⟩
  · rintro ⟨line, _, hwords⟩
    have hmem : stagedPath path i ∈ wordsOf line := by
      rw [hwords]
      exact List.mem_cons_of_mem _ (List.mem_cons_of_mem _ List.mem_cons_self)
    exact unbroken_of_stagedPath (isBlank_of_mem_wordsOf hmem)
  · have hwords := Fragment.wordsOf_copyLine (wordsOf_fileName h i) (wordsOf_stagedPath h i)
    refine ⟨_, ⟨'\n' :: rest.toList, ?_, Fragment.terminated_copyLines _, ?_, atLineEnd_cons _⟩, hwords⟩
    · rw [hrender, Fragment.copyLine]
      simp
    · have hsource := newline_not_mem_of_visible ((isBlank_fileName_iff path i).mpr h)
      have hdestination := newline_not_mem_of_visible (isBlank_stagedPath h i)
      simp [hsource, hdestination]

/-! ## Public theorem -/

/-- A certificate's command and its COPY line are made of the three words they are meant to have
exactly if the last component of its path has no white space. -/
theorem copiesInWords_planOf (image : String) {certificates : List String} (user : Option String)
    {i : ℕ} {path : String} {entry : CopyEntry} (hpath : certificates[i]? = some path)
    (hentry : (Plan.of image certificates).copyEntries[i]? = some entry) :
    ((Plan.of image certificates).CopiesInWords i entry ↔ Unbroken path) ∧
      (Fragment.CopiesInWords (Plan.of image certificates) user i entry ↔ Unbroken path) :=
  ⟨copiesInWords_iff_unbroken hpath hentry, fragmentCopiesInWords_iff_unbroken hpath hentry⟩

/-- A name without white space behind one with a line end. -/
theorem copiesInWords_planOf_java :
    ["my certs/root\nca.crt", "my certs/#ca.crt"][1]? = some "my certs/#ca.crt" ∧
      (Plan.of "openjdk:11" ["my certs/root\nca.crt", "my certs/#ca.crt"]).copyEntries[1]? =
        some ⟨"cert-1-#ca.crt", "/tmp/certs/cert-1-#ca.crt"⟩ ∧
      Unbroken "my certs/#ca.crt" ∧
      (Plan.of "openjdk:11" ["my certs/root\nca.crt", "my certs/#ca.crt"]).CopiesInWords 1
        ⟨"cert-1-#ca.crt", "/tmp/certs/cert-1-#ca.crt"⟩ ∧
      Fragment.CopiesInWords (Plan.of "openjdk:11" ["my certs/root\nca.crt", "my certs/#ca.crt"])
        (some "app") 1 ⟨"cert-1-#ca.crt", "/tmp/certs/cert-1-#ca.crt"⟩ := by
  have hentry : (Plan.of "openjdk:11" ["my certs/root\nca.crt", "my certs/#ca.crt"]).copyEntries[1]? =
      some ⟨"cert-1-#ca.crt", "/tmp/certs/cert-1-#ca.crt"⟩ := by
    decide +kernel
  have hname : Unbroken "my certs/#ca.crt" := by decide
  obtain ⟨hcommand, hline⟩ := copiesInWords_planOf "openjdk:11" (some "app") rfl hentry
  exact ⟨rfl, hentry, hname, hcommand.mpr hname, hline.mpr hname⟩

/-- A space in a file name breaks its command. -/
theorem not_forall_copiesInWords :
    ¬ ∀ (image : String) (certificates : List String) (user : Option String) (i : ℕ)
        (entry : CopyEntry), (Plan.of image certificates).copyEntries[i]? = some entry →
      (Plan.of image certificates).CopiesInWords i entry ∧
        Fragment.CopiesInWords (Plan.of image certificates) user i entry := by
  intro hall
  have hentry : (Plan.of "alpine" ["my ca.crt"]).copyEntries[0]? =
      some ⟨"cert-0-my ca.crt", "/tmp/certs/cert-0-my ca.crt"⟩ := by
    decide +kernel
  have hcommand := (hall "alpine" ["my ca.crt"] none 0 _ hentry).1
  have hname := (copiesInWords_iff_unbroken rfl hentry).mp hcommand
  exact absurd hname (by decide)

end Certificate

end ImageTrust
