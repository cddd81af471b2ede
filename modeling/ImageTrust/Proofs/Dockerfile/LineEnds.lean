import ImageTrust.ConfigFile
import ImageTrust.Proofs.Disk.Reading
import ImageTrust.Proofs.Dockerfile.Grouping
import ImageTrust.Proofs.Dockerfile.Rereading
import ImageTrust.Proofs.Text.Returns
import ImageTrust.Proofs.Text.Utf8
import ImageTrust.Workspace

/-! # Line ends of two characters

The lines of a Dockerfile may end with a carriage return and a line feed. Each pass over such a text does
what it does without the carriage returns, so that a file reads the same whether or not its line ends are
unified before.
-/

namespace ImageTrust

/-- An instruction with the line ends of its text unified. -/
def Instruction.unified (i : Instruction) : Instruction :=
  { i with raw := Text.unified i.raw }

namespace Dockerfile

open Text

variable {cs rest : List Char}

/-! ## Comments -/

theorem afterComment?_dropReturns (cs : List Char) :
    afterComment? (dropReturns cs) = (afterComment? cs).map dropReturns := by
  rw [afterComment?, afterComment?, dropWhile_dropReturns rfl]
  cases hstart : cs.dropWhile isBlank with
  | nil => rfl
  | cons c rest =>
      have hc : isBlank c = false := head?_dropWhile (by rw [hstart]; rfl)
      have hreturn : c ≠ '\r' := by
        rintro rfl
        cases hc
      rw [dropReturns_cons_of_ne hreturn]
      by_cases hcomment : c = '#'
      · subst hcomment
        simp [dropWhile_dropReturns]
      · simp [hcomment]

theorem afterComment?_suffix (h : afterComment? cs = some rest) : rest <:+ cs := by
  rw [afterComment?] at h
  split at h
  · next tail heq =>
      cases h
      have hstart : '#' :: tail <:+ cs := heq ▸ List.dropWhile_suffix isBlank
      exact (List.dropWhile_suffix _).trans ((List.suffix_cons '#' tail).trans hstart)
  · cases h

/-- At a line end it does not matter whether it begins a line. -/
theorem dropCommentsFrom_newline {lineStart : Bool}
    (h : lineStart = true → afterComment? ('\n' :: cs) = none) :
    dropCommentsFrom lineStart ('\n' :: cs) = dropCommentsFrom false ('\n' :: cs) := by
  rw [dropCommentsFrom_cons h, dropCommentsFrom_cons (by simp)]

/-- Comments are the same without carriage returns. -/
theorem dropCommentsFrom_dropReturns {lineStart : Bool} (h : Paired cs) :
    dropCommentsFrom lineStart (dropReturns cs) = dropReturns (dropCommentsFrom lineStart cs) := by
  induction lineStart, cs using dropCommentsFrom.induct with
  | case1 lineStart cs rest hafter ih =>
      obtain ⟨rfl, hcomment⟩ : lineStart = true ∧ afterComment? cs = some rest := by simpa using hafter
      have hdropped : afterComment? (dropReturns cs) = some (dropReturns rest) := by
        rw [afterComment?_dropReturns, hcomment, Option.map_some]
      rw [dropCommentsFrom_comment hcomment, dropCommentsFrom_comment hdropped,
        ih (h.suffix (afterComment?_suffix hcomment))]
  | case2 lineStart hafter => rw [dropReturns_of_not_mem List.not_mem_nil, dropCommentsFrom_nil]; rfl
  | case3 lineStart c rest hafter ih =>
      obtain ⟨hfirst, hrest⟩ := paired_cons_iff.mp h
      have hnone : lineStart = true → afterComment? (c :: rest) = none := by
        rintro rfl
        simpa using hafter
      have hdropped : lineStart = true → afterComment? (dropReturns (c :: rest)) = none := by
        intro hstart
        rw [afterComment?_dropReturns, hnone hstart, Option.map_none]
      rw [dropCommentsFrom_cons hnone]
      by_cases hc : c = '\r'
      · subst hc
        obtain ⟨more, rfl⟩ := List.head?_eq_some_iff.mp (hfirst rfl)
        rw [dropReturns_return, dropReturns_cons_of_ne (by decide)] at hdropped
        rw [dropReturns_return, dropReturns_return, ← ih hrest, dropReturns_cons_of_ne (by decide),
          dropCommentsFrom_newline hdropped]
        rfl
      · rw [dropReturns_cons_of_ne hc] at hdropped
        rw [dropReturns_cons_of_ne hc, dropReturns_cons_of_ne hc, dropCommentsFrom_cons hdropped, ih hrest]

theorem paired_dropCommentsFrom {lineStart : Bool} (h : Paired cs) :
    Paired (dropCommentsFrom lineStart cs) := by
  induction lineStart, cs using dropCommentsFrom.induct with
  | case1 lineStart cs rest hafter ih =>
      obtain ⟨rfl, hcomment⟩ : lineStart = true ∧ afterComment? cs = some rest := by simpa using hafter
      rw [dropCommentsFrom_comment hcomment]
      exact ih (h.suffix (afterComment?_suffix hcomment))
  | case2 lineStart hafter => rwa [dropCommentsFrom_nil]
  | case3 lineStart c rest hafter ih =>
      obtain ⟨hfirst, hrest⟩ := paired_cons_iff.mp h
      rw [dropCommentsFrom_cons (by rintro rfl; simpa using hafter)]
      refine paired_cons_iff.mpr ⟨fun hc => ?_, ih hrest⟩
      obtain ⟨more, rfl⟩ := List.head?_eq_some_iff.mp (hfirst hc)
      rw [hc, decide_eq_false (by decide), dropCommentsFrom_false_newline]
      rfl

/-! ## Continued lines -/

theorem afterLineEnds?_dropReturns (cs : List Char) :
    afterLineEnds? (dropReturns cs) = (afterLineEnds? cs).map dropReturns := by
  have hcontains : ∀ space : List Char,
      (dropReturns space).contains '\n' = space.contains '\n' := by
    intro space
    rw [Bool.eq_iff_iff]
    simp [dropReturns]
  rw [afterLineEnds?, afterLineEnds?, takeWhile_dropReturns rfl, dropWhile_dropReturns rfl, hcontains,
    reverse_dropReturns, takeWhile_dropReturns rfl, reverse_dropReturns, ← dropReturns_append]
  split <;> rfl

/-- Lines are continued the same without carriage returns. -/
theorem joinLines_dropReturns (cs : List Char) :
    joinLines (dropReturns cs) = dropReturns (joinLines cs) := by
  induction cs using joinLines.induct with
  | case1 => rw [dropReturns_of_not_mem List.not_mem_nil, joinLines, dropReturns_of_not_mem List.not_mem_nil]
  | case2 cs rest hafter ih =>
      have hdropped : afterLineEnds? (dropReturns cs) = some (dropReturns rest) := by
        rw [afterLineEnds?_dropReturns, hafter, Option.map_some]
      rw [dropReturns_cons_of_ne (by decide), joinLines_of_some hdropped, joinLines_of_some hafter,
        dropReturns_cons_of_ne (by decide), ih]
  | case3 cs hafter ih =>
      have hdropped : afterLineEnds? (dropReturns cs) = none := by
        rw [afterLineEnds?_dropReturns, hafter, Option.map_none]
      rw [dropReturns_cons_of_ne (by decide), joinLines_of_none hdropped, joinLines_of_none hafter,
        dropReturns_cons_of_ne (by decide), ih]
  | case4 c cs hc ih =>
      rw [joinLines_cons_of_ne hc]
      by_cases hreturn : c = '\r'
      · rw [hreturn, dropReturns_return, dropReturns_return, ih]
      · rw [dropReturns_cons_of_ne hreturn, dropReturns_cons_of_ne hreturn, joinLines_cons_of_ne hc, ih]

theorem paired_joinLines (h : Paired cs) : Paired (joinLines cs) := by
  induction cs using joinLines.induct with
  | case1 => rwa [joinLines]
  | case2 cs rest hafter ih =>
      have hsuffix : rest <:+ '\\' :: cs :=
        (List.suffix_cons _ _).trans ((of_afterLineEnds? hafter).1.trans (List.suffix_cons _ _))
      rw [joinLines_of_some hafter]
      exact paired_cons_iff.mpr ⟨fun hc => absurd hc (by decide), ih (h.suffix hsuffix)⟩
  | case3 cs hafter ih =>
      rw [joinLines_of_none hafter]
      exact paired_cons_iff.mpr ⟨fun hc => absurd hc (by decide), ih (paired_cons_iff.mp h).2⟩
  | case4 c cs hc ih =>
      obtain ⟨hfirst, hrest⟩ := paired_cons_iff.mp h
      rw [joinLines_cons_of_ne hc]
      refine paired_cons_iff.mpr ⟨fun hreturn => ?_, ih hrest⟩
      obtain ⟨more, rfl⟩ := List.head?_eq_some_iff.mp (hfirst hreturn)
      rw [joinLines_cons_of_ne (by decide)]
      rfl

theorem preprocess_dropReturns (h : Paired cs) :
    preprocess (dropReturns cs) = dropReturns (preprocess cs) := by
  rw [preprocess, dropComments, dropCommentsFrom_dropReturns h, joinLines_dropReturns]
  rfl

theorem paired_preprocess (h : Paired cs) : Paired (preprocess cs) :=
  paired_joinLines (paired_dropCommentsFrom h)

/-! ## Instructions -/

/-- The letters of a word end at a carriage return as they do at a line end. -/
theorem takeWhile_isAlpha_dropReturns (h : Paired cs) :
    (dropReturns cs).takeWhile Char.isAlpha = cs.takeWhile Char.isAlpha ∧
      (dropReturns cs).dropWhile Char.isAlpha = dropReturns (cs.dropWhile Char.isAlpha) := by
  induction cs with
  | nil => exact ⟨rfl, rfl⟩
  | cons c cs ih =>
      obtain ⟨hfirst, hrest⟩ := paired_cons_iff.mp h
      by_cases hc : c = '\r'
      · obtain ⟨more, rfl⟩ := List.head?_eq_some_iff.mp (hfirst hc)
        rw [hc]
        exact ⟨rfl, rfl⟩
      · rw [dropReturns_cons_of_ne hc]
        cases halpha : c.isAlpha with
        | true => simpa [halpha] using ih hrest
        | false => simp [halpha, dropReturns_cons_of_ne hc]

theorem isEmpty_takeWhile_dropReturns (h : Paired cs) :
    (dropReturns (cs.takeWhile isBlank)).isEmpty = (cs.takeWhile isBlank).isEmpty := by
  cases cs with
  | nil => rfl
  | cons c cs =>
      cases hblank : isBlank c with
      | false => simp [hblank, dropReturns]
      | true =>
          rw [List.takeWhile_cons_of_pos hblank]
          by_cases hc : c = '\r'
          · obtain ⟨more, rfl⟩ := List.head?_eq_some_iff.mp ((paired_cons_iff.mp h).1 hc)
            rw [hc]
            rfl
          · rw [dropReturns_cons_of_ne hc]
            rfl

def Written.dropReturns (w : Written) : Written :=
  ⟨w.word, Text.dropReturns w.gap, Text.dropReturns w.argument⟩

theorem readInstruction?_dropReturns (h : Paired cs) :
    readInstruction? (dropReturns cs) =
      (readInstruction? cs).map fun (w, rest) => (w.dropReturns, dropReturns rest) := by
  have hstart : Paired (cs.dropWhile isBlank) := h.suffix (List.dropWhile_suffix _)
  have hafter := hstart.suffix (List.dropWhile_suffix Char.isAlpha)
  obtain ⟨htake, hdrop⟩ := takeWhile_isAlpha_dropReturns hstart
  rw [readInstruction?, readInstruction?, dropWhile_dropReturns rfl, htake, hdrop,
    takeWhile_dropReturns rfl, dropWhile_dropReturns rfl, takeWhile_dropReturns rfl,
    dropWhile_dropReturns rfl, isEmpty_takeWhile_dropReturns hafter]
  split <;> rfl

theorem readInstruction?_suffix {w : Written} (h : readInstruction? cs = some (w, rest)) :
    rest <:+ cs := by
  obtain ⟨-, hstart⟩ := of_readInstruction? h
  exact (List.suffix_append w.text rest).trans (hstart ▸ List.dropWhile_suffix isBlank)

theorem scanFrom_newline {lineStart : Bool}
    (h : lineStart = true → readInstruction? ('\n' :: cs) = none) :
    scanFrom lineStart ('\n' :: cs) = scanFrom false ('\n' :: cs) := by
  rw [scanFrom_cons h, scanFrom_cons (by simp)]

/-- Instructions are read the same without carriage returns. -/
theorem scanFrom_dropReturns {lineStart : Bool} (h : Paired cs) :
    scanFrom lineStart (dropReturns cs) = (scanFrom lineStart cs).map Written.dropReturns := by
  induction lineStart, cs using scanFrom.induct with
  | case1 lineStart cs w rest hread ih =>
      obtain ⟨rfl, hfound⟩ : lineStart = true ∧ readInstruction? cs = some (w, rest) := by
        simpa using hread
      have hdropped : readInstruction? (dropReturns cs) = some (w.dropReturns, dropReturns rest) := by
        rw [readInstruction?_dropReturns h, hfound, Option.map_some]
      rw [scanFrom_of_some hfound, scanFrom_of_some hdropped, List.map_cons,
        ih (h.suffix (readInstruction?_suffix hfound))]
  | case2 lineStart hread =>
      rw [dropReturns_of_not_mem List.not_mem_nil, scanFrom_nil]
      rfl
  | case3 lineStart c rest hread ih =>
      obtain ⟨hfirst, hrest⟩ := paired_cons_iff.mp h
      have hnone : lineStart = true → readInstruction? (c :: rest) = none := by
        rintro rfl
        simpa using hread
      have hdropped : lineStart = true → readInstruction? (dropReturns (c :: rest)) = none := by
        intro hstart
        rw [readInstruction?_dropReturns h, hnone hstart, Option.map_none]
      rw [scanFrom_cons hnone]
      by_cases hc : c = '\r'
      · subst hc
        obtain ⟨more, rfl⟩ := List.head?_eq_some_iff.mp (hfirst rfl)
        rw [dropReturns_return, dropReturns_cons_of_ne (by decide)] at hdropped
        rw [dropReturns_return, ← ih hrest, dropReturns_cons_of_ne (by decide),
          scanFrom_newline hdropped]
        rfl
      · rw [dropReturns_cons_of_ne hc] at hdropped
        rw [dropReturns_cons_of_ne hc, scanFrom_cons hdropped, ih hrest]

/-! ## What instructions say -/

theorem ReadOff.exists_rest {ws : List Written} {w : Written} (h : ReadOff cs ws) (hw : w ∈ ws) :
    ∃ rest, w.Precedes rest ∧ w.text ++ rest <:+ cs := by
  induction h with
  | nil => cases hw
  | @cons cs rest first ws hfirst hsuffix _ ih =>
      rcases List.mem_cons.mp hw with rfl | hw
      · exact ⟨rest, hfirst, hsuffix⟩
      · obtain ⟨later, hlater, hmore⟩ := ih hw
        exact ⟨later, hlater, hmore.trans ((List.suffix_append _ _).trans hsuffix)⟩

/-- A trimmed text does not end inside a pair. -/
theorem paired_trim {text : List Char} (h : Paired (text ++ rest))
    (hstart : ∀ c ∈ text.head?, isBlank c = false) : Paired (trim text) := by
  obtain ⟨blanks, hsplit, -⟩ := exists_trim_append hstart
  rw [hsplit, List.append_assoc] at h
  refine h.of_append fun hlast => ?_
  have hreturn : isBlank '\r' = false := (trimmed_trim text).2 '\r' hlast
  cases hreturn

theorem Written.Precedes.text_dropReturns {w : Written} (h : w.Precedes rest) :
    w.dropReturns.text = Text.dropReturns w.text := by
  have hword : '\r' ∉ w.word := fun hmem => absurd (h.opening.word_alpha _ hmem) (by decide)
  rw [Written.text, Written.text, Written.dropReturns, dropReturns_append, dropReturns_append,
    dropReturns_of_not_mem hword]

theorem Written.Precedes.instruction_dropReturns {w : Written} (h : w.Precedes rest)
    (hpaired : Paired (w.text ++ rest)) : w.dropReturns.instruction = w.instruction.unified := by
  have hargument : Paired (w.argument ++ rest) := by
    refine hpaired.suffix ⟨w.word ++ w.gap, ?_⟩
    simp [Written.text]
  have hsingle : '\n' ∉ trim w.argument := by
    obtain ⟨blanks, hsplit, -⟩ := exists_trim_append h.start
    intro hmem
    refine h.single ?_
    rw [hsplit]
    exact List.mem_append_left blanks hmem
  have htrim : trim (Text.dropReturns w.argument) = trim w.argument := by
    rw [trim_dropReturns, dropReturns_of_not_mem ((paired_trim hargument h.start).not_mem hsingle)]
  have hraw : trim (w.dropReturns.word ++ w.dropReturns.gap ++ w.dropReturns.argument) =
      unifyLineEnds (trim w.text) := by
    have htext := h.text_dropReturns
    rw [Written.text, ← List.append_assoc] at htext
    rw [htext, trim_dropReturns, (paired_trim hpaired h.head?_text).unifyLineEnds_eq]
  rw [Written.instruction, hraw, Written.instruction, Instruction.unified, unified, Written.text]
  simp only [String.toList_ofList, List.append_assoc]
  exact congrArg (fun arguments => (⟨w.keyword, arguments, _⟩ : Instruction))
    (congrArg (argumentsOf w.keyword) htrim)

/-! ## Public theorem -/

theorem instructions_unified {content : String} (h : Paired content.toList) :
    instructions (unified content) = (instructions content).map Instruction.unified := by
  have hpaired := paired_preprocess h
  have hread := readOff_scanFrom true (preprocess content.toList)
  rw [instructions, instructions, unified, String.toList_ofList, h.unifyLineEnds_eq,
    preprocess_dropReturns h, scanFrom_dropReturns hpaired, List.map_map, List.map_map]
  refine List.map_congr_left fun w hw => ?_
  obtain ⟨rest, hw, hsuffix⟩ := hread.exists_rest hw
  exact hw.instruction_dropReturns (hpaired.suffix hsuffix)

theorem paired_raw {content : String} (h : Paired content.toList) :
    ∀ i ∈ instructions content, Paired i.raw.toList := by
  intro i hi
  obtain ⟨w, hw, rfl⟩ := List.mem_map.mp hi
  obtain ⟨rest, hrest, hsuffix⟩ := (readOff_scanFrom true (preprocess content.toList)).exists_rest hw
  have htrim := paired_trim ((paired_preprocess h).suffix hsuffix) hrest.head?_text
  simpa [Written.instruction, Written.text] using htrim

/-- Line ends of two characters change nothing that is read from a Dockerfile, the line ends in the texts of
its instructions aside; so it reads the same from a file, where line ends are unified. -/
theorem instructions_unifyLineEnds {content : String} (h : Paired content.toList) :
    instructions (unified content) = (instructions content).map Instruction.unified ∧
      (∀ i ∈ instructions content, Paired i.raw.toList) ∧
      (∀ given, (stages given (unified content)).map Stage.heading =
          (stages given content).map Stage.heading ∧
        warnings given (unified content) = warnings given content ∧
        baseImage? given (unified content) = baseImage? given content) ∧
      ∀ (disk : Disk Id) (path : String), disk.read path = .ok (encode content.toList) →
        disk.readText path = .ok (unified content) ∧
          ∀ given, Config.imageOfFile disk given path =
            ((warnings given content).map .unexpanded, .ok (baseImage? given content)) := by
  have hinstructions := instructions_unified h
  have hmeaning : (instructions (unified content)).map Instruction.meaning =
      (instructions content).map Instruction.meaning := by
    rw [hinstructions, List.map_map]
    rfl
  refine ⟨hinstructions, paired_raw h, stages_congr hmeaning, fun disk path hread => ?_⟩
  have htext := Disk.readText_of_encode hread
  refine ⟨htext, fun given => ?_⟩
  obtain ⟨-, hwarnings, himage⟩ := stages_congr hmeaning given
  rw [← hwarnings, ← himage]
  simp [Config.imageOfFile, htext, bind, pure]

/-- A comment, a line that goes on, a word that takes a later line, and an array. -/
def windowsText : String :=
  "# a\r\nFROM a \\\r\n\r\n  AS b\r\nEOF\r\n\r\n-x\r\nRUN [\"c\"]\r\n"

theorem instructions_unifyLineEnds_windowsText :
    Paired windowsText.toList ∧
      instructions windowsText = [⟨"FROM", ["a", "AS", "b"], "FROM a    AS b"⟩,
        ⟨"EOF", ["-x"], "EOF\r\n\r\n-x"⟩, ⟨"RUN", ["c"], "RUN [\"c\"]"⟩] ∧
      instructions (unified windowsText) = (instructions windowsText).map Instruction.unified ∧
      ((Workspace.empty ["w"]).put ["w", "Dockerfile"]
          (.file (encode windowsText.toList))).disk.readText "Dockerfile" =
        .ok (unified windowsText) := by
  have hpaired : Paired windowsText.toList := by decide
  obtain ⟨hinstructions, -, -, hfile⟩ := instructions_unifyLineEnds hpaired
  exact ⟨hpaired, by decide +kernel, hinstructions, (hfile _ "Dockerfile" rfl).1⟩

end Dockerfile

end ImageTrust
