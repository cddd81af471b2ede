import ImageTrust.Proofs.Dockerfile.Reading
import ImageTrust.Proofs.Dockerfile.Settled

/-! # Reading instructions back from their texts

The texts of the instructions of a Dockerfile, one after another, are a Dockerfile with the same
instructions. A word at the very end needs white space after it to be an instruction, and its text has
none.
-/

namespace ImageTrust.Dockerfile

open Text

/-! ## Instructions in a text -/

/-- Instructions that stand in a text, one behind the other. -/
inductive ReadOff : List Char → List Written → Prop
  | nil {cs : List Char} : ReadOff cs []
  | cons {cs rest : List Char} {w : Written} {ws : List Written} (hw : w.Precedes rest)
      (hsuffix : w.text ++ rest <:+ cs) : ReadOff rest ws → ReadOff cs (w :: ws)

variable {cs rest : List Char} {w : Written} {ws : List Written}

theorem ReadOff.of_suffix (h : ReadOff rest ws) (hrest : rest <:+ cs) : ReadOff cs ws := by
  cases h with
  | nil => exact .nil
  | cons hw hsuffix h => exact .cons hw (hsuffix.trans hrest) h

theorem readOff_scanFrom (lineStart : Bool) (cs : List Char) : ReadOff cs (scanFrom lineStart cs) := by
  induction lineStart, cs using scanFrom.induct with
  | case1 lineStart cs w rest hread ih =>
      split at hread
      · next hline =>
          subst hline
          obtain ⟨hw, hstart⟩ := of_readInstruction? hread
          rw [scanFrom_of_some hread]
          exact .cons hw (hstart ▸ List.dropWhile_suffix isBlank) ih
      · cases hread
  | case2 lineStart hread =>
      rw [scanFrom_nil]
      exact .nil
  | case3 lineStart c rest hread ih =>
      rw [scanFrom_cons fun hline => by simpa [hline] using hread]
      exact ih.of_suffix (List.suffix_cons c rest)

/-! ## The text of an instruction -/

theorem toList_raw_instruction (w : Written) : w.instruction.raw.toList = trim w.text := by
  rw [Written.instruction, String.toList_ofList, Written.text, List.append_assoc]

theorem Written.Precedes.head?_text (h : w.Precedes rest) :
    ∀ c ∈ w.text.head?, isBlank c = false :=
  h.opening.head?_word _

theorem Written.Precedes.trim_word (h : w.Precedes rest) : trim w.word = w.word := by
  have hvisible : ∀ c ∈ w.word, isBlank c = false :=
    fun c hc => isBlank_eq_false_of_isAlpha (h.opening.word_alpha c hc)
  exact trim_of_trimmed ⟨fun c hc => hvisible c (List.mem_of_head? hc),
    fun c hc => hvisible c (List.mem_of_getLast? hc)⟩

theorem Written.Precedes.trim_text_of_nil (h : w.Precedes rest) (hargument : w.argument = []) :
    trim w.text = w.word := by
  rw [Written.text, hargument, List.append_nil, trim_append_blank h.opening.gap_blank, h.trim_word]

/-- White space is left in the trimmed text of an instruction only if it has an argument. -/
theorem Written.Precedes.argument_ne_nil (h : w.Precedes rest) {c : Char} (hc : c ∈ trim w.text)
    (hblank : isBlank c) : w.argument ≠ [] := by
  intro hnil
  rw [h.trim_text_of_nil hnil] at hc
  rw [isBlank_eq_false_of_isAlpha (h.opening.word_alpha c hc)] at hblank
  cases hblank

/-- The trimmed text of an instruction is not taken for a comment. -/
theorem Written.Precedes.afterComment?_trim (h : w.Precedes rest) :
    afterComment? (trim w.text) = none := by
  obtain ⟨blanks, hsplit, -⟩ := exists_trim_append h.head?_text
  have hcontent := afterComment?_content (h.opening.isContent (w.gap ++ w.argument)) []
  rw [List.append_nil, List.nil_append] at hcontent
  change afterComment? w.text = none at hcontent
  rw [hsplit] at hcontent
  exact afterComment?_of_append hcontent

/-- An instruction with an argument. -/
structure Written.Complete (w : Written) : Prop where
  opening : Opening [] w.word w.gap
  single : '\n' ∉ w.argument
  start : ∃ c, w.argument.head? = some c ∧ isBlank c = false

theorem Written.Precedes.complete (h : w.Precedes rest) (hne : w.argument ≠ []) : w.Complete := by
  obtain ⟨c, hc⟩ := Option.isSome_iff_exists.mp (List.isSome_head?.mpr hne)
  exact ⟨h.opening, h.single, c, hc, h.start c hc⟩

/-- An instruction without the white space after its argument. -/
def Written.tidy (w : Written) : Written :=
  { w with argument := trim w.argument }

theorem Written.Complete.start_eq (h : w.Complete) : ∀ c ∈ w.argument.head?, isBlank c = false := by
  obtain ⟨c, hc, hblank⟩ := h.start
  intro d hd
  cases hc.symm.trans hd
  exact hblank

theorem Written.Complete.tidy_ne_nil (h : w.Complete) : w.tidy.argument ≠ [] := by
  have hvisible := visible_ne_nil_of_head? h.start
  rw [← visible_trim] at hvisible
  exact fun hnil => hvisible (congrArg visible hnil)

theorem Written.Complete.tidy (h : w.Complete) : w.tidy.Complete := by
  obtain ⟨blanks, hsplit, -⟩ := exists_trim_append h.start_eq
  refine ⟨h.opening, fun hmem => h.single ?_, ?_⟩
  · rw [hsplit]
    exact List.mem_append_left blanks hmem
  · obtain ⟨c, hc⟩ := Option.isSome_iff_exists.mp (List.isSome_head?.mpr h.tidy_ne_nil)
    exact ⟨c, hc, (trimmed_trim w.argument).1 c hc⟩

theorem Written.Complete.trimmed_text (h : w.Complete) : Trimmed w.tidy.text := by
  refine ⟨h.tidy.opening.head?_word _, fun c hc => (trimmed_trim w.argument).2 c ?_⟩
  obtain ⟨d, hd⟩ := Option.isSome_iff_exists.mp (List.getLast?_isSome.mpr h.tidy_ne_nil)
  rw [Written.text, ← List.append_assoc, List.getLast?_append, hd, Option.some_or] at hc
  exact hd.trans hc

theorem Written.Complete.trim_text (h : w.Complete) : trim w.text = w.tidy.text := by
  obtain ⟨blanks, hsplit, hblanks⟩ := exists_trim_append h.start_eq
  have htext : w.text = w.tidy.text ++ blanks := by
    rw [Written.text, hsplit, Written.text, Written.tidy]
    simp
  rw [htext, trim_append_blank hblanks, trim_of_trimmed h.trimmed_text]

/-- The trimmed text of an instruction goes on with white space behind its word, if it goes on. -/
theorem Written.Precedes.exists_trim_text (h : w.Precedes rest) :
    ∃ tail, trim w.text = w.word ++ tail ∧ (∀ c ∈ tail.head?, isBlank c) ∧
      trim tail = trim w.argument := by
  by_cases hargument : w.argument = []
  · exact ⟨[], by rw [h.trim_text_of_nil hargument, List.append_nil], by simp, by rw [hargument]⟩
  · refine ⟨w.gap ++ trim w.argument, (h.complete hargument).trim_text, fun c hc => ?_, ?_⟩
    · obtain ⟨d, blanks, hgap⟩ := List.exists_cons_of_ne_nil h.opening.gap_ne_nil
      rw [hgap] at hc
      cases hc
      exact h.opening.gap_blank c (hgap ▸ List.mem_cons_self)
    · rw [trim_blank_append h.opening.gap_blank, trim_of_trimmed (trimmed_trim w.argument)]

/-- The white space after an argument is no part of the instruction. -/
theorem Written.Complete.instruction_tidy (h : w.Complete) : w.tidy.instruction = w.instruction := by
  have hraw : trim (w.word ++ w.gap ++ trim w.argument) = trim (w.word ++ w.gap ++ w.argument) := by
    rw [List.append_assoc, List.append_assoc]
    exact (trim_of_trimmed h.trimmed_text).trans h.trim_text.symm
  rw [Written.instruction, Written.instruction, Written.tidy, hraw,
    trim_of_trimmed (trimmed_trim w.argument)]
  rfl

/-! ## Reading back -/

/-- The texts of some instructions, one after another. -/
def rawLines (ws : List Written) : List Char :=
  ['\n'].intercalate (ws.map fun w => trim w.text)

theorem Written.Complete.scanFrom_text (h : w.Complete) (hrest : AtLineEnd rest) :
    scanFrom true (w.text ++ rest) = w :: scanFrom false rest := by
  rw [Written.text, List.append_assoc, List.append_assoc, ← List.nil_append (w.word ++ _),
    h.opening.scanFrom, readArgument_line h.single h.start hrest]

theorem scanFrom_rawLines (h : ∀ w ∈ ws, w.Complete) :
    scanFrom true (rawLines ws) = ws.map Written.tidy := by
  induction ws with
  | nil => exact scanFrom_nil true
  | cons w ws ih =>
      have hw := h w List.mem_cons_self
      have hlater := ih fun v hv => h v (List.mem_cons_of_mem w hv)
      cases ws with
      | nil =>
          have hscan := hw.tidy.scanFrom_text atLineEnd_nil
          rw [List.append_nil, scanFrom_nil] at hscan
          simpa [rawLines, hw.trim_text] using hscan
      | cons v ws =>
          have hscan := hw.tidy.scanFrom_text (atLineEnd_cons (rawLines (v :: ws)))
          rw [scanFrom_false_newline, hlater] at hscan
          simpa [rawLines, hw.trim_text] using hscan

/-! ## Settled lines -/

theorem ReadOff.ne_nil (h : ReadOff cs (w :: ws)) : cs ≠ [] := by
  cases h with
  | @cons _ rest _ _ hw hsuffix =>
      rintro rfl
      have hnil := List.suffix_nil.mp hsuffix
      simp [Written.text, hw.opening.word_ne_nil] at hnil

/-- All instructions have an argument if the last one has one. -/
theorem ReadOff.complete (h : ReadOff cs ws)
    (hlast : ∀ w ∈ ws.getLast?, ∃ c ∈ trim w.text, isBlank c) : ∀ w ∈ ws, w.Complete := by
  induction h with
  | nil => exact List.forall_mem_nil _
  | @cons cs rest w ws hw hsuffix hrest ih =>
      refine List.forall_mem_cons.mpr ⟨hw.complete ?_, ih fun v hv => hlast v ?_⟩
      -- an argument is missing at the end of the text only, where no other instruction follows
      · cases hrest with
        | nil =>
            obtain ⟨c, hc, hblank⟩ := hlast w rfl
            exact hw.argument_ne_nil hc hblank
        | cons hv hsuffix' hrest' =>
            exact fun hnil => (ReadOff.cons hv hsuffix' hrest').ne_nil (hw.rest_eq_nil hnil)
      · rw [List.getLast?_cons, hv]
        rfl

/-- In a text without continued lines an instruction that ends in a backslash is the last one. -/
theorem Written.Precedes.not_endsInBackslash (h : w.Precedes rest) (hne : rest ≠ [])
    (hcontinued : ContinuationFree (w.text ++ rest)) : ¬ EndsInBackslash w.text := by
  intro hends
  obtain ⟨front, blanks, htext, hblanks⟩ := exists_of_endsInBackslash hends
  obtain ⟨more, rfl⟩ := h.lineEnd.resolve_left hne
  have hnone : afterLineEnds? (blanks ++ '\n' :: more) = none :=
    hcontinued _ ⟨front, by simp [htext]⟩
  rw [afterLineEnds?_blank_line hblanks] at hnone
  cases hnone

/-- The texts of the instructions of a text without comments and continued lines need no
preprocessing. -/
theorem ReadOff.settled_rawLines (h : ReadOff cs ws) (hcomments : CommentFree cs)
    (hcontinued : ContinuationFree cs) : Settled (rawLines ws) := by
  induction h with
  | nil => exact settled_nil
  | @cons cs rest w ws hw hsuffix hrest ih =>
      -- each text is a part of the whole one, so only the line ends put between them are new
      have hcomments := hcomments.suffix hsuffix
      have hcontinued := hcontinued.suffix hsuffix
      have hrest_suffix : rest <:+ w.text ++ rest := List.suffix_append _ _
      have hlater := ih (hcomments.suffix hrest_suffix) (hcontinued.suffix hrest_suffix)
      obtain ⟨blanks, hsplit, -⟩ := exists_trim_append hw.head?_text
      have hpart : trim w.text <:+: w.text ++ rest := by
        refine ⟨[], blanks ++ rest, ?_⟩
        rw [List.nil_append, ← List.append_assoc, ← hsplit]
      have hfirst : Settled (trim w.text) := settled_iff.mpr
        ⟨hw.afterComment?_trim, hcomments.part hpart, hcontinued.part hpart⟩
      cases ws with
      | nil => simpa [rawLines] using hfirst
      | cons v ws =>
          have hlast : ¬ EndsInBackslash (trim w.text) := by
            rw [EndsInBackslash, visible_trim]
            exact hw.not_endsInBackslash hrest.ne_nil hcontinued
          simpa [rawLines] using hfirst.append_line hlater hlast

/-! ## Public theorem -/

theorem toList_intercalate_raw (ws : List Written) :
    (String.intercalate "\n" ((ws.map Written.instruction).map Instruction.raw)).toList =
      rawLines ws := by
  rw [String.toList_intercalate, rawLines, List.map_map, List.map_map]
  simp [Function.comp_def, Written.instruction, Written.text]

/-- The texts of the instructions of a Dockerfile, joined by line ends, are a Dockerfile with the same
instructions, if the last one has an argument. -/
theorem instructions_intercalate_raw {content : String}
    (h : ∀ i ∈ (instructions content).getLast?, ∃ c ∈ i.raw.toList, isBlank c) :
    instructions (String.intercalate "\n" ((instructions content).map Instruction.raw)) =
      instructions content := by
  have hread := readOff_scanFrom true (preprocess content.toList)
  have hsettled := settled_iff.mp (settled_preprocess content.toList)
  have hcomplete := hread.complete fun w hw => by
    have hlast := h w.instruction (by rw [instructions, List.getLast?_map, hw]; rfl)
    simpa [Written.instruction, Written.text] using hlast
  have hlines := hread.settled_rawLines hsettled.2.1 hsettled.2.2
  rw [instructions, instructions, toList_intercalate_raw, hlines.preprocess_eq,
    scanFrom_rawLines hcomplete, List.map_map]
  exact List.map_congr_left fun w hw => (hcomplete w hw).instruction_tidy

/-- An argument on a later line than its word, a comment in a line that goes on, a line that is no
instruction, and a backslash at the very end. -/
theorem instructions_intercalate_raw_backslash :
    instructions "# a\nEOF\n \n-x\nFROM a \\\n\n  # b\n as c\n=\nRUN d \\" =
        [⟨"EOF", ["-x"], "EOF\n \n-x"⟩, ⟨"FROM", ["a", "as", "c"], "FROM a   as c"⟩,
          ⟨"RUN", ["d \\"], "RUN d \\"⟩] ∧
      instructions "EOF\n \n-x\nFROM a   as c\nRUN d \\" =
        instructions "# a\nEOF\n \n-x\nFROM a \\\n\n  # b\n as c\n=\nRUN d \\" := by
  have hread : instructions "# a\nEOF\n \n-x\nFROM a \\\n\n  # b\n as c\n=\nRUN d \\" =
      [⟨"EOF", ["-x"], "EOF\n \n-x"⟩, ⟨"FROM", ["a", "as", "c"], "FROM a   as c"⟩,
        ⟨"RUN", ["d \\"], "RUN d \\"⟩] := by
    decide +kernel
  have hraws : String.intercalate "\n"
      ((instructions "# a\nEOF\n \n-x\nFROM a \\\n\n  # b\n as c\n=\nRUN d \\").map
        Instruction.raw) = "EOF\n \n-x\nFROM a   as c\nRUN d \\" := by
    rw [hread]
    decide
  refine ⟨hread, ?_⟩
  rw [← hraws]
  refine instructions_intercalate_raw fun i hi => ?_
  rw [hread] at hi
  cases hi
  exact ⟨' ', by decide, rfl⟩

/-- A word at the very end is an instruction only with white space after it. -/
example : instructions "EOF\n" = [⟨"EOF", [""], "EOF"⟩] ∧ instructions "EOF" = [] := by
  decide +kernel

end ImageTrust.Dockerfile
