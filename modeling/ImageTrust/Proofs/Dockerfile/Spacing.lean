import ImageTrust.Proofs.Dockerfile.Grouping
import ImageTrust.Proofs.Dockerfile.Reading

/-! # Blank lines and comments between the lines of a Dockerfile

Blank lines and comments may be put before any line of a text, continued lines included: the
instructions say what they said without them.
-/

namespace ImageTrust.Dockerfile

open Text

/-! ## Blank lines -/

/-- Two texts that differ in blank lines between their lines only. -/
inductive Respaced : List Char → List Char → Prop
  | last {line : List Char} (hline : '\n' ∉ line) : Respaced line line
  | line {line a b : List Char} (hline : '\n' ∉ line) : Respaced a b →
      Respaced (line ++ '\n' :: a) (line ++ '\n' :: b)
  | left {blank a b : List Char} (hline : '\n' ∉ blank) (hblank : ∀ c ∈ blank, isBlank c) :
      Respaced a b → Respaced (blank ++ '\n' :: a) b
  | right {blank a b : List Char} (hline : '\n' ∉ blank) (hblank : ∀ c ∈ blank, isBlank c) :
      Respaced a b → Respaced a (blank ++ '\n' :: b)

variable {a b line : List Char}

theorem Respaced.symm (h : Respaced a b) : Respaced b a := by
  induction h with
  | last hline => exact .last hline
  | line hline _ ih => exact .line hline ih
  | left hline hblank _ ih => exact .right hline hblank ih
  | right hline hblank _ ih => exact .left hline hblank ih

/-- Two texts that differ in blank lines after their first line only. -/
inductive SameStart : List Char → List Char → Prop
  | last {line : List Char} (hline : '\n' ∉ line) : SameStart line line
  | line {line a b : List Char} (hline : '\n' ∉ line) : Respaced a b →
      SameStart (line ++ '\n' :: a) (line ++ '\n' :: b)

theorem SameStart.respaced (h : SameStart a b) : Respaced a b := by
  cases h with
  | last hline => exact .last hline
  | line hline h => exact .line hline h

theorem SameStart.append_left (h : SameStart a b) {front : List Char} (hfront : '\n' ∉ front) :
    SameStart (front ++ a) (front ++ b) := by
  cases h with
  | last hline => exact .last (by simp [hfront, hline])
  | line hline h =>
      rw [← List.append_assoc, ← List.append_assoc]
      exact .line (by simp [hfront, hline]) h

/-! ## Continued lines -/

theorem skipBlankLines_blank {blank : List Char} (hblank : ∀ c ∈ blank, isBlank c)
    (rest : List Char) : skipBlankLines (blank ++ '\n' :: rest) = skipBlankLines rest := by
  rw [skipBlankLines, afterLineEnds?_blank_line hblank, Option.getD_some]

/-- A line that ends in a backslash goes on with the next line that is not blank. -/
theorem joinLines_backslash_line (hline : '\n' ∉ line) (h : EndsInBackslash line) :
    ∃ front, '\n' ∉ front ∧
      ∀ rest, joinLines (line ++ '\n' :: rest) = front ++ joinLines (skipBlankLines rest) := by
  obtain ⟨front, blanks, rfl, hblanks⟩ := exists_of_endsInBackslash h
  have hfront : '\n' ∉ front := fun hmem => hline (List.mem_append_left _ hmem)
  refine ⟨front ++ [' '], by simp [hfront], fun rest => ?_⟩
  rw [List.append_assoc, List.cons_append, joinLines_line_append hfront (stops_cons rfl _),
    joinLines_of_some (afterLineEnds?_blank_line hblanks rest), List.append_assoc]
  rfl

theorem Respaced.refl (cs : List Char) : Respaced cs cs := by
  induction cs using lines_induction with
  | last line hline => exact .last hline
  | line line rest hline ih => exact .line hline ih

/-- Joining lines passes over blank lines after a backslash, and keeps the others. -/
theorem Respaced.joinLines_both (h : Respaced a b) :
    Respaced (joinLines a) (joinLines b) ∧
      SameStart (joinLines (skipBlankLines a)) (joinLines (skipBlankLines b)) := by
  induction h with
  | @last line hline =>
      have hskip : skipBlankLines line = line := by
        have hafter := afterLineEnds?_eq_none_iff.mpr fun hmem => hline (List.takeWhile_subset _ hmem)
        rw [skipBlankLines, hafter, Option.getD_none]
      rw [hskip, joinLines_line hline]
      exact ⟨.last hline, .last hline⟩
  | @line line a b hline h ih =>
      have hboth : SameStart (joinLines (line ++ '\n' :: a)) (joinLines (line ++ '\n' :: b)) := by
        by_cases hlast : EndsInBackslash line
        · obtain ⟨front, hfront, hjoin⟩ := joinLines_backslash_line hline hlast
          rw [hjoin, hjoin]
          exact ih.2.append_left hfront
        · rw [joinLines_line_newline hline hlast, joinLines_line_newline hline hlast]
          exact .line hline ih.1
      refine ⟨hboth.respaced, ?_⟩
      by_cases hvisible : visible line = []
      · have hblank := visible_eq_nil_iff.mp hvisible
        rw [skipBlankLines_blank hblank, skipBlankLines_blank hblank]
        exact ih.2
      · rw [skipBlankLines_visible hline hvisible, skipBlankLines_visible hline hvisible]
        exact hboth
  | left hline hblank _ ih =>
      have hlast := not_endsInBackslash_of_blank hblank
      rw [skipBlankLines_blank hblank, joinLines_line_newline hline hlast]
      exact ⟨.left hline hblank ih.1, ih.2⟩
  | right hline hblank _ ih =>
      have hlast := not_endsInBackslash_of_blank hblank
      rw [skipBlankLines_blank hblank, joinLines_line_newline hline hlast]
      exact ⟨.right hline hblank ih.1, ih.2⟩

/-! ## Reading -/

/-- What some instructions say. -/
def meanings (ws : List Written) : List (String × List String) :=
  ws.map fun w => w.instruction.meaning

/-- A line has some instructions, or a word that waits for its argument. -/
theorem scanFrom_line (hline : '\n' ∉ line) :
    (∃ ws, ∀ rest, scanFrom true (line ++ '\n' :: rest) = ws ++ scanFrom true rest) ∨
      ∃ word gap, ∀ rest, scanFrom true (line ++ '\n' :: rest) = readArgument word gap rest := by
  cases shape line with
  | blank hblank => exact .inl ⟨[], scanFrom_blank_line hline hblank⟩
  | word hopening => exact .inr ⟨_, _, hopening.scanFrom_word⟩
  | @instruction indent word gap text c hopening hc =>
      have htext : '\n' ∉ c :: text := fun hmem => hline (by simp [hmem])
      exact .inl ⟨[⟨word, gap, c :: text⟩], hopening.scanFrom_line htext ⟨c, rfl, hc⟩⟩
  | @other indent word text c hindent hword hc halpha =>
      refine .inl ⟨[], fun rest => scanFrom_line_of_none hline ?_⟩
      have hnone := readInstruction?_eq_none hindent hword hc halpha (text ++ '\n' :: rest)
      simpa only [List.append_assoc, List.cons_append] using hnone

/-- A word that waits takes a line that is not blank as its argument. -/
theorem readArgument_visible_line (hline : '\n' ∉ line) (hvisible : visible line ≠ []) :
    ∃ blanks argument, ∀ word gap rest, readArgument word gap (line ++ '\n' :: rest) =
      ⟨word, gap ++ blanks, argument⟩ :: scanFrom true rest := by
  obtain ⟨blanks, c, tail, rfl, hblanks, hc⟩ := exists_visible hvisible
  have htail : '\n' ∉ c :: tail := fun hmem => hline (List.mem_append_right _ hmem)
  refine ⟨blanks, c :: tail, fun word gap rest => ?_⟩
  rw [List.append_assoc, readArgument_blank hblanks,
    readArgument_line htail ⟨c, rfl, hc⟩ (atLineEnd_cons rest), scanFrom_false_newline]

theorem readArgument_blank_line {blank : List Char} (hblank : ∀ c ∈ blank, isBlank c)
    (word gap rest : List Char) :
    readArgument word gap (blank ++ '\n' :: rest) =
      readArgument word (gap ++ (blank ++ ['\n'])) rest := by
  have hblanks : ∀ c ∈ blank ++ ['\n'], isBlank c := by
    rw [← visible_eq_nil_iff, visible_append, visible_eq_nil_iff.mpr hblank]
    rfl
  rw [← readArgument_blank hblanks, List.append_assoc, List.singleton_append]

/-- The instructions of a text, and those of a word that waits before it, do not hang on blank lines. -/
theorem Respaced.meanings_both (h : Respaced a b) :
    meanings (scanFrom true a) = meanings (scanFrom true b) ∧
      ∀ word gap gap', meanings (readArgument word gap a) = meanings (readArgument word gap' b) := by
  induction h with
  | last hline => exact ⟨rfl, fun word gap gap' => rfl⟩
  | @line line a b hline h ih =>
      refine ⟨?_, fun word gap gap' => ?_⟩
      · rcases scanFrom_line hline with ⟨ws, hscan⟩ | ⟨word, gap, hscan⟩
        · rw [hscan, hscan, meanings, meanings, List.map_append, List.map_append]
          exact congrArg _ ih.1
        · rw [hscan, hscan]
          exact ih.2 word gap gap
      · by_cases hvisible : visible line = []
        · have hblank := visible_eq_nil_iff.mp hvisible
          rw [readArgument_blank_line hblank, readArgument_blank_line hblank]
          exact ih.2 word _ _
        · obtain ⟨blanks, argument, hread⟩ := readArgument_visible_line hline hvisible
          rw [hread, hread, meanings, meanings, List.map_cons, List.map_cons]
          exact congrArg _ ih.1
  | left hline hblank _ ih =>
      rw [scanFrom_blank_line hline (visible_eq_nil_iff.mpr hblank)]
      refine ⟨ih.1, fun word gap gap' => ?_⟩
      rw [readArgument_blank_line hblank]
      exact ih.2 word _ _
  | right hline hblank _ ih =>
      rw [scanFrom_blank_line hline (visible_eq_nil_iff.mpr hblank)]
      refine ⟨ih.1, fun word gap gap' => ?_⟩
      rw [readArgument_blank_line hblank]
      exact ih.2 word _ _

/-! ## Comments -/

/-- A line that is blank or a comment. -/
def IsInert (line : List Char) : Prop :=
  (∀ c ∈ line, isBlank c) ∨ ∃ indent text, line = indent ++ '#' :: text ∧ ∀ c ∈ indent, isBlank c

/-- A text of whole lines, and what it becomes with blank lines and comments put before, between and after
its lines. -/
inductive Padded : List Char → List Char → Prop
  | nil : Padded [] []
  | line {line cs ds : List Char} (hline : '\n' ∉ line) : Padded cs ds →
      Padded (line ++ '\n' :: cs) (line ++ '\n' :: ds)
  | inert {line cs ds : List Char} (hline : '\n' ∉ line) (h : IsInert line) : Padded cs ds →
      Padded cs (line ++ '\n' :: ds)

theorem Respaced.inert_right (hline : '\n' ∉ line) (hinert : IsInert line)
    (h : Respaced a (dropComments b)) : Respaced a (dropComments (line ++ '\n' :: b)) := by
  rw [dropComments] at h ⊢
  rcases hinert with hblank | ⟨indent, text, rfl, hindent⟩
  · rw [dropComments_blank hline hblank]
    split
    · exact h
    · exact .right hline hblank h
  · simp only [List.mem_append, List.mem_cons, not_or] at hline
    rw [dropComments_comment hindent hline.2.2 (atLineEnd_cons b), dropCommentsFrom_false_newline]
    exact .right (List.not_mem_nil) (List.forall_mem_nil _) h

theorem Respaced.line_dropComments (hline : '\n' ∉ line)
    (h : Respaced (dropComments a) (dropComments b)) :
    Respaced (dropComments (line ++ '\n' :: a)) (dropComments (line ++ '\n' :: b)) := by
  rcases isContent_cases line with hcontent | ⟨-, hblank⟩ | ⟨-, hcomment⟩
  · rw [dropComments, dropComments, dropComments_content hline hcontent (atLineEnd_cons a),
      dropComments_content hline hcontent (atLineEnd_cons b), dropCommentsFrom_false_newline,
      dropCommentsFrom_false_newline]
    exact .line hline h
  · exact ((h.inert_right hline (.inl hblank)).symm.inert_right hline (.inl hblank)).symm
  · exact ((h.inert_right hline (.inr hcomment)).symm.inert_right hline (.inr hcomment)).symm

theorem Padded.respaced (h : Padded a b) : Respaced (dropComments a) (dropComments b) := by
  induction h with
  | nil => exact .refl _
  | line hline _ ih => exact ih.line_dropComments hline
  | inert hline hinert _ ih => exact ih.inert_right hline hinert

theorem Padded.meanings_eq (h : Padded a b) :
    meanings (scanFrom true (preprocess a)) = meanings (scanFrom true (preprocess b)) :=
  h.respaced.joinLines_both.1.meanings_both.1

/-! ## Public theorem -/

/-- Blank lines and comments between the lines of a Dockerfile change neither what its instructions say
nor its stages. -/
theorem meaning_eq_of_padded {content padded : String} (h : Padded content.toList padded.toList)
    (given : Variables) :
    (instructions padded).map Instruction.meaning = (instructions content).map Instruction.meaning ∧
      (stages given padded).map Stage.heading = (stages given content).map Stage.heading ∧
      warnings given padded = warnings given content ∧
      baseImage? given padded = baseImage? given content := by
  have hmeaning : (instructions padded).map Instruction.meaning =
      (instructions content).map Instruction.meaning := by
    rw [instructions, instructions, List.map_map, List.map_map]
    exact h.meanings_eq.symm
  exact ⟨hmeaning, stages_congr hmeaning given⟩

/-- A comment and a blank line in an instruction that goes on, and a comment after a word that waits. -/
theorem meaning_eq_of_padded_continued :
    Padded "RUN a \\\n  b\nEOF\nFROM x\n".toList
        "# FROM y\nRUN a \\\n \t\n # c \\\n  b\nEOF\n#\nFROM x\n\n".toList ∧
      (instructions "# FROM y\nRUN a \\\n \t\n # c \\\n  b\nEOF\n#\nFROM x\n\n").map
          Instruction.meaning =
        (instructions "RUN a \\\n  b\nEOF\nFROM x\n").map Instruction.meaning := by
  have hpadded : Padded "RUN a \\\n  b\nEOF\nFROM x\n".toList
      "# FROM y\nRUN a \\\n \t\n # c \\\n  b\nEOF\n#\nFROM x\n\n".toList := by
    have hblank : IsInert " \t".toList := .inl (List.all_eq_true.mp rfl)
    have hempty : IsInert [] := .inl (List.forall_mem_nil _)
    have hfirst : IsInert "# FROM y".toList :=
      .inr ⟨[], " FROM y".toList, rfl, List.forall_mem_nil _⟩
    have hinner : IsInert " # c \\".toList :=
      .inr ⟨" ".toList, " c \\".toList, rfl, List.all_eq_true.mp rfl⟩
    have hlast : IsInert "#".toList := .inr ⟨[], [], rfl, List.forall_mem_nil _⟩
    have hend := @Padded.line "FROM x".toList _ _ (by decide) (.inert (by decide) hempty .nil)
    have hword := @Padded.line "EOF".toList _ _ (by decide) (.inert (by decide) hlast hend)
    have hnext := @Padded.line "  b".toList _ _ (by decide) hword
    have hcontinued := @Padded.line "RUN a \\".toList _ _ (by decide)
      (.inert (by decide) hblank (.inert (by decide) hinner hnext))
    exact .inert (by decide) hfirst hcontinued
  exact ⟨hpadded, (meaning_eq_of_padded hpadded []).1⟩

end ImageTrust.Dockerfile
