import ImageTrust.Dockerfile.Stage
import ImageTrust.Proofs.Dockerfile.Reading

/-! # FROM lines

A FROM line opens a stage of its own unless a lone word before it takes it as its argument.
-/

namespace ImageTrust.Dockerfile

open Text

/-! ## Lines that should open a stage -/

/-- The word FROM in any letters, white space and something visible after it. -/
structure IsFromLine (line : List Char) : Prop where
  single : '\n' ∉ line
  parts : ∃ indent word gap image, line = indent ++ (word ++ (gap ++ image)) ∧
    (∀ c ∈ indent, isBlank c) ∧ word.map Char.toUpper = "FROM".toList ∧
    (∀ c ∈ gap, isBlank c) ∧ gap ≠ [] ∧ visible image ≠ []

/-- A FROM line that stands in a text and does not continue the line before it. -/
structure FromLineAt (before line after : List Char) : Prop where
  fromLine : IsFromLine line
  start : Terminated before
  stop : AtLineEnd after
  fresh : ∀ last ∈ (contentLines before).getLast?, ¬ EndsInBackslash last

/-- The line is read as the instruction `i`, right after the instructions of the text before it, and
opens the next stage. -/
structure Opens (given : Variables) (before line after : List Char) (i : Instruction)
    (later : List Instruction) : Prop where
  keyword : i.keyword = "FROM"
  raw : ¬ EndsInBackslash line → i.raw = String.ofList (trim line)
  alone : instructions (String.ofList (line ++ after)) = i :: later
  read : instructions (String.ofList (before ++ (line ++ after))) =
    instructions (String.ofList before) ++ i :: later
  stage : ∃ laterStages, stages given (String.ofList (before ++ (line ++ after))) =
    stages given (String.ofList before) ++
      (stageOfGroup (stageVariables given (instructions (String.ofList before)))
        (i, preamble later)).1 :: laterStages

/-! ## The parts of a FROM line -/

/-- A letter in capitals is the letter itself, or the letter was a small one. -/
theorem eq_or_isLower_of_toUpper {c upper : Char} (h : c.toUpper = upper) :
    c = upper ∨ c.isLower ∧ c.toNat = upper.toNat + 32 := by
  unfold Char.toUpper at h
  split at h
  · next hlower =>
      have hbounds : 97 ≤ c.toNat ∧ c.toNat ≤ 122 := by
        simpa [UInt32.le_iff_toNat_le] using hlower
      have hvalue : upper.toNat = (c.val + ('A'.val - 'a'.val)).toNat := by
        rw [← h, Char.toNat]
      have hshift : ('A'.val - 'a'.val).toNat = 4294967264 := rfl
      have hc : c.val.toNat = c.toNat := rfl
      rw [UInt32.toNat_add, hshift, hc] at hvalue
      refine .inr ⟨?_, by omega⟩
      unfold Char.isLower
      simpa using hlower
  · exact .inl h

theorem isAlpha_of_toUpper {c : Char} (h : c.toUpper.isAlpha) : c.isAlpha := by
  rcases eq_or_isLower_of_toUpper (c := c) rfl with heq | ⟨hlower, -⟩
  · rwa [heq]
  · unfold Char.isAlpha
    rw [hlower, Bool.or_true]

theorem isAlpha_of_map_toUpper {word : List Char} (h : word.map Char.toUpper = "FROM".toList) :
    ∀ c ∈ word, c.isAlpha := by
  intro c hc
  have hletters : ∀ d ∈ "FROM".toList, d.isAlpha := List.all_eq_true.mp (by decide)
  exact isAlpha_of_toUpper (hletters _ (h ▸ List.mem_map_of_mem hc))

theorem ne_nil_of_map_toUpper {word : List Char} (h : word.map Char.toUpper = "FROM".toList) :
    word ≠ [] := by
  rintro rfl
  cases h

/-- A FROM line up to the first visible character after its word. -/
theorem IsFromLine.exists_parts {line : List Char} (h : IsFromLine line) :
    ∃ indent word gap c image, line = indent ++ (word ++ (gap ++ c :: image)) ∧
      Opening indent word gap ∧ word.map Char.toUpper = "FROM".toList ∧ isBlank c = false := by
  obtain ⟨indent, word, gap, image, rfl, hindent, hword, hgap, hne, hvisible⟩ := h.parts
  obtain ⟨blanks, c, tail, rfl, hblanks, hc⟩ := exists_visible hvisible
  have hopening : Opening indent word gap :=
    ⟨hindent, isAlpha_of_map_toUpper hword, ne_nil_of_map_toUpper hword, hgap, hne⟩
  exact ⟨indent, word, gap ++ blanks, c, tail, by simp, hopening.gap_append hblanks, hword, hc⟩

/-! ## Reading a FROM line -/

theorem atLineEnd_dropCommentsFrom {after : List Char} (h : AtLineEnd after) :
    AtLineEnd (dropCommentsFrom false after) := by
  rcases h with rfl | ⟨more, rfl⟩
  · exact .inl (dropCommentsFrom_nil false)
  · exact .inr ⟨_, dropCommentsFrom_false_newline more⟩

theorem atLineEnd_joinLines {after : List Char} (h : AtLineEnd after) :
    AtLineEnd (joinLines after) := by
  rcases h with rfl | ⟨more, rfl⟩
  · exact .inl (by rw [joinLines])
  · exact .inr ⟨_, joinLines_cons_of_ne (by decide) more⟩

/-- A text from a FROM line on is an instruction and what follows it. -/
theorem IsFromLine.scanFrom_preprocess {line after : List Char} (h : IsFromLine line)
    (hafter : AtLineEnd after) :
    ∃ w later, scanFrom true (preprocess (line ++ after)) = w :: later ∧ w.keyword = "FROM" ∧
      (¬ EndsInBackslash line → w.instruction.raw = String.ofList (trim line)) := by
  obtain ⟨indent, word, gap, c, image, rfl, hopening, hfrom, hc⟩ := h.exists_parts
  have hkeyword : String.ofList (word.map Char.toUpper) = "FROM" := by rw [hfrom, String.ofList_toList]
  have himage : '\n' ∉ c :: image := fun hmem => h.single (by simp [hmem])
  have hstop := atLineEnd_joinLines (atLineEnd_dropCommentsFrom hafter)
  rw [hopening.preprocess h.single hc hafter, hopening.scanFrom]
  by_cases hlast : EndsInBackslash (c :: image)
  · refine ⟨_, _, rfl, hkeyword, fun hline => absurd ?_ hline⟩
    rw [EndsInBackslash] at hlast ⊢
    simp only [visible_append, List.getLast?_append, hlast, Option.some_or]
  · rw [joinLines_append hlast, joinLines_line himage, readArgument_line himage ⟨c, rfl, hc⟩ hstop]
    refine ⟨_, _, rfl, hkeyword, fun _ => ?_⟩
    rw [Written.instruction, trim_blank_append hopening.indent_blank, List.append_assoc]

/-! ## A word that waits takes the line -/

/-- A visible argument shows in the text of an instruction. -/
theorem readArgument_visible (word gap : List Char) {cs : List Char} (h : visible cs ≠ []) :
    ∃ w later, readArgument word gap cs = w :: later ∧
      w.instruction ≠ Written.instruction ⟨word, gap, []⟩ := by
  obtain ⟨blanks, c, tail, rfl, hblanks, hc⟩ := exists_visible h
  have hnewline : c ≠ '\n' := by
    rintro rfl
    cases hc
  refine ⟨_, _, rfl, fun heq => ?_⟩
  have hraw := congrArg (fun i : Instruction => visible i.raw.toList) heq
  simp only [Written.instruction, String.toList_ofList, visible_trim, visible_append] at hraw
  rw [dropWhile_run hblanks (stops_cons hc tail)] at hraw
  simp [hnewline, visible_cons_of_not_blank hc] at hraw

/-! ## Stages -/

theorem preamble_append_from {i : Instruction} (h : i.isFrom) (is later : List Instruction) :
    preamble (is ++ i :: later) = preamble is := by
  induction is with
  | nil => simp [preamble, h]
  | cons j is ih =>
      rw [preamble, preamble] at ih
      cases hj : j.isFrom <;> simp [preamble, hj, ih]

theorem groups_append_from {i : Instruction} (h : i.isFrom) (is later : List Instruction) :
    groups (is ++ i :: later) = groups is ++ (i, preamble later) :: groups later := by
  induction is with
  | nil => simp [groups, h]
  | cons j is ih =>
      cases hj : j.isFrom <;> simp [groups, hj, ih, preamble_append_from h]

/-- A FROM instruction after some others opens the stage after theirs. -/
theorem stages_append_from {given : Variables} {content front : String} {i : Instruction}
    {later : List Instruction} (h : i.isFrom)
    (hread : instructions content = instructions front ++ i :: later) :
    ∃ laterStages, stages given content = stages given front ++
      (stageOfGroup (stageVariables given (instructions front)) (i, preamble later)).1 ::
        laterStages := by
  have hvariables : stageVariables given (instructions front ++ i :: later) =
      stageVariables given (instructions front) := by
    rw [stageVariables, stageVariables, preamble_append_from h]
  refine ⟨(groups later).map fun group =>
    (stageOfGroup (stageVariables given (instructions front)) group).1, ?_⟩
  simp only [stages, checkedStages, hread, hvariables, groups_append_from h]
  simp

/-! ## The place of a FROM line -/

variable {before line after : List Char}

theorem FromLineAt.preprocess_append (h : FromLineAt before line after) :
    preprocess (before ++ (line ++ after)) = preprocess before ++ preprocess (line ++ after) := by
  obtain ⟨indent, word, gap, c, image, rfl, hopening, -, -⟩ := h.fromLine.exists_parts
  have hcontent := hopening.isContent (gap ++ c :: image)
  exact Dockerfile.preprocess_append h.start h.fresh (afterComment?_content hcontent after)

theorem instructions_ofList (cs : List Char) :
    instructions (String.ofList cs) = (scanFrom true (preprocess cs)).map Written.instruction := by
  rw [instructions, String.toList_ofList]

theorem FromLineAt.exists_opens (h : FromLineAt before line after)
    (hwaits : waits (visibleLines (preprocess before)) = false) (given : Variables) :
    ∃ i later, Opens given before line after i later := by
  obtain ⟨front, waiting, hreads⟩ := exists_reads (terminated_preprocess h.start h.fresh)
  have hsome := hreads.isSome_waiting
  rw [hwaits, Option.isSome_eq_false_iff, Option.isNone_iff_eq_none] at hsome
  subst hsome
  obtain ⟨w, later, hscan, hkeyword, hraw⟩ := h.fromLine.scanFrom_preprocess h.stop
  have halone : instructions (String.ofList (line ++ after)) =
      w.instruction :: later.map Written.instruction := by
    rw [instructions_ofList, hscan, List.map_cons]
  have hfront : scanFrom true (preprocess before) = front := by
    simpa [resume, scanFrom_nil] using hreads.scanFrom_append []
  have hread : instructions (String.ofList (before ++ (line ++ after))) =
      instructions (String.ofList before) ++ w.instruction :: later.map Written.instruction := by
    rw [instructions_ofList, instructions_ofList, h.preprocess_append, hreads.scanFrom_append, hfront,
      resume, hscan]
    simp
  have hfrom : w.instruction.isFrom := decide_eq_true hkeyword
  exact ⟨w.instruction, later.map Written.instruction, hkeyword, hraw, halone, hread,
    stages_append_from hfrom hread⟩

theorem FromLineAt.not_opens (h : FromLineAt before line after)
    (hwaits : waits (visibleLines (preprocess before)) = true) (given : Variables)
    (i : Instruction) (later : List Instruction) : ¬ Opens given before line after i later := by
  intro hopens
  obtain ⟨front, waiting, hreads⟩ := exists_reads (terminated_preprocess h.start h.fresh)
  have hsome := hreads.isSome_waiting
  rw [hwaits, Option.isSome_iff_exists] at hsome
  obtain ⟨⟨word, gap⟩, rfl⟩ := hsome
  have hvisible : visible (preprocess (line ++ after)) ≠ [] := by
    obtain ⟨indent, letters, blanks, c, image, rfl, hopening, -, hc⟩ := h.fromLine.exists_parts
    rw [hopening.preprocess h.fromLine.single hc h.stop]
    exact hopening.visible_ne_nil _
  obtain ⟨w, more, hscan, hne⟩ := readArgument_visible word gap hvisible
  have hbefore : scanFrom true (preprocess before) = front ++ [⟨word, gap, []⟩] := by
    simpa [resume, readArgument_nil] using hreads.scanFrom_append []
  have hread := hopens.read
  rw [instructions_ofList, instructions_ofList, h.preprocess_append, hreads.scanFrom_append, hbefore,
    resume, hscan, List.map_append, List.map_append, List.append_assoc,
    List.append_cancel_left_eq] at hread
  exact hne (List.cons.inj hread).1

/-- A FROM line opens a stage of its own exactly when no lone word waits for its argument before it. -/
theorem exists_opens_iff (h : FromLineAt before line after) (given : Variables) :
    (∃ i later, Opens given before line after i later) ↔
      waits (visibleLines (preprocess before)) = false := by
  refine ⟨fun ⟨i, later, hopens⟩ => ?_, fun hwaits => h.exists_opens hwaits given⟩
  rw [← Bool.not_eq_true]
  exact fun hwaits => h.not_opens hwaits given i later hopens

theorem isFromLine_alpine : IsFromLine "FROM alpine".toList where
  single := by decide
  parts := ⟨[], "FROM".toList, [' '], "alpine".toList, by decide, by simp, by decide,
    List.all_eq_true.mp rfl, by simp, by decide⟩

theorem exists_opens_alpine :
    ∃ i later, Opens [] "FROM debian\nLABEL a=b\n".toList "FROM alpine".toList ['\n'] i later := by
  have hplace : FromLineAt "FROM debian\nLABEL a=b\n".toList "FROM alpine".toList ['\n'] :=
    ⟨isFromLine_alpine, .inr (by decide), atLineEnd_cons [], by decide⟩
  exact (exists_opens_iff hplace []).mpr (by decide +kernel)

/-- The word that ends a text inside an instruction takes the FROM line after it. -/
theorem not_forall_exists_opens : ¬ ∀ (given : Variables) (before line after : List Char),
    FromLineAt before line after → ∃ i later, Opens given before line after i later := by
  intro hall
  have hplace : FromLineAt "FROM debian\nRUN cat <<EOF\nhello world\nEOF\n".toList
      "FROM alpine".toList ['\n'] :=
    ⟨isFromLine_alpine, .inr (by decide), atLineEnd_cons [], by decide⟩
  obtain ⟨i, later, hopens⟩ := hall [] _ _ _ hplace
  exact hplace.not_opens (by decide +kernel) [] i later hopens

end ImageTrust.Dockerfile
