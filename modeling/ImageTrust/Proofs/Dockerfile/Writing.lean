import ImageTrust.Proofs.Dockerfile.Reading

/-! # Writing instructions

Texts that are read back as they are written: an instruction on a line of its own, and one whose
argument goes on over several lines.
-/

namespace ImageTrust.Dockerfile

open Text

/-- An instruction with one argument, a space between them. -/
def written (keyword argument : String) : Instruction :=
  ⟨keyword, [argument], keyword ++ " " ++ argument⟩

/-- A word in capitals that takes its argument as a whole. -/
structure IsKeyword (keyword : String) : Prop where
  ne_nil : keyword.toList ≠ []
  alpha : ∀ c ∈ keyword.toList, c.isAlpha
  upper : keyword.toList.map Char.toUpper = keyword.toList
  ne_from : keyword ≠ "FROM"

/-- A text that can be the argument of an instruction on one line. -/
structure Plain (argument : List Char) : Prop where
  ne_nil : argument ≠ []
  single : '\n' ∉ argument
  trimmed : Trimmed argument
  last : argument.getLast? ≠ some '\\'
  first : argument.head? ≠ some '['

/-! ## Plain texts -/

theorem Plain.exists_head {argument : List Char} (h : Plain argument) :
    ∃ c, argument.head? = some c ∧ isBlank c = false := by
  obtain ⟨c, hc⟩ := Option.isSome_iff_exists.mp (List.isSome_head?.mpr h.ne_nil)
  exact ⟨c, hc, h.trimmed.1 c hc⟩

theorem Plain.not_endsInBackslash {argument : List Char} (h : Plain argument) (front : List Char) :
    ¬ EndsInBackslash (front ++ argument) := by
  rcases List.eq_nil_or_concat argument with hnil | ⟨init, c, rfl⟩
  · exact absurd hnil h.ne_nil
  · rw [List.concat_eq_append] at h
    have hc : isBlank c = false := h.trimmed.2 c List.getLast?_concat
    have hlast : c ≠ '\\' := fun heq => h.last (by rw [heq, List.getLast?_concat])
    have hvisible : visible [c] = [c] := visible_cons_of_not_blank hc []
    rw [EndsInBackslash, List.concat_eq_append, visible_append, visible_append, hvisible,
      ← List.append_assoc, List.getLast?_concat]
    exact fun heq => hlast (Option.some.inj heq)

/-- Between two plain texts anything may stand on their line. -/
theorem Plain.append {first last : List Char} (hfirst : Plain first) (hlast : Plain last)
    {middle : List Char} (h : '\n' ∉ middle) : Plain (first ++ (middle ++ last)) := by
  obtain ⟨c, hc⟩ := Option.isSome_iff_exists.mp (List.isSome_head?.mpr hfirst.ne_nil)
  obtain ⟨d, hd⟩ := Option.isSome_iff_exists.mp (List.getLast?_isSome.mpr hlast.ne_nil)
  have hhead : (first ++ (middle ++ last)).head? = first.head? := by
    rw [List.head?_append, hc, Option.some_or]
  have htail : (first ++ (middle ++ last)).getLast? = last.getLast? := by
    rw [← List.append_assoc, List.getLast?_append, hd, Option.some_or]
  refine ⟨by simp [hfirst.ne_nil], by simp [hfirst.single, hlast.single, h], ⟨?_, ?_⟩, ?_, ?_⟩
  · rw [hhead]
    exact hfirst.trimmed.1
  · rw [htail]
    exact hlast.trimmed.2
  · rw [htail]
    exact hlast.last
  · rw [hhead]
    exact hfirst.first

/-! ## One line -/

variable {keyword argument : String}

theorem IsKeyword.opening (hk : IsKeyword keyword) : Opening [] keyword.toList [' '] :=
  ⟨by simp, hk.alpha, hk.ne_nil, List.all_eq_true.mp rfl, by simp⟩

theorem IsKeyword.plain (hk : IsKeyword keyword) : Plain keyword.toList := by
  have hmem : ∀ c : Char, c.isAlpha = false → c ∉ keyword.toList := by
    intro c hc hmem
    rw [hk.alpha c hmem] at hc
    cases hc
  refine ⟨hk.ne_nil, hmem '\n' rfl, ⟨?_, ?_⟩, ?_, ?_⟩
  · exact fun c hc => isBlank_eq_false_of_isAlpha (hk.alpha c (List.mem_of_head? hc))
  · exact fun c hc => isBlank_eq_false_of_isAlpha (hk.alpha c (List.mem_of_getLast? hc))
  · exact fun hlast => hmem '\\' rfl (List.mem_of_getLast? hlast)
  · exact fun hfirst => hmem '[' rfl (List.mem_of_head? hfirst)

/-- An instruction is what it is written as. -/
theorem instruction_eq_written (hk : IsKeyword keyword) (h : Plain argument.toList) :
    Written.instruction ⟨keyword.toList, [' '], argument.toList⟩ = written keyword argument := by
  have hkeyword : Written.keyword ⟨keyword.toList, [' '], argument.toList⟩ = keyword := by
    rw [Written.keyword, hk.upper, String.ofList_toList]
  have hline : Plain (keyword.toList ++ ([' '] ++ argument.toList)) := hk.plain.append h (by decide)
  rw [Written.instruction, hkeyword, trim_of_trimmed h.trimmed, List.append_assoc,
    trim_of_trimmed hline.trimmed, argumentsOf, isArray_eq_false h.first, if_neg Bool.false_ne_true,
    if_neg hk.ne_from, written]
  simp [String.append_assoc]

theorem instructions_empty : instructions "" = [] := by
  rw [instructions, String.toList_empty, preprocess, dropComments, dropCommentsFrom_nil, joinLines,
    scanFrom_nil]
  rfl

theorem instructions_line (hk : IsKeyword keyword) (h : Plain argument.toList) (rest : String) :
    instructions (keyword ++ " " ++ argument ++ "\n" ++ rest) =
      written keyword argument :: instructions rest := by
  have hline : Plain (keyword.toList ++ ([' '] ++ argument.toList)) := hk.plain.append h (by decide)
  have htext : (keyword ++ " " ++ argument ++ "\n" ++ rest).toList =
      keyword.toList ++ ([' '] ++ argument.toList) ++ '\n' :: rest.toList := by
    simp
  rw [instructions, htext, hk.opening.scanFrom_preprocess_line hline.single h.exists_head
    (hline.not_endsInBackslash []), List.map_cons, instruction_eq_written hk h, instructions]

/-! ## Several lines -/

/-- A plain text that is not taken for a comment when it begins a line. -/
structure PlainLine (line : List Char) : Prop extends Plain line where
  ne_comment : line.head? ≠ some '#'

/-- The two ends of a line decide whether it can be written. -/
theorem plainLine_of_ends {line : List Char} {c d : Char} (hhead : line.head? = some c)
    (hlast : line.getLast? = some d) (hc : isBlank c = false ∧ c ≠ '[' ∧ c ≠ '#')
    (hd : isBlank d = false ∧ d ≠ '\\') (h : '\n' ∉ line) : PlainLine line := by
  refine ⟨⟨?_, h, ⟨?_, ?_⟩, ?_, ?_⟩, ?_⟩
  · rintro rfl
    cases hhead
  · simp [hhead, hc.1]
  · simp [hlast, hd.1]
  · simp [hlast, hd.2]
  · simp [hhead, hc.2.1]
  · simp [hhead, hc.2.2]

theorem plain_intercalate {separator first : String} {others : List String}
    (h : ∀ text ∈ first :: others, Plain text.toList) (hseparator : '\n' ∉ separator.toList) :
    Plain (String.intercalate separator (first :: others)).toList := by
  induction others generalizing first with
  | nil =>
      rw [String.intercalate_singleton]
      exact h first List.mem_cons_self
  | cons second others ih =>
      have hothers := ih fun text hmem => h text (List.mem_cons_of_mem _ hmem)
      rw [String.intercalate_cons_cons, String.append_assoc, String.toList_append,
        String.toList_append]
      exact (h first List.mem_cons_self).append hothers hseparator

theorem PlainLine.exists_cons {line : List Char} (h : PlainLine line) :
    ∃ c rest, line = c :: rest ∧ isBlank c = false ∧ c ≠ '#' := by
  obtain ⟨c, rest, rfl⟩ := List.exists_cons_of_ne_nil h.ne_nil
  refine ⟨c, rest, rfl, h.trimmed.1 c rfl, ?_⟩
  rintro rfl
  exact h.ne_comment rfl

theorem exists_intercalate_eq (separator first : String) (others : List String) :
    ∃ tail, String.intercalate separator (first :: others) = first ++ tail := by
  cases others with
  | nil => exact ⟨"", by rw [String.intercalate_singleton, String.append_empty]⟩
  | cons second others =>
      exact ⟨_, by rw [String.intercalate_cons_cons, String.append_assoc]⟩

/-- Texts that are joined by a backslash at the end of a line, and an indentation, are on one line. -/
theorem preprocess_intercalate {start : List Char} {first : String} {others : List String}
    (hstart : '\n' ∉ start) (hcontent : isContent (start ++ first.toList))
    (h : ∀ text ∈ first :: others, PlainLine text.toList) (rest : List Char) :
    preprocess (start ++ (String.intercalate " && \\\n    " (first :: others)).toList ++ '\n' :: rest) =
      start ++ (String.intercalate " &&      " (first :: others)).toList ++
        '\n' :: preprocess rest := by
  induction others generalizing start first with
  | nil =>
      have hfirst := h first List.mem_cons_self
      have hline : '\n' ∉ start ++ first.toList := by simp [hstart, hfirst.single]
      rw [String.intercalate_singleton, String.intercalate_singleton,
        preprocess_line hline hcontent (hfirst.not_endsInBackslash start)]
  | cons second others ih =>
      have hfirst := h first List.mem_cons_self
      have hothers : ∀ text ∈ second :: others, PlainLine text.toList :=
        fun text hmem => h text (List.mem_cons_of_mem _ hmem)
      have hsecond := hothers second List.mem_cons_self
      obtain ⟨c, letters, hc, hblank, hcomment⟩ := hsecond.exists_cons
      obtain ⟨tail, htail⟩ := exists_intercalate_eq " && \\\n    " second others
      have hindent : ∀ c ∈ "    ".toList, isBlank c := List.all_eq_true.mp (by decide)
      have hnext : isContent ("    ".toList ++ second.toList) := by
        rw [isContent, List.dropWhile_append_of_pos hindent, hc, List.dropWhile_cons_of_neg]
        · exact decide_eq_true hcomment
        · simp [hblank]
      have hjoined := ih (by decide) hnext hothers
      have hline : '\n' ∉ start ++ first.toList ++ " && ".toList := by
        simp [hstart, hfirst.single]
      have hafter : (String.intercalate " && \\\n    " (second :: others)).toList ++ '\n' :: rest =
          c :: (letters ++ tail.toList ++ '\n' :: rest) := by
        simp [htail, hc]
      have hcontinued := preprocess_continued hline (isContent_append hcontent _) hindent (by decide)
        hblank hcomment (letters ++ tail.toList ++ '\n' :: rest)
      rw [← hafter, ← List.append_assoc "    ".toList, hjoined] at hcontinued
      simpa [String.intercalate_cons_cons] using hcontinued

/-- An instruction over several lines is read back with all of them as its argument. -/
theorem instructions_intercalate (hk : IsKeyword keyword) {first : String} {others : List String}
    (h : ∀ text ∈ first :: others, PlainLine text.toList) (rest : String) :
    instructions
        (keyword ++ " " ++ String.intercalate " && \\\n    " (first :: others) ++ "\n" ++ rest) =
      written keyword (String.intercalate " &&      " (first :: others)) :: instructions rest := by
  have hplain : Plain (String.intercalate " &&      " (first :: others)).toList :=
    plain_intercalate (fun text hmem => (h text hmem).toPlain) (by decide)
  have hcontent := hk.opening.isContent ([' '] ++ first.toList)
  rw [List.nil_append, ← List.append_assoc] at hcontent
  have hstart : '\n' ∉ keyword.toList ++ [' '] := by simp [hk.plain.single]
  have htext :
      (keyword ++ " " ++ String.intercalate " && \\\n    " (first :: others) ++ "\n" ++ rest).toList =
      keyword.toList ++ [' '] ++ (String.intercalate " && \\\n    " (first :: others)).toList ++
        '\n' :: rest.toList := by
    simp
  have hscan := hk.opening.scanFrom_line hplain.single hplain.exists_head (preprocess rest.toList)
  rw [List.nil_append, ← List.append_assoc] at hscan
  rw [instructions, htext, preprocess_intercalate hstart hcontent h, hscan, List.map_cons,
    instruction_eq_written hk hplain, instructions]

end ImageTrust.Dockerfile
