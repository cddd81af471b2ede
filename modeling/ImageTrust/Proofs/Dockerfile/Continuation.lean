import ImageTrust.Proofs.Dockerfile.Comments

/-! # Continued lines of a Dockerfile

Joining lines acts on the parts of a text between backslashes at line ends.
-/

namespace ImageTrust.Dockerfile

open Text

/-- The last visible character of a line or a text is a backslash. -/
def EndsInBackslash (cs : List Char) : Prop :=
  (visible cs).getLast? = some '\\'

instance : DecidablePred EndsInBackslash :=
  fun cs => inferInstanceAs (Decidable ((visible cs).getLast? = some '\\'))

theorem not_endsInBackslash_of_blank {cs : List Char} (h : ∀ c ∈ cs, isBlank c) :
    ¬ EndsInBackslash cs := by
  simp [EndsInBackslash, visible_eq_nil_iff.mpr h]

theorem exists_of_endsInBackslash {cs : List Char} (h : EndsInBackslash cs) :
    ∃ front blanks, cs = front ++ '\\' :: blanks ∧ ∀ c ∈ blanks, isBlank c := by
  have hvisible : visible cs ≠ [] := by
    intro hnil
    rw [EndsInBackslash, hnil] at h
    cases h
  obtain ⟨front, c, blanks, rfl, hblanks, hc⟩ := exists_last_visible hvisible
  rw [EndsInBackslash, visible_append, visible_cons_of_not_blank hc, visible_eq_nil_iff.mpr hblanks,
    List.getLast?_append, List.getLast?_singleton, Option.some_or, Option.some.injEq] at h
  exact ⟨front, blanks, by rw [h], hblanks⟩

/-! ## White space after a backslash -/

/-- What follows a backslash becomes visible at once, or after white space. -/
theorem afterLineEnds?_run {blanks rest : List Char} (hblanks : ∀ c ∈ blanks, isBlank c)
    (stops : ∀ c, rest.head? = some c → isBlank c = false) :
    afterLineEnds? (blanks ++ rest) =
      if '\n' ∈ blanks then some ((blanks.reverse.takeWhile (· ≠ '\n')).reverse ++ rest)
      else none := by
  rw [afterLineEnds?, takeWhile_run hblanks stops, dropWhile_run hblanks stops]
  simp

theorem afterLineEnds?_append {cs : List Char} (h : visible cs ≠ []) (rest : List Char) :
    afterLineEnds? (cs ++ rest) = (afterLineEnds? cs).map (· ++ rest) := by
  obtain ⟨blanks, c, tail, rfl, hblanks, hc⟩ := exists_visible h
  rw [List.append_assoc, List.cons_append, afterLineEnds?_run hblanks (stops_cons hc _),
    afterLineEnds?_run hblanks (stops_cons hc _)]
  split <;> simp

theorem afterLineEnds?_eq_none_iff {cs : List Char} :
    afterLineEnds? cs = none ↔ '\n' ∉ cs.takeWhile isBlank := by
  simp [afterLineEnds?]

theorem afterLineEnds?_of_append {a b : List Char} (h : afterLineEnds? (a ++ b) = none) :
    afterLineEnds? a = none := by
  rw [afterLineEnds?_eq_none_iff, List.takeWhile_append] at h
  rw [afterLineEnds?_eq_none_iff]
  split at h
  · exact fun hmem => h (List.mem_append_left _ (List.takeWhile_subset _ hmem))
  · exact h

theorem afterLineEnds?_cons_eq_none_iff {c : Char} {cs : List Char} :
    afterLineEnds? (c :: cs) = none ↔ (isBlank c → c ≠ '\n' ∧ afterLineEnds? cs = none) := by
  rw [afterLineEnds?_eq_none_iff, afterLineEnds?_eq_none_iff, List.takeWhile_cons]
  by_cases hc : isBlank c
  · simp [hc, eq_comm]
  · simp [hc]

/-- White space is passed over up to its last line end. -/
theorem afterLineEnds?_cons {c : Char} (hc : isBlank c) (cs : List Char) :
    afterLineEnds? (c :: cs) = (afterLineEnds? cs).or (if c = '\n' then some cs else none) := by
  have hblanks : ∀ d ∈ cs.takeWhile isBlank, isBlank d := fun d hd => List.mem_takeWhile_imp hd
  have hstops : ∀ d, (cs.dropWhile isBlank).head? = some d → isBlank d = false :=
    fun d hd => head?_dropWhile hd
  have hsplit := List.takeWhile_append_dropWhile (p := isBlank) (l := cs)
  generalize cs.takeWhile isBlank = blanks at hblanks hsplit
  generalize cs.dropWhile isBlank = rest at hstops hsplit
  subst hsplit
  have hcons : ∀ d ∈ c :: blanks, isBlank d := by simpa [hc] using hblanks
  rw [← List.cons_append, afterLineEnds?_run hcons hstops, afterLineEnds?_run hblanks hstops,
    List.reverse_cons]
  by_cases hmem : '\n' ∈ blanks
  · obtain ⟨front, back, hback, hfront⟩ := List.eq_append_cons_of_mem (List.mem_reverse.mpr hmem)
    rw [if_pos (List.mem_cons_of_mem c hmem), if_pos hmem, hback, List.append_assoc, List.cons_append,
      takeWhile_line hfront (atLineEnd_cons _), takeWhile_line hfront (atLineEnd_cons _)]
    rfl
  · have hreverse : '\n' ∉ blanks.reverse := by simpa using hmem
    rw [if_neg hmem]
    by_cases hnewline : c = '\n'
    · rw [hnewline, if_pos List.mem_cons_self, takeWhile_line hreverse (atLineEnd_cons [])]
      simp
    · rw [if_neg (by simp [hmem, Ne.symm hnewline]), if_neg hnewline]
      rfl

/-- Only white space that reaches a line end is looked through for the last one. -/
theorem afterLineEnds?_append_of_none {rest : List Char} (h : afterLineEnds? rest = none)
    (front : List Char) :
    afterLineEnds? (front ++ rest) = (afterLineEnds? front).map (· ++ rest) := by
  induction front with
  | nil => exact h
  | cons c front ih =>
      by_cases hc : isBlank c
      · rw [List.cons_append, afterLineEnds?_cons hc, afterLineEnds?_cons hc, ih]
        by_cases hnewline : c = '\n' <;> cases afterLineEnds? front <;> simp [hnewline]
      · rw [List.cons_append, afterLineEnds?_cons_eq_none_iff.mpr fun hblank => absurd hblank hc,
          afterLineEnds?_cons_eq_none_iff.mpr fun hblank => absurd hblank hc]
        rfl

/-- A text from its first line on that is not blank. -/
def skipBlankLines (cs : List Char) : List Char :=
  (afterLineEnds? cs).getD cs

theorem afterLineEnds?_blank_line {blank : List Char} (hblank : ∀ c ∈ blank, isBlank c)
    (rest : List Char) : afterLineEnds? (blank ++ '\n' :: rest) = some (skipBlankLines rest) := by
  induction blank with
  | nil =>
      rw [List.nil_append, afterLineEnds?_cons rfl, if_pos rfl, skipBlankLines]
      cases afterLineEnds? rest <;> rfl
  | cons c blank ih =>
      rw [List.cons_append, afterLineEnds?_cons (hblank c List.mem_cons_self),
        ih fun d hd => hblank d (List.mem_cons_of_mem c hd), Option.some_or]

theorem afterLineEnds?_visible {line : List Char} (hline : '\n' ∉ line) (hvisible : visible line ≠ [])
    (rest : List Char) : afterLineEnds? (line ++ rest) = none := by
  rw [afterLineEnds?_append hvisible, afterLineEnds?_eq_none_iff.mpr]
  · rfl
  · exact fun hmem => hline (List.takeWhile_subset _ hmem)

theorem skipBlankLines_visible {line : List Char} (hline : '\n' ∉ line) (hvisible : visible line ≠ [])
    (rest : List Char) : skipBlankLines (line ++ rest) = line ++ rest := by
  rw [skipBlankLines, afterLineEnds?_visible hline hvisible, Option.getD_none]

/-- A line that continues another one comes after a line end, and it is not blank. -/
theorem of_afterLineEnds? {cs rest : List Char} (h : afterLineEnds? cs = some rest) :
    '\n' :: rest <:+ cs ∧ afterLineEnds? rest = none := by
  induction cs with
  | nil => cases h
  | cons c cs ih =>
      by_cases hc : isBlank c
      · rw [afterLineEnds?_cons hc] at h
        cases hafter : afterLineEnds? cs with
        | some more =>
            rw [hafter, Option.some_or] at h
            obtain ⟨hsuffix, hnone⟩ := ih (hafter.trans h)
            exact ⟨hsuffix.trans (List.suffix_cons c cs), hnone⟩
        | none =>
            rw [hafter, Option.none_or, Option.ite_none_right_eq_some] at h
            obtain ⟨rfl, hrest⟩ := h
            cases hrest
            exact ⟨List.suffix_refl _, hafter⟩
      · rw [afterLineEnds?_eq_none_iff.mpr (by simp [hc])] at h
        cases h

theorem visible_of_afterLineEnds? {cs rest : List Char} (h : afterLineEnds? cs = some rest) :
    visible rest = visible cs := by
  rw [afterLineEnds?] at h
  split at h
  · have hblank : visible ((cs.takeWhile isBlank).reverse.takeWhile (· ≠ '\n')).reverse = [] := by
      rw [visible_eq_nil_iff]
      intro c hc
      have hmem := List.takeWhile_subset _ (List.mem_reverse.mp hc)
      exact List.mem_takeWhile_imp (List.mem_reverse.mp hmem)
    rw [← Option.some.inj h, visible_append, hblank, visible_dropWhile, List.nil_append]
  · cases h

/-- White space that stays on its line does not continue it. -/
theorem afterLineEnds?_eq_none {line rest : List Char} (hline : '\n' ∉ line)
    (stops : ∀ c, rest.head? = some c → isBlank c = false) : afterLineEnds? (line ++ rest) = none := by
  by_cases h : visible line = []
  · rw [afterLineEnds?_run (visible_eq_nil_iff.mp h) stops, if_neg hline]
  · rw [afterLineEnds?_append h, afterLineEnds?, if_neg]
    · rfl
    · simpa using fun hmem => hline (List.takeWhile_subset _ hmem)

/-! ## One step -/

theorem joinLines_cons_of_ne {c : Char} (h : c ≠ '\\') (cs : List Char) :
    joinLines (c :: cs) = c :: joinLines cs := by
  rw [joinLines]
  exact h

theorem joinLines_of_some {cs rest : List Char} (h : afterLineEnds? cs = some rest) :
    joinLines ('\\' :: cs) = ' ' :: joinLines rest := by
  rw [joinLines]
  split
  · next heq =>
      rw [h] at heq
      cases heq
      rfl
  · next heq => simp [h] at heq

theorem joinLines_of_none {cs : List Char} (h : afterLineEnds? cs = none) :
    joinLines ('\\' :: cs) = '\\' :: joinLines cs := by
  rw [joinLines]
  split
  · next heq => simp [h] at heq
  · rfl

/-! ## One line -/

/-- Backslashes inside a line are kept. -/
theorem joinLines_line_append {line rest : List Char} (hline : '\n' ∉ line)
    (stops : ∀ c, rest.head? = some c → isBlank c = false) :
    joinLines (line ++ rest) = line ++ joinLines rest := by
  induction line with
  | nil => rfl
  | cons c line ih =>
      simp only [List.mem_cons, not_or] at hline
      rw [List.cons_append]
      by_cases hc : c = '\\'
      · rw [hc, joinLines_of_none (afterLineEnds?_eq_none hline.2 stops), ih hline.2]
        rfl
      · rw [joinLines_cons_of_ne hc, ih hline.2]
        rfl

theorem joinLines_line {line : List Char} (h : '\n' ∉ line) : joinLines line = line := by
  have hstops : ∀ c, ([] : List Char).head? = some c → isBlank c = false := by simp
  have hjoin := joinLines_line_append h hstops
  rw [List.append_nil, joinLines, List.append_nil] at hjoin
  exact hjoin

/-- A backslash at a line end becomes a space in front of the indentation of the next line. -/
theorem joinLines_continued {indent rest : List Char} (hindent : ∀ c ∈ indent, isBlank c)
    (hline : '\n' ∉ indent) (stops : ∀ c, rest.head? = some c → isBlank c = false) :
    joinLines ('\\' :: '\n' :: (indent ++ rest)) = ' ' :: (indent ++ joinLines rest) := by
  have hblanks : ∀ c ∈ '\n' :: indent, isBlank c := by
    intro c hc
    rcases List.mem_cons.mp hc with rfl | hc
    · rfl
    · exact hindent c hc
  have hafter : afterLineEnds? ('\n' :: (indent ++ rest)) = some (indent ++ rest) := by
    rw [← List.cons_append, afterLineEnds?_run hblanks stops, if_pos List.mem_cons_self,
      List.reverse_cons, takeWhile_line (by simpa using hline) (atLineEnd_cons []),
      List.reverse_reverse]
  rw [joinLines_of_some hafter, joinLines_line_append hline stops]

/-! ## Whole texts -/

theorem EndsInBackslash.of_afterLineEnds? {cs rest : List Char} (h : afterLineEnds? cs = some rest)
    (hrest : EndsInBackslash rest) : EndsInBackslash ('\\' :: cs) := by
  rw [EndsInBackslash, visible_of_afterLineEnds? h] at hrest
  rw [EndsInBackslash, visible_cons_of_not_blank rfl, List.getLast?_cons, hrest]
  rfl

theorem visible_ne_nil_of_not_endsInBackslash {cs : List Char} (h : ¬ EndsInBackslash ('\\' :: cs)) :
    visible cs ≠ [] := by
  intro hblank
  rw [EndsInBackslash, visible_cons_of_not_blank rfl, hblank] at h
  exact h rfl

theorem EndsInBackslash.cons {cs : List Char} (h : EndsInBackslash cs) (c : Char) :
    EndsInBackslash (c :: cs) := by
  have hsplit : visible (c :: cs) = visible [c] ++ visible cs := visible_append [c] cs
  rw [EndsInBackslash] at h ⊢
  rw [hsplit, List.getLast?_append, h]
  rfl

theorem EndsInBackslash.of_suffix {cs rest : List Char} (h : EndsInBackslash rest)
    (hrest : rest <:+ cs) : EndsInBackslash cs := by
  obtain ⟨front, rfl⟩ := hrest
  induction front with
  | nil => exact h
  | cons c front ih => exact ih.cons c

/-- A text that does not end in a backslash is joined independently of what follows. -/
theorem joinLines_append {a : List Char} (ha : ¬ EndsInBackslash a) (b : List Char) :
    joinLines (a ++ b) = joinLines a ++ joinLines b := by
  induction a using joinLines.induct with
  | case1 => simp [joinLines]
  | case2 cs rest hafter ih =>
      have hvisible := visible_ne_nil_of_not_endsInBackslash ha
      have hafter_append : afterLineEnds? (cs ++ b) = some (rest ++ b) := by
        rw [afterLineEnds?_append hvisible, hafter]
        rfl
      rw [List.cons_append, joinLines_of_some hafter_append, joinLines_of_some hafter,
        ih fun h => ha (h.of_afterLineEnds? hafter)]
      rfl
  | case3 cs hafter ih =>
      have hvisible := visible_ne_nil_of_not_endsInBackslash ha
      rw [List.cons_append, joinLines_of_none, joinLines_of_none hafter, ih fun h => ha (h.cons _)]
      · rfl
      · rw [afterLineEnds?_append hvisible, hafter]
        rfl
  | case4 c cs hc ih =>
      rw [List.cons_append, joinLines_cons_of_ne hc, joinLines_cons_of_ne hc,
        ih fun h => ha (h.cons _)]
      rfl

/-- A text that does not begin with a line end, white space aside, is joined independently of what
stands before it. -/
theorem joinLines_append_of_none {rest : List Char} (h : afterLineEnds? rest = none)
    (front : List Char) : joinLines (front ++ rest) = joinLines front ++ joinLines rest := by
  induction front using joinLines.induct with
  | case1 => simp [joinLines]
  | case2 cs after hafter ih =>
      have hboth : afterLineEnds? (cs ++ rest) = some (after ++ rest) := by
        rw [afterLineEnds?_append_of_none h, hafter, Option.map_some]
      rw [List.cons_append, joinLines_of_some hboth, joinLines_of_some hafter, ih, List.cons_append]
  | case3 cs hafter ih =>
      have hboth : afterLineEnds? (cs ++ rest) = none := by
        rw [afterLineEnds?_append_of_none h, hafter, Option.map_none]
      rw [List.cons_append, joinLines_of_none hboth, joinLines_of_none hafter, ih, List.cons_append]
  | case4 c cs hc ih =>
      rw [List.cons_append, joinLines_cons_of_ne hc, joinLines_cons_of_ne hc, ih, List.cons_append]

/-- A line that does not end in a backslash stays as it is. -/
theorem joinLines_line_newline {line : List Char} (hline : '\n' ∉ line) (h : ¬ EndsInBackslash line)
    (rest : List Char) : joinLines (line ++ '\n' :: rest) = line ++ '\n' :: joinLines rest := by
  rw [joinLines_append h, joinLines_line hline, joinLines_cons_of_ne (by decide)]

theorem terminated_joinLines {cs : List Char} (h : Terminated cs) (hlast : ¬ EndsInBackslash cs) :
    Terminated (joinLines cs) := by
  rcases List.eq_nil_or_concat cs with rfl | ⟨front, c, rfl⟩
  · exact .inl (by rw [joinLines])
  · rw [List.concat_eq_append] at *
    have hc : c = '\n' := by simpa [Terminated] using h
    subst hc
    have hvisible : visible (front ++ ['\n']) = visible front := by
      rw [visible_append]
      exact List.append_nil _
    rw [EndsInBackslash, hvisible] at hlast
    rw [joinLines_append hlast, joinLines_cons_of_ne (by decide), joinLines]
    exact .inr (by simp)

/-! ## Texts without continued lines -/

/-- No backslash of a text stands at the end of a line. -/
def ContinuationFree (cs : List Char) : Prop :=
  Behind '\\' (fun rest => afterLineEnds? rest = none) cs

theorem ContinuationFree.joinLines {cs : List Char} (h : ContinuationFree cs) :
    joinLines cs = cs := by
  induction cs with
  | nil => rw [Dockerfile.joinLines]
  | cons c cs ih =>
      obtain ⟨hfirst, hlater⟩ := behind_cons_iff.mp h
      by_cases hc : c = '\\'
      · rw [hc, joinLines_of_none (hfirst hc), ih hlater]
      · rw [joinLines_cons_of_ne hc, ih hlater]

theorem ContinuationFree.suffix {cs rest : List Char} (h : ContinuationFree cs) (hrest : rest <:+ cs) :
    ContinuationFree rest :=
  Behind.suffix h hrest

theorem ContinuationFree.part {cs part : List Char} (h : ContinuationFree cs) (hpart : part <:+: cs) :
    ContinuationFree part :=
  Behind.part h (fun _ _ => afterLineEnds?_of_append) hpart

/-- What follows a text that does not end in a backslash continues none of its lines. -/
theorem ContinuationFree.append {a b : List Char} (ha : ContinuationFree a) (hb : ContinuationFree b)
    (hlast : ¬ EndsInBackslash a) : ContinuationFree (a ++ b) := by
  refine Behind.append ha hb fun tail htail hnone => ?_
  have hvisible := visible_ne_nil_of_not_endsInBackslash fun h => hlast (h.of_suffix htail)
  rw [afterLineEnds?_append hvisible, hnone]
  rfl

/-- Joining lines brings no line end to the start of a text. -/
theorem afterLineEnds?_joinLines {cs : List Char} (h : afterLineEnds? cs = none) :
    afterLineEnds? (joinLines cs) = none := by
  induction cs using joinLines.induct with
  | case1 => rwa [joinLines]
  | case2 cs rest hafter ih =>
      rw [joinLines_of_some hafter, afterLineEnds?_cons_eq_none_iff]
      exact fun _ => ⟨by decide, ih (of_afterLineEnds? hafter).2⟩
  | case3 cs hafter ih =>
      rw [joinLines_of_none hafter, afterLineEnds?_cons_eq_none_iff]
      exact fun hc => absurd hc (by decide)
  | case4 c cs hc ih =>
      rw [afterLineEnds?_cons_eq_none_iff] at h
      rw [joinLines_cons_of_ne hc, afterLineEnds?_cons_eq_none_iff]
      exact fun hblank => ⟨(h hblank).1, ih (h hblank).2⟩

/-- A text with its continued lines joined has no continued lines. -/
theorem continuationFree_joinLines (cs : List Char) : ContinuationFree (joinLines cs) := by
  induction cs using joinLines.induct with
  | case1 =>
      rw [joinLines]
      exact behind_of_not_mem List.not_mem_nil
  | case2 cs rest hafter ih =>
      rw [joinLines_of_some hafter]
      exact behind_cons_iff.mpr ⟨fun hc => absurd hc (by decide), ih⟩
  | case3 cs hafter ih =>
      rw [joinLines_of_none hafter]
      exact behind_cons_iff.mpr ⟨fun _ => afterLineEnds?_joinLines hafter, ih⟩
  | case4 c cs hc ih =>
      rw [joinLines_cons_of_ne hc]
      exact behind_cons_iff.mpr ⟨fun heq => absurd heq hc, ih⟩

/-- The lines of a text with its continued lines joined start as lines of the text do. -/
theorem behind_newline_joinLines {P : List Char → Prop} {cs : List Char} (h : Behind '\n' P cs)
    (hjoin : ∀ rest, rest <:+ cs → P rest → P (joinLines rest)) : Behind '\n' P (joinLines cs) := by
  induction cs using joinLines.induct with
  | case1 => rwa [joinLines]
  | case2 cs rest hafter ih =>
      have hsuffix : rest <:+ '\\' :: cs :=
        (List.suffix_cons _ _).trans ((of_afterLineEnds? hafter).1.trans (List.suffix_cons _ _))
      rw [joinLines_of_some hafter, behind_cons_iff]
      refine ⟨fun hc => absurd hc (by decide), ih (h.suffix hsuffix) fun more hmore => ?_⟩
      exact hjoin more (hmore.trans hsuffix)
  | case3 cs hafter ih =>
      rw [joinLines_of_none hafter, behind_cons_iff]
      refine ⟨fun hc => absurd hc (by decide), ih (behind_cons_iff.mp h).2 fun more hmore => ?_⟩
      exact hjoin more (hmore.trans (List.suffix_cons _ _))
  | case4 c cs hc ih =>
      obtain ⟨hfirst, hlater⟩ := behind_cons_iff.mp h
      rw [joinLines_cons_of_ne hc, behind_cons_iff]
      have hsuffix := List.suffix_cons c cs
      refine ⟨fun hline => hjoin cs hsuffix (hfirst hline), ih hlater fun more hmore => ?_⟩
      exact hjoin more (hmore.trans hsuffix)

/-! ## Both passes -/

/-- The last line with content decides whether a text without its comments ends in a backslash. -/
theorem endsInBackslash_dropComments_iff {cs : List Char} :
    EndsInBackslash (dropComments cs) ↔
      ∃ line, (contentLines cs).getLast? = some line ∧ EndsInBackslash line := by
  rw [EndsInBackslash, getLast?_visible_dropComments, Option.bind_eq_some_iff]
  rfl

variable {a b : List Char}

/-- A text that is not continued and a text that begins with content are preprocessed independently. -/
theorem preprocess_append (ha : Terminated a)
    (hlast : ∀ line, (contentLines a).getLast? = some line → ¬ EndsInBackslash line)
    (hb : afterComment? b = none) : preprocess (a ++ b) = preprocess a ++ preprocess b := by
  rw [preprocess, preprocess, preprocess, dropComments_append ha hb, joinLines_append]
  rw [endsInBackslash_dropComments_iff]
  rintro ⟨line, hline, hends⟩
  exact hlast line hline hends

theorem terminated_preprocess (ha : Terminated a)
    (hlast : ∀ line, (contentLines a).getLast? = some line → ¬ EndsInBackslash line) :
    Terminated (preprocess a) := by
  rw [preprocess]
  apply terminated_joinLines (terminated_dropComments ha)
  rw [endsInBackslash_dropComments_iff]
  rintro ⟨line, hline, hends⟩
  exact hlast line hline hends

/-- A line with content stays as it is. -/
theorem preprocess_line {line : List Char} (hline : '\n' ∉ line) (hcontent : isContent line)
    (hlast : ¬ EndsInBackslash line) (rest : List Char) :
    preprocess (line ++ '\n' :: rest) = line ++ '\n' :: preprocess rest := by
  rw [preprocess, dropComments, dropComments_content hline hcontent (atLineEnd_cons rest),
    dropCommentsFrom_false_newline, joinLines_line_newline hline hlast]
  rfl

/-- A line with content goes on with what follows a backslash at its end, white space included. -/
theorem preprocess_continued {line indent : List Char} {c : Char} (hline : '\n' ∉ line)
    (hcontent : isContent line) (hindent : ∀ c ∈ indent, isBlank c) (hsingle : '\n' ∉ indent)
    (hblank : isBlank c = false) (hcomment : c ≠ '#') (next : List Char) :
    preprocess (line ++ '\\' :: '\n' :: (indent ++ c :: next)) =
      line ++ ' ' :: preprocess (indent ++ c :: next) := by
  obtain ⟨tail, hnext⟩ := dropComments_indented hindent hsingle hblank hcomment next
  have hbackslash : '\n' ∉ line ++ ['\\'] := by simp [hline]
  have hcomments : dropComments (line ++ '\\' :: '\n' :: (indent ++ c :: next)) =
      line ++ '\\' :: '\n' :: (indent ++ c :: tail) := by
    have happend := dropComments_content hbackslash (isContent_append hcontent _)
      (atLineEnd_cons (indent ++ c :: next))
    rw [dropCommentsFrom_false_newline, hnext] at happend
    simpa [dropComments] using happend
  have hstops := stops_cons hblank tail
  rw [preprocess, hcomments, joinLines_line_append hline (stops_cons rfl _),
    joinLines_continued hindent hsingle hstops, preprocess, dropComments, hnext,
    joinLines_line_append hsingle hstops]

end ImageTrust.Dockerfile
