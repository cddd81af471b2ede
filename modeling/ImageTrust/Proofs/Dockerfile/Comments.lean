import ImageTrust.Dockerfile.Instruction
import ImageTrust.Proofs.Text.Lines

/-! # Comments of a Dockerfile

What is left of a text without its comments, line by line.
-/

namespace ImageTrust.Dockerfile

open Text

/-! ## Lines with content -/

/-- Whether a line is neither blank nor a comment. -/
def isContent (line : List Char) : Bool :=
  match line.dropWhile isBlank with
  | [] => false
  | c :: _ => c ≠ '#'

/-- The lines of a text that are neither blank nor comments. -/
def contentLines (cs : List Char) : List (List Char) :=
  (splitAt '\n' cs).filter isContent

theorem visible_ne_nil_of_isContent {line : List Char} (h : isContent line) : visible line ≠ [] := by
  intro hblank
  rw [isContent, List.dropWhile_eq_nil_iff.mpr (visible_eq_nil_iff.mp hblank)] at h
  cases h

theorem isContent_append {line : List Char} (h : isContent line) (rest : List Char) :
    isContent (line ++ rest) := by
  rw [isContent] at h ⊢
  split at h
  · cases h
  · next c tail heq =>
      rw [List.dropWhile_append, heq]
      simpa using h

theorem contentLines_of_not_mem {line : List Char} (h : '\n' ∉ line) :
    contentLines line = if isContent line then [line] else [] := by
  rw [contentLines, splitAt_of_not_mem h, List.filter_cons, List.filter_nil]

theorem contentLines_append {line : List Char} (h : '\n' ∉ line) (rest : List Char) :
    contentLines (line ++ '\n' :: rest) =
      (if isContent line then [line] else []) ++ contentLines rest := by
  rw [contentLines, splitAt_append_cons rest h, List.filter_cons]
  split <;> simp [contentLines]

/-! ## The start of a line -/

theorem afterComment?_blank_append {blanks : List Char} (h : ∀ c ∈ blanks, isBlank c)
    (cs : List Char) : afterComment? (blanks ++ cs) = afterComment? cs := by
  rw [afterComment?, afterComment?, List.dropWhile_append_of_pos h]

theorem afterComment?_newline (cs : List Char) : afterComment? ('\n' :: cs) = afterComment? cs :=
  afterComment?_blank_append (List.forall_mem_singleton.mpr rfl) cs

theorem afterComment?_of_blank {cs : List Char} (h : ∀ c ∈ cs, isBlank c) : afterComment? cs = none := by
  have hblank := afterComment?_blank_append h []
  rwa [List.append_nil] at hblank

theorem afterComment?_eq_none_iff {cs : List Char} :
    afterComment? cs = none ↔ (cs.dropWhile isBlank).head? ≠ some '#' := by
  rw [afterComment?]
  split
  · next rest heq => simp [heq]
  · next hne =>
      simp only [true_iff]
      intro h
      obtain ⟨rest, heq⟩ := List.head?_eq_some_iff.mp h
      exact hne rest heq

theorem afterComment?_cons_eq_none_iff {c : Char} {cs : List Char} :
    afterComment? (c :: cs) = none ↔ c ≠ '#' ∧ (isBlank c → afterComment? cs = none) := by
  rw [afterComment?_eq_none_iff, afterComment?_eq_none_iff, List.dropWhile_cons]
  by_cases hc : isBlank c
  · have hcomment : c ≠ '#' := by
      rintro rfl
      cases hc
    simp [hc, hcomment]
  · simp [hc]

theorem afterComment?_eq_none {cs : List Char} (h : (cs.dropWhile isBlank).head? ≠ some '#') :
    afterComment? cs = none :=
  afterComment?_eq_none_iff.mpr h

/-- The first line with content protects what follows it on its line. -/
theorem afterComment?_content {line : List Char} (h : isContent line) (rest : List Char) :
    afterComment? (line ++ rest) = none := by
  apply afterComment?_eq_none
  have happend := isContent_append h rest
  rw [isContent] at happend
  split at happend
  · cases happend
  · next c tail heq =>
      rw [heq]
      simpa using happend

theorem afterComment?_comment {indent text rest : List Char} (hindent : ∀ c ∈ indent, isBlank c)
    (htext : '\n' ∉ text) (hrest : AtLineEnd rest) :
    afterComment? (indent ++ '#' :: text ++ rest) = some rest := by
  rw [List.append_assoc, afterComment?_blank_append hindent, afterComment?]
  have hstart : ('#' :: text ++ rest).dropWhile isBlank = '#' :: (text ++ rest) := rfl
  rw [hstart]
  simp only [dropWhile_line htext hrest]

/-! ## One step -/

theorem dropCommentsFrom_nil (lineStart : Bool) : dropCommentsFrom lineStart [] = [] := by
  rw [dropCommentsFrom]
  cases lineStart <;> rfl

theorem dropCommentsFrom_comment {cs rest : List Char} (h : afterComment? cs = some rest) :
    dropCommentsFrom true cs = dropCommentsFrom false rest := by
  rw [dropCommentsFrom]
  split
  · next heq =>
      simp only [ite_true, h, Option.some.injEq] at heq
      rw [heq]
  · next heq => simp [h] at heq

theorem dropCommentsFrom_cons {lineStart : Bool} {c : Char} {cs : List Char}
    (h : lineStart = true → afterComment? (c :: cs) = none) :
    dropCommentsFrom lineStart (c :: cs) = c :: dropCommentsFrom (c = '\n') cs := by
  rw [dropCommentsFrom]
  split
  · next heq =>
      split at heq
      · next hstart => simp [h hstart] at heq
      · cases heq
  · rfl

theorem dropCommentsFrom_false_append {line : List Char} (h : '\n' ∉ line) (rest : List Char) :
    dropCommentsFrom false (line ++ rest) = line ++ dropCommentsFrom false rest := by
  induction line with
  | nil => rfl
  | cons c line ih =>
      simp only [List.mem_cons, not_or] at h
      rw [List.cons_append, dropCommentsFrom_cons (by simp), decide_eq_false (Ne.symm h.1), ih h.2,
        List.cons_append]

theorem dropCommentsFrom_false_newline (rest : List Char) :
    dropCommentsFrom false ('\n' :: rest) = '\n' :: dropCommentsFrom true rest := by
  rw [dropCommentsFrom_cons (by simp)]
  rfl

/-- At the start of a line that is no comment the first characters are kept up to the line end. -/
theorem dropCommentsFrom_true_append {line rest : List Char} (hline : '\n' ∉ line)
    (hrest : AtLineEnd rest) (h : afterComment? (line ++ rest) = none) :
    dropCommentsFrom true (line ++ rest) = line ++ dropCommentsFrom false rest := by
  cases line with
  | nil =>
      rcases hrest with rfl | ⟨more, rfl⟩
      · simp [dropCommentsFrom_nil]
      · rw [List.nil_append] at h ⊢
        rw [dropCommentsFrom_cons fun _ => h, dropCommentsFrom_cons (by simp)]
        rfl
  | cons c line =>
      simp only [List.mem_cons, not_or] at hline
      rw [List.cons_append] at h ⊢
      rw [dropCommentsFrom_cons fun _ => h, decide_eq_false (Ne.symm hline.1),
        dropCommentsFrom_false_append hline.2, List.cons_append]

/-! ## One line -/

theorem isContent_cases (line : List Char) :
    isContent line = true ∨ (isContent line = false ∧ ∀ c ∈ line, isBlank c) ∨
      (isContent line = false ∧
        ∃ indent text, line = indent ++ '#' :: text ∧ ∀ c ∈ indent, isBlank c) := by
  rw [isContent]
  split
  · next heq => exact .inr (.inl ⟨rfl, List.dropWhile_eq_nil_iff.mp heq⟩)
  · next c tail heq =>
      by_cases hc : c = '#'
      · refine .inr (.inr ⟨by simp [hc], line.takeWhile isBlank, tail, ?_, ?_⟩)
        · rw [← hc, ← heq, List.takeWhile_append_dropWhile]
        · exact fun c hc => List.mem_takeWhile_imp hc
      · exact .inl (by simpa using hc)

theorem dropComments_content {line rest : List Char} (hline : '\n' ∉ line) (h : isContent line)
    (hrest : AtLineEnd rest) :
    dropCommentsFrom true (line ++ rest) = line ++ dropCommentsFrom false rest :=
  dropCommentsFrom_true_append hline hrest (afterComment?_content h rest)

theorem dropComments_comment {indent text rest : List Char} (hindent : ∀ c ∈ indent, isBlank c)
    (htext : '\n' ∉ text) (hrest : AtLineEnd rest) :
    dropCommentsFrom true (indent ++ '#' :: text ++ rest) = dropCommentsFrom false rest :=
  dropCommentsFrom_comment (afterComment?_comment hindent htext hrest)

/-- The start of a line stays if its first visible character starts no comment. -/
theorem dropComments_indented {indent : List Char} {c : Char} (hindent : ∀ c ∈ indent, isBlank c)
    (hsingle : '\n' ∉ indent) (hblank : isBlank c = false) (hcomment : c ≠ '#') (cs : List Char) :
    ∃ tail, dropCommentsFrom true (indent ++ c :: cs) = indent ++ c :: tail := by
  have hcontent : isContent (indent ++ c :: cs.takeWhile (· ≠ '\n')) := by
    rw [isContent, dropWhile_run hindent (stops_cons hblank _)]
    exact decide_eq_true hcomment
  have hline : '\n' ∉ indent ++ c :: cs.takeWhile (· ≠ '\n') := by
    have hnewline : '\n' ≠ c := by
      rintro rfl
      cases hblank
    have htake : '\n' ∉ cs.takeWhile (· ≠ '\n') := fun hmem => by
      simpa using List.mem_takeWhile_imp hmem
    simp only [List.mem_append, List.mem_cons, not_or]
    exact ⟨hsingle, hnewline, htake⟩
  have hdrop := dropComments_content hline hcontent (atLineEnd_dropWhile cs)
  rw [List.append_assoc, List.cons_append, List.takeWhile_append_dropWhile] at hdrop
  exact ⟨_, hdrop.trans (by rw [List.append_assoc, List.cons_append])⟩

/-- A blank line goes away together with the comment after it, and stays otherwise. -/
theorem dropComments_blank {line : List Char} (hline : '\n' ∉ line) (h : ∀ c ∈ line, isBlank c)
    (rest : List Char) :
    dropCommentsFrom true (line ++ '\n' :: rest) =
      if (afterComment? rest).isSome then dropCommentsFrom true rest
      else line ++ '\n' :: dropCommentsFrom true rest := by
  have hblank : afterComment? (line ++ '\n' :: rest) = afterComment? rest := by
    rw [afterComment?_blank_append h, afterComment?_newline]
  cases hafter : afterComment? rest with
  | none =>
      rw [dropCommentsFrom_true_append hline (atLineEnd_cons rest) (hblank.trans hafter),
        dropCommentsFrom_false_newline]
      rfl
  | some after =>
      rw [dropCommentsFrom_comment (hblank.trans hafter), dropCommentsFrom_comment hafter]
      rfl

/-! ## Whole texts -/

/-- Nothing but comments goes away, white space aside. -/
theorem visible_dropComments (cs : List Char) :
    visible (dropComments cs) = (contentLines cs).flatMap visible := by
  rw [dropComments]
  induction cs using lines_induction with
  | last line hline =>
      rw [contentLines_of_not_mem hline, ← List.append_nil line]
      rcases isContent_cases line with hc | ⟨hc, hblank⟩ | ⟨hc, indent, text, rfl, hindent⟩
      · rw [dropComments_content hline hc atLineEnd_nil, dropCommentsFrom_nil]
        simp [hc]
      · rw [dropCommentsFrom_true_append hline atLineEnd_nil (afterComment?_blank_append hblank []),
          dropCommentsFrom_nil]
        simp [hc, visible_eq_nil_iff.mpr hblank]
      · simp only [List.mem_append, List.mem_cons, not_or] at hline
        rw [dropComments_comment hindent hline.2.2 atLineEnd_nil, dropCommentsFrom_nil]
        simp [hc]
  | line line rest hline ih =>
      have hnewline := visible_cons_of_blank (c := '\n') rfl
      rw [contentLines_append hline]
      rcases isContent_cases line with hc | ⟨hc, hblank⟩ | ⟨hc, indent, text, rfl, hindent⟩
      · rw [dropComments_content hline hc (atLineEnd_cons rest), dropCommentsFrom_false_newline]
        simp [hc, hnewline, ih]
      · rw [dropComments_blank hline hblank]
        split <;> simp [hc, hnewline, ih, visible_eq_nil_iff.mpr hblank]
      · simp only [List.mem_append, List.mem_cons, not_or] at hline
        rw [dropComments_comment hindent hline.2.2 (atLineEnd_cons rest),
          dropCommentsFrom_false_newline]
        simp [hc, hnewline, ih]

/-- The last visible character that is left belongs to the last line with content. -/
theorem getLast?_visible_dropComments (cs : List Char) :
    (visible (dropComments cs)).getLast? =
      (contentLines cs).getLast?.bind fun line => (visible line).getLast? := by
  rw [visible_dropComments]
  rcases List.eq_nil_or_concat (contentLines cs) with hnil | ⟨lines, line, hconcat⟩
  · simp [hnil]
  · have hmem : line ∈ contentLines cs := by simp [hconcat]
    have hne := visible_ne_nil_of_isContent (List.mem_filter.mp hmem).2
    obtain ⟨c, hc⟩ := Option.isSome_iff_exists.mp (List.getLast?_isSome.mpr hne)
    simp [hconcat, hc]

theorem afterComment?_append {a b : List Char} (ha : Terminated a) (hb : afterComment? b = none) :
    afterComment? (a ++ b) = (afterComment? a).map (· ++ b) := by
  induction a using lines_induction with
  | last line hline =>
      rw [ha.eq_nil_of_not_mem hline, List.nil_append, hb]
      rfl
  | line line rest hline ih =>
      rw [List.append_assoc, List.cons_append]
      rcases isContent_cases line with hc | ⟨_, hblank⟩ | ⟨_, indent, text, rfl, hindent⟩
      · rw [afterComment?_content hc, afterComment?_content hc]
        rfl
      · rw [afterComment?_blank_append hblank, afterComment?_blank_append hblank,
          afterComment?_newline, afterComment?_newline, ih ha.of_append_cons]
      · simp only [List.mem_append, List.mem_cons, not_or] at hline
        rw [afterComment?_comment hindent hline.2.2 (atLineEnd_cons _),
          afterComment?_comment hindent hline.2.2 (atLineEnd_cons _)]
        rfl

/-- Comments of a text end where a line with content begins. -/
theorem dropComments_append {a b : List Char} (ha : Terminated a) (hb : afterComment? b = none) :
    dropComments (a ++ b) = dropComments a ++ dropComments b := by
  rw [dropComments, dropComments, dropComments]
  induction a using lines_induction with
  | last line hline =>
      rw [ha.eq_nil_of_not_mem hline, dropCommentsFrom_nil]
      rfl
  | line line rest hline ih =>
      have ih := ih ha.of_append_cons
      rw [List.append_assoc, List.cons_append]
      rcases isContent_cases line with hc | ⟨hc, hblank⟩ | ⟨hc, indent, text, rfl, hindent⟩
      · rw [dropComments_content hline hc (atLineEnd_cons _), dropCommentsFrom_false_newline, ih,
          dropComments_content hline hc (atLineEnd_cons _), dropCommentsFrom_false_newline]
        simp
      · rw [dropComments_blank hline hblank, dropComments_blank hline hblank,
          afterComment?_append ha.of_append_cons hb, ih]
        cases afterComment? rest <;> simp
      · simp only [List.mem_append, List.mem_cons, not_or] at hline
        rw [dropComments_comment hindent hline.2.2 (atLineEnd_cons _),
          dropCommentsFrom_false_newline, ih,
          dropComments_comment hindent hline.2.2 (atLineEnd_cons _), dropCommentsFrom_false_newline]
        simp

/-- A line stays, but for a comment on it, or goes away with the comment after it. -/
theorem dropComments_line {line : List Char} (hline : '\n' ∉ line) (rest : List Char) :
    dropComments (line ++ '\n' :: rest) = dropComments rest ∨
      ∃ kept, '\n' ∉ kept ∧ afterComment? kept = none ∧
        dropComments (line ++ '\n' :: rest) = kept ++ '\n' :: dropComments rest := by
  simp only [dropComments]
  rcases isContent_cases line with hc | ⟨_, hblank⟩ | ⟨_, indent, text, rfl, hindent⟩
  · refine .inr ⟨line, hline, ?_, ?_⟩
    · rw [← List.append_nil line, afterComment?_content hc]
    · rw [dropComments_content hline hc (atLineEnd_cons _), dropCommentsFrom_false_newline]
  · rw [dropComments_blank hline hblank]
    split
    · exact .inl rfl
    · refine .inr ⟨line, hline, ?_, rfl⟩
      rw [← List.append_nil line, afterComment?_blank_append hblank]
      rfl
  · simp only [List.mem_append, List.mem_cons, not_or] at hline
    refine .inr ⟨[], List.not_mem_nil, rfl, ?_⟩
    rw [dropComments_comment hindent hline.2.2 (atLineEnd_cons _), dropCommentsFrom_false_newline]
    rfl

theorem dropComments_last_line {line : List Char} (hline : '\n' ∉ line) :
    '\n' ∉ dropComments line ∧ afterComment? (dropComments line) = none := by
  rw [dropComments, ← List.append_nil line]
  rcases isContent_cases line with hc | ⟨_, hblank⟩ | ⟨_, indent, text, rfl, hindent⟩
  · rw [dropComments_content hline hc atLineEnd_nil, dropCommentsFrom_nil, List.append_nil]
    exact ⟨hline, List.append_nil line ▸ afterComment?_content hc []⟩
  · have hnone := afterComment?_blank_append hblank []
    rw [dropCommentsFrom_true_append hline atLineEnd_nil hnone, dropCommentsFrom_nil]
    exact ⟨by rwa [List.append_nil], hnone⟩
  · simp only [List.mem_append, List.mem_cons, not_or] at hline
    rw [dropComments_comment hindent hline.2.2 atLineEnd_nil, dropCommentsFrom_nil]
    exact ⟨List.not_mem_nil, rfl⟩

theorem terminated_dropComments {cs : List Char} (h : Terminated cs) :
    Terminated (dropComments cs) := by
  induction cs using lines_induction with
  | last line hline =>
      rw [h.eq_nil_of_not_mem hline, dropComments, dropCommentsFrom_nil]
      exact .inl rfl
  | line line rest hline ih =>
      have ih := ih h.of_append_cons
      rcases dropComments_line hline rest with heq | ⟨kept, _, _, heq⟩
      · rw [heq]
        exact ih
      · rw [heq]
        exact ih.append_cons kept

/-! ## Texts without comments -/

theorem afterComment?_append_eq_none {a b : List Char} (ha : afterComment? a = none)
    (hb : afterComment? b = none) : afterComment? (a ++ b) = none := by
  rw [afterComment?_eq_none_iff] at ha hb ⊢
  rw [List.dropWhile_append]
  cases hstart : a.dropWhile isBlank with
  | nil => simpa using hb
  | cons c tail => simpa [hstart] using ha

theorem afterComment?_of_append {a b : List Char} (h : afterComment? (a ++ b) = none) :
    afterComment? a = none := by
  rw [afterComment?_eq_none_iff] at h ⊢
  rw [List.dropWhile_append] at h
  cases hstart : a.dropWhile isBlank with
  | nil => simp
  | cons c tail => simpa [hstart] using h

/-- No line of a text but the first one starts a comment. -/
def CommentFree (cs : List Char) : Prop :=
  Behind '\n' (fun rest => afterComment? rest = none) cs

theorem commentFree_cons_iff {c : Char} {cs : List Char} :
    CommentFree (c :: cs) ↔ (c = '\n' → afterComment? cs = none) ∧ CommentFree cs :=
  behind_cons_iff

theorem CommentFree.suffix {cs rest : List Char} (h : CommentFree cs) (hrest : rest <:+ cs) :
    CommentFree rest :=
  Behind.suffix h hrest

theorem CommentFree.dropCommentsFrom {cs : List Char} (h : CommentFree cs) {lineStart : Bool}
    (hstart : lineStart = true → afterComment? cs = none) : dropCommentsFrom lineStart cs = cs := by
  induction cs generalizing lineStart with
  | nil => exact dropCommentsFrom_nil lineStart
  | cons c cs ih =>
      have hcons := commentFree_cons_iff.mp h
      rw [dropCommentsFrom_cons hstart, ih hcons.2 fun hc => hcons.1 (of_decide_eq_true hc)]

theorem CommentFree.part {cs part : List Char} (h : CommentFree cs) (hpart : part <:+: cs) :
    CommentFree part :=
  Behind.part h (fun _ _ => afterComment?_of_append) hpart

theorem CommentFree.append {a b : List Char} (ha : CommentFree a) (hb : CommentFree b)
    (hstart : afterComment? b = none) : CommentFree (a ++ b) :=
  Behind.append ha hb fun _ _ htail => afterComment?_append_eq_none htail hstart

/-- A text without its comments has no comments. -/
theorem commentFree_dropComments (cs : List Char) : CommentFree ('\n' :: dropComments cs) := by
  induction cs using lines_induction with
  | last line hline =>
      obtain ⟨hsingle, hnone⟩ := dropComments_last_line hline
      exact commentFree_cons_iff.mpr ⟨fun _ => hnone, behind_of_not_mem hsingle⟩
  | line line rest hline ih =>
      rcases dropComments_line hline rest with heq | ⟨kept, hkept, hnone, heq⟩
      · rwa [heq]
      · have hrest := (commentFree_cons_iff.mp ih).1 rfl
        have hnewline : afterComment? ('\n' :: dropComments rest) = none :=
          (afterComment?_newline _).trans hrest
        rw [heq]
        exact commentFree_cons_iff.mpr ⟨fun _ => afterComment?_append_eq_none hnone hnewline,
          behind_append_of_not_mem hkept ih⟩

end ImageTrust.Dockerfile
