import ImageTrust.Proofs.Dockerfile.Continuation

/-! # Texts that the passes before the reader leave as they are

What the two passes give has neither comments nor continued lines, so the passes change it no more.
-/

namespace ImageTrust.Dockerfile

open Text

/-- A text without comments and without continued lines. -/
structure Settled (cs : List Char) : Prop where
  comments : CommentFree ('\n' :: cs)
  continuations : ContinuationFree cs

/-- The first visible character of a line is a number sign. -/
def IsComment (line : List Char) : Prop :=
  ∃ indent text, line = indent ++ '#' :: text ∧ ∀ c ∈ indent, isBlank c

/-- Behind some backslash of a text there is white space with a line end in it. -/
def HasContinuation (cs : List Char) : Prop :=
  ∃ front space rest, cs = front ++ '\\' :: (space ++ rest) ∧ (∀ c ∈ space, isBlank c) ∧ '\n' ∈ space

/-- What the two passes make of a text. -/
structure Cleared (cs result : List Char) : Prop where
  no_comment : ∀ line ∈ splitAt '\n' result, ¬ IsComment line
  no_continuation : ¬ HasContinuation result
  dropComments_eq : dropComments result = result
  joinLines_eq : joinLines result = result
  preprocess_eq : preprocess result = result
  /-- Nothing but comments, white space and backslashes is taken away. -/
  kept : (visible result).filter (· ≠ '\\') = ((contentLines cs).flatMap visible).filter (· ≠ '\\')
  unchanged_iff : result = cs ↔ (∀ line ∈ splitAt '\n' cs, ¬ IsComment line) ∧ ¬ HasContinuation cs

variable {a b cs line : List Char}

theorem settled_iff :
    Settled cs ↔ afterComment? cs = none ∧ CommentFree cs ∧ ContinuationFree cs := by
  constructor
  · rintro ⟨hcomments, hcontinuations⟩
    obtain ⟨hfirst, hlater⟩ := commentFree_cons_iff.mp hcomments
    exact ⟨hfirst rfl, hlater, hcontinuations⟩
  · rintro ⟨hfirst, hlater, hcontinuations⟩
    exact ⟨commentFree_cons_iff.mpr ⟨fun _ => hfirst, hlater⟩, hcontinuations⟩

/-! ## Comments and continuations as they are written -/

theorem isComment_iff : IsComment line ↔ afterComment? line ≠ none := by
  rw [ne_eq, afterComment?_eq_none_iff, not_not]
  constructor
  · rintro ⟨indent, text, rfl, hindent⟩
    rw [dropWhile_run hindent (stops_cons rfl text)]
    rfl
  · intro h
    obtain ⟨text, htext⟩ := List.head?_eq_some_iff.mp h
    refine ⟨line.takeWhile isBlank, text, ?_, fun c hc => List.mem_takeWhile_imp hc⟩
    rw [← htext, List.takeWhile_append_dropWhile]

/-- Looking for a comment goes past blank lines, so each line is looked at on its own. -/
theorem commentFree_iff (cs : List Char) :
    CommentFree ('\n' :: cs) ↔ ∀ line ∈ splitAt '\n' cs, ¬ IsComment line := by
  induction cs using lines_induction with
  | last line hline =>
      have hlater : CommentFree line := behind_of_not_mem hline
      rw [splitAt_of_not_mem hline, List.forall_mem_singleton, isComment_iff, not_not,
        commentFree_cons_iff]
      exact ⟨fun h => h.1 rfl, fun h => ⟨fun _ => h, hlater⟩⟩
  | line line rest hline ih =>
      rw [splitAt_append_cons rest hline, List.forall_mem_cons, isComment_iff, not_not, ← ih,
        commentFree_cons_iff]
      constructor
      · rintro ⟨hfirst, hlater⟩
        exact ⟨afterComment?_of_append (hfirst rfl), hlater.suffix (List.suffix_append _ _)⟩
      · rintro ⟨hfirst, hlater⟩
        have hrest := (afterComment?_newline rest).trans ((commentFree_cons_iff.mp hlater).1 rfl)
        exact ⟨fun _ => afterComment?_append_eq_none hfirst hrest, behind_append_of_not_mem hline hlater⟩

theorem continuationFree_iff : ContinuationFree cs ↔ ¬ HasContinuation cs := by
  constructor
  · rintro h ⟨front, space, rest, rfl, hspace, hnewline⟩
    have hnone := afterLineEnds?_eq_none_iff.mp (h (space ++ rest) (List.suffix_append _ _))
    rw [List.takeWhile_append_of_pos hspace] at hnone
    exact hnone (List.mem_append_left _ hnewline)
  · rintro h rest ⟨front, rfl⟩
    rw [afterLineEnds?_eq_none_iff]
    intro hnewline
    refine h ⟨front, rest.takeWhile isBlank, rest.dropWhile isBlank, ?_,
      fun c hc => List.mem_takeWhile_imp hc, hnewline⟩
    rw [List.takeWhile_append_dropWhile]

theorem settled_iff_lines :
    Settled cs ↔ (∀ line ∈ splitAt '\n' cs, ¬ IsComment line) ∧ ¬ HasContinuation cs := by
  rw [← commentFree_iff, ← continuationFree_iff]
  exact ⟨fun h => ⟨h.comments, h.continuations⟩, fun h => ⟨h.1, h.2⟩⟩

/-! ## Comments and joined lines -/

/-- Joining lines brings no comment to the start of a text. -/
theorem CommentFree.afterComment?_joinLines (h : CommentFree cs) (hfirst : afterComment? cs = none) :
    afterComment? (joinLines cs) = none := by
  induction cs using joinLines.induct with
  | case1 => rwa [Dockerfile.joinLines]
  | case2 cs rest hafter ih =>
      have hsuffix := (of_afterLineEnds? hafter).1.trans (List.suffix_cons '\\' cs)
      have hrest := ih (h.suffix ((List.suffix_cons _ _).trans hsuffix)) (h rest hsuffix)
      rw [joinLines_of_some hafter, afterComment?_cons_eq_none_iff]
      exact ⟨by decide, fun _ => hrest⟩
  | case3 cs hafter ih =>
      rw [joinLines_of_none hafter, afterComment?_cons_eq_none_iff]
      exact ⟨by decide, fun hblank => absurd hblank (by decide)⟩
  | case4 c cs hc ih =>
      rw [afterComment?_cons_eq_none_iff] at hfirst
      rw [joinLines_cons_of_ne hc, afterComment?_cons_eq_none_iff]
      exact ⟨hfirst.1, fun hblank => ih (commentFree_cons_iff.mp h).2 (hfirst.2 hblank)⟩

theorem CommentFree.joinLines (h : CommentFree cs) : CommentFree (joinLines cs) :=
  behind_newline_joinLines h fun _ hrest => (h.suffix hrest).afterComment?_joinLines

/-! ## Both passes -/

theorem settled_preprocess (cs : List Char) : Settled (preprocess cs) := by
  obtain ⟨hfirst, hlater⟩ := commentFree_cons_iff.mp (commentFree_dropComments cs)
  exact settled_iff.mpr ⟨hlater.afterComment?_joinLines (hfirst rfl), hlater.joinLines,
    continuationFree_joinLines _⟩

theorem Settled.dropComments_eq (h : Settled cs) : dropComments cs = cs := by
  obtain ⟨hfirst, hlater, -⟩ := settled_iff.mp h
  exact hlater.dropCommentsFrom fun _ => hfirst

theorem Settled.preprocess_eq (h : Settled cs) : preprocess cs = cs := by
  rw [preprocess, h.dropComments_eq, h.continuations.joinLines]

/-- The passes change the texts that have comments or continued lines, and no others. -/
theorem preprocess_eq_self_iff : preprocess cs = cs ↔ Settled cs :=
  ⟨fun h => h ▸ settled_preprocess cs, Settled.preprocess_eq⟩

/-- Joining lines takes away no visible character but backslashes. -/
theorem filter_visible_joinLines (cs : List Char) :
    (visible (joinLines cs)).filter (· ≠ '\\') = (visible cs).filter (· ≠ '\\') := by
  have hbackslash : ∀ rest, (visible ('\\' :: rest)).filter (· ≠ '\\') =
      (visible rest).filter (· ≠ '\\') := fun rest => by
    rw [visible_cons_of_not_blank rfl, List.filter_cons_of_neg (by decide)]
  induction cs using joinLines.induct with
  | case1 => rw [joinLines]
  | case2 cs rest hafter ih =>
      rw [joinLines_of_some hafter, visible_cons_of_blank rfl, ih, visible_of_afterLineEnds? hafter,
        hbackslash]
  | case3 cs hafter ih => rw [joinLines_of_none hafter, hbackslash, hbackslash, ih]
  | case4 c cs hc ih =>
      rw [joinLines_cons_of_ne hc]
      cases hblank : isBlank c with
      | true => rw [visible_cons_of_blank hblank, visible_cons_of_blank hblank, ih]
      | false =>
          rw [visible_cons_of_not_blank hblank, visible_cons_of_not_blank hblank, List.filter_cons,
            List.filter_cons, ih]

/-! ## Settled texts one after another -/

theorem settled_nil : Settled [] :=
  settled_iff.mpr ⟨rfl, behind_of_not_mem List.not_mem_nil, behind_of_not_mem List.not_mem_nil⟩

/-- Settled texts are settled one after another, if the first does not end in a backslash. -/
theorem Settled.append_line (ha : Settled a) (hb : Settled b) (hlast : ¬ EndsInBackslash a) :
    Settled (a ++ '\n' :: b) := by
  obtain ⟨hfirst, hlater, hcontinuations⟩ := settled_iff.mp ha
  have hnewline : afterComment? ('\n' :: b) = none :=
    (afterComment?_newline b).trans (settled_iff.mp hb).1
  have hcontinued : ContinuationFree ('\n' :: b) :=
    behind_cons_iff.mpr ⟨fun hc => absurd hc (by decide), hb.continuations⟩
  exact settled_iff.mpr ⟨afterComment?_append_eq_none hfirst hnewline,
    hlater.append hb.comments hnewline, hcontinuations.append hcontinued hlast⟩

/-- A line without a backslash is settled, with or without blank lines after it. -/
theorem settled_append_blank {line blanks : List Char} (hline : '\n' ∉ line) (hbackslash : '\\' ∉ line)
    (hcontent : isContent line) (hblanks : ∀ c ∈ blanks, isBlank c) : Settled (line ++ blanks) := by
  have hcomments : CommentFree blanks := fun rest hrest =>
    afterComment?_of_blank fun c hc => hblanks c (hrest.subset (List.mem_cons_of_mem _ hc))
  have hcontinuations : '\\' ∉ line ++ blanks := by
    intro hmem
    rcases List.mem_append.mp hmem with hmem | hmem
    · exact hbackslash hmem
    · cases hblanks '\\' hmem
  exact settled_iff.mpr ⟨afterComment?_content hcontent blanks,
    behind_append_of_not_mem hline hcomments, behind_of_not_mem hcontinuations⟩

/-! ## Public theorem -/

/-- The passes before the reader are complete and idempotent: no comment and no continued line is left for
a second run, and only texts with one of them are changed. -/
theorem cleared_preprocess (cs : List Char) : Cleared cs (preprocess cs) := by
  have hsettled := settled_preprocess cs
  obtain ⟨hcomment, hcontinuation⟩ := settled_iff_lines.mp hsettled
  refine ⟨hcomment, hcontinuation, hsettled.dropComments_eq, hsettled.continuations.joinLines,
    hsettled.preprocess_eq, ?_, preprocess_eq_self_iff.trans settled_iff_lines⟩
  rw [preprocess, filter_visible_joinLines, visible_dropComments]

/-- A comment and blank lines in a line that goes on twice, behind a backslash that stays. -/
example : String.ofList (preprocess "RUN a \\\\ \n\t\n  # c \\\n\\\n b\n # d".toList) = "RUN a \\   b\n" := by
  decide +kernel

end ImageTrust.Dockerfile
