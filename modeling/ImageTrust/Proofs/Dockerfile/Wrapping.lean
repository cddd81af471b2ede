import ImageTrust.Dockerfile.Stage
import ImageTrust.Proofs.Dockerfile.Continuation
import Mathlib.Logic.Relation

/-! # Wrapped lines

A line may be broken at a space inside it: a backslash and a line end in place of the space. The passes
before the reader put the space back, so that nothing that is read from a text changes.
-/

namespace ImageTrust.Dockerfile

open Text

/-! ## Breaking a line -/

/-- A line with content is broken at a space. What stands behind the space on the line is not blank and
does not become a comment on its new line. -/
inductive Wraps : List Char → List Char → Prop
  | space {before start blanks tail after fill : List Char} {c : Char}
      (hbefore : Terminated before) (hafter : AtLineEnd after)
      (hline : '\n' ∉ start ++ ' ' :: (blanks ++ c :: tail))
      (hcontent : isContent (start ++ ' ' :: (blanks ++ c :: tail)))
      (hblanks : ∀ d ∈ blanks, isBlank d) (hc : isBlank c = false) (hcomment : c ≠ '#')
      (hfill : ∀ d ∈ fill, d = ' ' ∨ d = '\t') :
      Wraps (before ++ (start ++ ' ' :: (blanks ++ c :: tail) ++ after))
        (before ++ (start ++ '\\' :: (fill ++ '\n' :: (blanks ++ c :: tail)) ++ after))

variable {cs wrapped : List Char}

/-! ## Comments -/

/-- The first visible character of a line decides whether it has content, wherever it is broken. -/
theorem isContent_of_append {start rest : List Char} (h : isContent (start ++ rest)) {c : Char}
    (hc : isBlank c = false) (hcomment : c ≠ '#') (more : List Char) :
    isContent (start ++ c :: more) := by
  rw [isContent, List.dropWhile_append] at h ⊢
  cases hstart : start.dropWhile isBlank with
  | nil => simpa [hc] using hcomment
  | cons d tail => simpa [hstart] using h

variable {before first second after : List Char}

/-- A line with content stays where it stands. -/
theorem dropComments_append_line (hbefore : Terminated before) (hline : '\n' ∉ first)
    (hcontent : isContent first) (hafter : AtLineEnd after) :
    dropComments (before ++ (first ++ after)) =
      dropComments before ++ (first ++ dropCommentsFrom false after) := by
  rw [dropComments_append hbefore (afterComment?_content hcontent after), dropComments.eq_1 (_ ++ after),
    dropComments_content hline hcontent hafter]

theorem dropComments_append_lines (hbefore : Terminated before) (hfirst : '\n' ∉ first)
    (hcontent : isContent first) (hsecond : '\n' ∉ second) (hcontent' : isContent second)
    (hafter : AtLineEnd after) :
    dropComments (before ++ (first ++ '\n' :: (second ++ after))) =
      dropComments before ++ (first ++ '\n' :: (second ++ dropCommentsFrom false after)) := by
  rw [dropComments_append_line hbefore hfirst hcontent (atLineEnd_cons _),
    dropCommentsFrom_false_newline, dropComments_content hsecond hcontent' hafter]

/-! ## Continued lines -/

/-- Joining lines puts the space back where a line was broken. -/
theorem joinLines_wrapped {fill line : List Char} (hfill : ∀ d ∈ fill, isBlank d) (hline : '\n' ∉ line)
    (hvisible : visible line ≠ []) (front rest : List Char) :
    joinLines (front ++ '\\' :: (fill ++ '\n' :: (line ++ rest))) =
      joinLines (front ++ ' ' :: (line ++ rest)) := by
  have hbroken : afterLineEnds? ('\\' :: (fill ++ '\n' :: (line ++ rest))) = none := rfl
  have hspace : afterLineEnds? (' ' :: (line ++ rest)) = none :=
    afterLineEnds?_cons_eq_none_iff.mpr fun _ => ⟨by decide, afterLineEnds?_visible hline hvisible rest⟩
  rw [joinLines_append_of_none hbroken, joinLines_append_of_none hspace,
    joinLines_of_some (afterLineEnds?_blank_line hfill _), skipBlankLines_visible hline hvisible,
    joinLines_cons_of_ne (by decide)]

/-! ## Both passes -/

theorem Wraps.preprocess_eq (h : Wraps cs wrapped) : preprocess wrapped = preprocess cs := by
  cases h with
  | @space before start blanks tail after fill c hbefore hafter hline hcontent hblanks hc hcomment
      hfill =>
      have hfill' : ∀ d ∈ fill, isBlank d := by
        intro d hd
        rcases hfill d hd with rfl | rfl <;> rfl
      have hparts := hline
      simp only [List.mem_append, List.mem_cons, not_or] at hparts
      obtain ⟨hstart, -, hsingle, hne, htail⟩ := hparts
      have hfirst : '\n' ∉ start ++ '\\' :: fill := by
        have hmem : '\n' ∉ fill := fun hmem => by simpa using hfill _ hmem
        simp [hstart, hmem]
      have hsecond : '\n' ∉ blanks ++ c :: tail := by simp [hsingle, hne, htail]
      have hfirst_content := isContent_of_append hcontent (c := '\\') rfl (by decide) fill
      have hsecond_content : isContent (blanks ++ c :: tail) := by
        rw [isContent, dropWhile_run hblanks (stops_cons hc tail)]
        exact decide_eq_true hcomment
      have hvisible := visible_ne_nil_of_isContent hsecond_content
      have hwhole := dropComments_append_line hbefore hline hcontent hafter
      have hbroken :=
        dropComments_append_lines hbefore hfirst hfirst_content hsecond hsecond_content hafter
      have hjoin := joinLines_wrapped hfill' hsecond hvisible (dropComments before ++ start)
        (dropCommentsFrom false after)
      simp only [List.append_assoc, List.cons_append] at hwhole hbroken hjoin ⊢
      rw [preprocess, preprocess, hwhole, hbroken, hjoin]

theorem preprocess_eq_of_wraps (h : Relation.ReflTransGen Wraps cs wrapped) :
    preprocess wrapped = preprocess cs := by
  induction h with
  | refl => rfl
  | tail _ hwraps ih => rw [hwraps.preprocess_eq, ih]

/-! ## Public theorem -/

/-- A Dockerfile may be wrapped at any space inside a line, again and again: its instructions, its stages
and its base image stay the same. -/
theorem instructions_eq_of_wraps {content wrapped : String}
    (h : Relation.ReflTransGen Wraps content.toList wrapped.toList) :
    instructions wrapped = instructions content ∧ ∀ given,
      stages given wrapped = stages given content ∧
        warnings given wrapped = warnings given content ∧
        baseImage? given wrapped = baseImage? given content := by
  have hinstructions : instructions wrapped = instructions content := by
    rw [instructions, instructions, preprocess_eq_of_wraps h]
  have hstages : ∀ given, checkedStages given wrapped = checkedStages given content := by
    intro given
    rw [checkedStages, checkedStages, hinstructions]
  refine ⟨hinstructions, fun given => ?_⟩
  rw [baseImage?, baseImage?, stages, stages, warnings, warnings, hstages]
  exact ⟨rfl, rfl, rfl⟩

/-- A FROM line is wrapped at two spaces, the second of which begins a line by then. -/
theorem instructions_eq_of_wraps_from :
    Relation.ReflTransGen Wraps "# a\nFROM a  AS b\nRUN c".toList
        "# a\nFROM a\\\t \n\\\nAS b\nRUN c".toList ∧
      instructions "# a\nFROM a\\\t \n\\\nAS b\nRUN c" =
        instructions "# a\nFROM a  AS b\nRUN c" := by
  have hfirst : Wraps "# a\nFROM a  AS b\nRUN c".toList
      "# a\nFROM a\\\t \n AS b\nRUN c".toList :=
    @Wraps.space "# a\n".toList "FROM a".toList [' '] "S b".toList "\nRUN c".toList ['\t', ' '] 'A'
      (.inr rfl) (atLineEnd_cons _) (by decide) (by decide) (List.forall_mem_singleton.mpr rfl) rfl
      (by decide) (by simp)
  have hsecond : Wraps "# a\nFROM a\\\t \n AS b\nRUN c".toList
      "# a\nFROM a\\\t \n\\\nAS b\nRUN c".toList :=
    @Wraps.space "# a\nFROM a\\\t \n".toList [] [] "S b".toList "\nRUN c".toList [] 'A'
      (.inr rfl) (atLineEnd_cons _) (by decide) (by decide) (List.forall_mem_nil _) rfl (by decide)
      (List.forall_mem_nil _)
  have hwraps := (Relation.ReflTransGen.single hfirst).tail hsecond
  exact ⟨hwraps, (instructions_eq_of_wraps hwraps).1⟩

end ImageTrust.Dockerfile
