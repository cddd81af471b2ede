import ImageTrust.Proofs.Dockerfile.Grouping
import ImageTrust.Proofs.Template.Sealed

/-! # Placeholders in the images of stages

The image of a stage is that of its FROM line, expanded, or as it is written with a warning. Since
values and alternatives are not read again, an expanded image may have a placeholder left; then a text
that is not sealed was put into it.
-/

namespace ImageTrust.Dockerfile

open Template

variable {given : Variables} {content : String} {stage : Stage}

/-- A stage comes from a FROM instruction. -/
theorem exists_expandImage {warning : Option UnexpandedImage}
    (h : (stage, warning) ∈ checkedStages given content) :
    ∃ i ∈ instructions content, i.isFrom ∧
      expandImage (stageVariables given (instructions content)) (stageOf i.arguments) =
        (stage.heading, warning) := by
  obtain ⟨i, hi, heq⟩ : ∃ i ∈ (instructions content).filter Instruction.isFrom,
      expandImage (stageVariables given (instructions content)) (stageOf i.arguments) =
        (stage.heading, warning) := by
    rw [← List.mem_map, ← map_heading_checkedStages]
    exact List.mem_map.mpr ⟨(stage, warning), h, rfl⟩
  rw [List.mem_filter] at hi
  exact ⟨i, hi.1, hi.2, heq⟩

theorem expandImage_eq_iff {vars : Variables} {stage expanded : Stage}
    {warning : Option UnexpandedImage} :
    expandImage vars stage = (expanded, warning) ↔
      (∃ image, expand vars stage.image = .ok image ∧ expanded = { stage with image } ∧
        warning = none) ∨
      ∃ unset, expand vars stage.image = .error unset ∧ expanded = stage ∧
        warning = some ⟨stage.image, unset⟩ := by
  rw [expandImage]
  cases expand vars stage.image with
  | ok image => simp [eq_comm]
  | error unset => simp [eq_comm]

/-- A placeholder in the image of a stage is reported, the image being left as it is written, or has to
do with a text that is not sealed. -/
theorem hasPlaceholder_image {warning : Option UnexpandedImage}
    (h : (stage, warning) ∈ checkedStages given content) (hleft : HasPlaceholder stage.image.toList) :
    ∃ i ∈ instructions content, i.isFrom ∧
      ((∃ unset, warning = some ⟨stage.image, unset⟩ ∧ stage.image = (stageOf i.arguments).image) ∨
        (warning = none ∧
          expand (stageVariables given (instructions content)) (stageOf i.arguments).image =
            .ok stage.image ∧
          ∃ p text, .hole p ∈ pieces (stageOf i.arguments).image.toList ∧
            p.value (stageVariables given (instructions content)) = .ok text ∧ ¬ Sealed text)) := by
  obtain ⟨i, hi, hfrom, hexpand⟩ := exists_expandImage h
  refine ⟨i, hi, hfrom, ?_⟩
  rcases expandImage_eq_iff.mp hexpand with ⟨image, himage, hheading, rfl⟩ | ⟨unset, -, hheading, rfl⟩
  · have heq : stage.image = image := congrArg Stage.image hheading
    subst heq
    exact .inr ⟨rfl, himage, exists_not_sealed himage hleft⟩
  · have heq : stage.image = (stageOf i.arguments).image :=
      (congrArg Stage.image hheading : stage.heading.image = _)
    exact .inl ⟨unset, by rw [heq], heq⟩

theorem hasPlaceholder_tag : HasPlaceholder "$\x7bTAG\x7d".toList :=
  ⟨[], "$\x7bTAG\x7d".toList, rfl, "TAG\x7d".toList, rfl, by decide⟩

/-- The default of a variable may mention another variable. -/
theorem hasPlaceholder_image_default :
    ∃ i ∈ instructions "ARG TAG=alpine\nARG BASE=$\x7bTAG\x7d\nFROM $\x7bBASE\x7d\n", i.isFrom ∧
      ∃ p text, .hole p ∈ pieces (stageOf i.arguments).image.toList ∧
        p.value [("BASE", "$\x7bTAG\x7d"), ("TAG", "alpine")] = .ok text ∧ ¬ Sealed text := by
  let content := "ARG TAG=alpine\nARG BASE=$\x7bTAG\x7d\nFROM $\x7bBASE\x7d\n"
  have hstage : ((⟨"$\x7bTAG\x7d", none, none, []⟩ : Stage), none) ∈ checkedStages [] content := by
    decide +kernel
  have hvariables : stageVariables [] (instructions content) =
      [("BASE", "$\x7bTAG\x7d"), ("TAG", "alpine")] := by
    decide +kernel
  obtain ⟨i, hi, hfrom, hcause⟩ := hasPlaceholder_image hstage hasPlaceholder_tag
  rw [hvariables] at hcause
  rcases hcause with ⟨_, hwarning, _⟩ | ⟨_, _, hunsealed⟩
  · cases hwarning
  · exact ⟨i, hi, hfrom, hunsealed⟩

/-- The alternative of a placeholder may mention a variable, and is put in place unreported. -/
theorem not_forall_image_expanded : ¬ ∀ (given : Variables) (content : String),
    (∀ binding ∈ given, ¬ ['$', '{'] <:+: binding.2.toList) → warnings given content = [] →
      ∀ stage ∈ stages given content, ¬ HasPlaceholder stage.image.toList := by
  intro hall
  let content := "ARG TAG=alpine\nFROM $\x7bBASE:-$\x7bTAG\x7d\x7d\n"
  have hwarnings : warnings [] content = [] := by decide +kernel
  have hstage : (⟨"$\x7bTAG\x7d", none, none, []⟩ : Stage) ∈ stages [] content := by decide +kernel
  exact hall [] content (by simp) hwarnings _ hstage hasPlaceholder_tag

end ImageTrust.Dockerfile
