import ImageTrust.Dockerfile.Stage
import ImageTrust.Proofs.Template.Expansion
import ImageTrust.Proofs.Text.Lower
import Mathlib.Data.List.Basic

/-! # What stages are told from

The images, names and platforms of the stages and the warnings about them are told from the
instructions before the first FROM and from the FROM instructions.
-/

namespace ImageTrust

/-- A stage without its instructions. -/
def Stage.heading (stage : Stage) : Stage :=
  { stage with instructions := [] }

/-- What an instruction says: its word and its arguments. -/
def Instruction.meaning (i : Instruction) : String × List String :=
  (i.keyword, i.arguments)

namespace Dockerfile

/-! ## Headings -/

theorem map_fst_groups (is : List Instruction) :
    (groups is).map Prod.fst = is.filter Instruction.isFrom := by
  induction is with
  | nil => rfl
  | cons i is ih => cases hi : i.isFrom <;> simp [groups, hi, ih]

theorem heading_stageOfGroup (vars : Variables) (group : Instruction × List Instruction) :
    ((stageOfGroup vars group).1.heading, (stageOfGroup vars group).2) =
      expandImage vars (stageOf group.1.arguments) := by
  simp only [stageOfGroup, expandImage]
  cases Template.expand vars (stageOf group.1.arguments).image <;> rfl

theorem map_heading_checkedStages (given : Variables) (content : String) :
    (checkedStages given content).map (fun (stage, warning) => (stage.heading, warning)) =
      ((instructions content).filter Instruction.isFrom).map fun i =>
        expandImage (stageVariables given (instructions content)) (stageOf i.arguments) := by
  rw [checkedStages, ← map_fst_groups, List.map_map, List.map_map]
  exact List.map_congr_left fun group _ => heading_stageOfGroup _ group

theorem isFrom_instruction (w : Written) : w.instruction.isFrom = true ↔ w.keyword = "FROM" :=
  decide_eq_true_iff

theorem map_heading_stages (given : Variables) (content : String) :
    (stages given content).map Stage.heading =
      ((instructions content).filter Instruction.isFrom).map fun i =>
        (expandImage (stageVariables given (instructions content)) (stageOf i.arguments)).1 := by
  have hchecked := congrArg (List.map Prod.fst) (map_heading_checkedStages given content)
  simpa only [stages, List.map_map, Function.comp_def] using hchecked

/-! ## The last stage -/

/-- The image of the last stage does not hang on instructions. -/
theorem lastImage?_map_heading (named : Variables) (stages : List Stage) :
    lastImage? named (stages.map Stage.heading) = lastImage? named stages := by
  induction stages generalizing named with
  | nil => rfl
  | cons stage rest ih =>
      cases rest with
      | nil => rfl
      | cons next rest => exact ih (nameStage named stage)

theorem lastImage?_concat (named : Variables) (front : List Stage) (stage : Stage) :
    lastImage? named (front ++ [stage]) = some (resolvedImage (front.foldl nameStage named) stage) := by
  induction front generalizing named with
  | nil => rfl
  | cons first front ih =>
      rw [List.cons_append, List.foldl_cons, ← ih, lastImage?]
      simp

/-! ## Stages with the same headings -/

section SameHeadings

variable {given : Variables} {content other : String}

/-- The images, names and platforms of the stages, the warnings and the base image are told from the
headings of the stages and the warnings about them. -/
theorem stages_of_map_heading
    (h : (checkedStages given content).map (fun (stage, warning) => (stage.heading, warning)) =
      (checkedStages given other).map fun (stage, warning) => (stage.heading, warning)) :
    (stages given content).map Stage.heading = (stages given other).map Stage.heading ∧
      warnings given content = warnings given other ∧
      baseImage? given content = baseImage? given other := by
  have hstages := congrArg (List.map Prod.fst) h
  have hwarnings := congrArg (List.filterMap Prod.snd) h
  simp only [List.map_map, List.filterMap_map] at hstages hwarnings
  have hheadings : (stages given content).map Stage.heading = (stages given other).map Stage.heading := by
    rw [stages, stages, List.map_map, List.map_map]
    exact hstages
  refine ⟨hheadings, hwarnings, ?_⟩
  rw [baseImage?, baseImage?, ← lastImage?_map_heading, hheadings, lastImage?_map_heading]

theorem expandImage_congr {vars others : Variables} (h : ∀ name, vars.lookup name = others.lookup name) :
    expandImage vars = expandImage others := by
  funext stage
  rw [expandImage, expandImage, Template.expand_congr fun name _ => h name]

/-- Only the FROM instructions and the values of variables in them count. -/
theorem stages_of_lookup
    (hvars : ∀ name, (stageVariables given (instructions content)).lookup name =
      (stageVariables given (instructions other)).lookup name)
    (hfrom : (instructions content).filter Instruction.isFrom =
      (instructions other).filter Instruction.isFrom) :
    (stages given content).map Stage.heading = (stages given other).map Stage.heading ∧
      warnings given content = warnings given other ∧
      baseImage? given content = baseImage? given other := by
  refine stages_of_map_heading ?_
  rw [map_heading_checkedStages, map_heading_checkedStages, hfrom, expandImage_congr hvars]

theorem baseImage?_congr
    (hpreamble : preamble (instructions content) = preamble (instructions other))
    (hfrom : (instructions content).filter Instruction.isFrom =
      (instructions other).filter Instruction.isFrom) :
    baseImage? given content = baseImage? given other := by
  have hvariables : stageVariables given (instructions content) =
      stageVariables given (instructions other) := by
    rw [stageVariables, stageVariables, hpreamble]
  exact (stages_of_lookup (fun name => by rw [hvariables]) hfrom).2.2

end SameHeadings

/-! ## Instructions that say the same -/

theorem map_meaning_preamble (is : List Instruction) :
    (preamble is).map Instruction.meaning =
      (is.map Instruction.meaning).takeWhile fun (keyword, _) => !decide (keyword = "FROM") := by
  rw [preamble, List.takeWhile_map]
  rfl

theorem map_meaning_filter_isFrom (is : List Instruction) :
    (is.filter Instruction.isFrom).map Instruction.meaning =
      (is.map Instruction.meaning).filter fun (keyword, _) => decide (keyword = "FROM") := by
  rw [List.filter_map]
  rfl

theorem declarations_eq_filterMap_meaning (is : List Instruction) :
    declarations is = ((is.map Instruction.meaning).filterMap fun (keyword, arguments) =>
      declaration? ⟨keyword, arguments, ""⟩).reverse := by
  rw [declarations, List.filterMap_map]
  rfl

variable {content other : String}

/-- The text of an instruction does not count for the stages around it. -/
theorem map_heading_checkedStages_congr (h : (instructions content).map Instruction.meaning =
      (instructions other).map Instruction.meaning) (given : Variables) :
    (checkedStages given content).map (fun (stage, warning) => (stage.heading, warning)) =
      (checkedStages given other).map fun (stage, warning) => (stage.heading, warning) := by
  have hvariables : stageVariables given (instructions content) =
      stageVariables given (instructions other) := by
    simp only [stageVariables, declarations_eq_filterMap_meaning, map_meaning_preamble, h]
  have hfrom : ((instructions content).filter Instruction.isFrom).map Instruction.meaning =
      ((instructions other).filter Instruction.isFrom).map Instruction.meaning := by
    rw [map_meaning_filter_isFrom, map_meaning_filter_isFrom, h]
  have harguments := congrArg (List.map fun m : String × List String =>
    expandImage (stageVariables given (instructions other)) (stageOf m.2)) hfrom
  rw [List.map_map, List.map_map] at harguments
  rw [map_heading_checkedStages, map_heading_checkedStages, hvariables]
  exact harguments

/-- Dockerfiles whose instructions say the same have stages with the same images, names and platforms,
the same warnings and the same base image. -/
theorem stages_congr (h : (instructions content).map Instruction.meaning =
      (instructions other).map Instruction.meaning) (given : Variables) :
    (stages given content).map Stage.heading = (stages given other).map Stage.heading ∧
      warnings given content = warnings given other ∧
      baseImage? given content = baseImage? given other :=
  stages_of_map_heading (map_heading_checkedStages_congr h given)

/-! ## Stages without an image -/

/-- Only a name that is not empty is known. -/
theorem lookup_empty_foldl_nameStage {named : Variables} (h : named.lookup "" = none)
    (stages : List Stage) : (stages.foldl nameStage named).lookup "" = none := by
  induction stages generalizing named with
  | nil => exact h
  | cons stage stages ih =>
      refine ih ?_
      rw [nameStage]
      split
      · exact h
      · next name _ =>
          split
          · exact h
          · next hne =>
              have hkey : ("" == Text.lowercase name) = false :=
                beq_false_of_ne fun heq => hne (Text.lowercase_eq_empty_iff.mp heq.symm)
              rw [List.lookup_cons, hkey]
              exact h

/-- A last stage without an image resolves to no image. -/
theorem lastImage?_concat_empty (front : List Stage) {stage : Stage} (h : stage.image = "") :
    lastImage? [] (front ++ [stage]) = some "" := by
  have hlowercase : Text.lowercase "" = "" := Text.lowercase_eq_empty_iff.mpr rfl
  rw [lastImage?_concat, resolvedImage, h, hlowercase, lookup_empty_foldl_nameStage rfl]
  rfl

end Dockerfile

end ImageTrust
