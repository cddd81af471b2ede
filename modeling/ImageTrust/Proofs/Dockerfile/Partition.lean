import ImageTrust.Proofs.Dockerfile.Grouping
import Mathlib.Data.List.TakeWhile

/-! # The instructions of a Dockerfile, stage by stage

Every instruction from the first FROM on belongs to one stage: it opens the stage, or is one of its
instructions.
-/

namespace ImageTrust.Dockerfile

open Template

variable {vars : Variables} {is : List Instruction} {group : Instruction × List Instruction}

/-! ## Images as they are written -/

/-- The first argument that is no flag, or nothing. -/
def imageWord (i : Instruction) : String :=
  (i.arguments.find? (!isFlag ·)).getD ""

/-- The expansion of an image, or the image itself if it has none. -/
def expansionOrSelf (vars : Variables) (image : String) : String :=
  (expand vars image).toOption.getD image

def failedExpansion? (vars : Variables) (image : String) : Option UnexpandedImage :=
  match expand vars image with
  | .ok _ => none
  | .error unset => some ⟨image, unset⟩

/-- The stages and warnings of some instructions, which are those of `front` and, for each stage, the
instruction of `froms` that opens it and its own ones. -/
structure Staged (given : Variables) (is front froms : List Instruction) (stages : List Stage)
    (warnings : List UnexpandedImage) : Prop where
  whole : is = front ++ (froms.zip stages).flatMap fun (i, stage) => i :: stage.instructions
  length_eq : stages.length = froms.length
  front_others : ∀ i ∈ front, i.keyword ≠ "FROM"
  froms_eq : froms = is.filter Instruction.isFrom
  stages_others : ∀ stage ∈ stages, ∀ i ∈ stage.instructions, i.keyword ≠ "FROM"
  images : stages.map Stage.image =
    froms.map fun i => expansionOrSelf (given ++ declarations front) (imageWord i)
  warnings : warnings =
    froms.filterMap fun i => failedExpansion? (given ++ declarations front) (imageWord i)

/-! ## Groups -/

theorem keyword_ne_of_mem_preamble {i : Instruction} (h : i ∈ preamble is) : i.keyword ≠ "FROM" := by
  have hfrom := List.mem_takeWhile_imp h
  simpa [Instruction.isFrom] using hfrom

theorem preamble_append_flatMap_groups (is : List Instruction) :
    (preamble is ++ (groups is).flatMap fun (i, own) => i :: own) = is := by
  induction is with
  | nil => rfl
  | cons i is ih =>
      cases hi : i.isFrom with
      | true => simpa [preamble, groups, hi] using ih
      | false => simpa [preamble, groups, hi] using ih

theorem exists_of_mem_groups (h : group ∈ groups is) : ∃ later, group.2 = preamble later := by
  induction is with
  | nil => cases h
  | cons i is ih =>
      rw [groups] at h
      split at h
      · rcases List.mem_cons.mp h with rfl | h
        · exact ⟨is, rfl⟩
        · exact ih h
      · exact ih h

/-! ## The stage of a group -/

theorem image_stageOf (i : Instruction) : (stageOf i.arguments).image = imageWord i := by
  rw [stageOf, imageWord, List.headD_eq_head?_getD, List.head?_filter]

theorem stageOfGroup_spec (vars : Variables) (group : Instruction × List Instruction) :
    (stageOfGroup vars group).1.instructions = group.2 ∧
      (stageOfGroup vars group).1.image = expansionOrSelf vars (imageWord group.1) ∧
      (stageOfGroup vars group).2 = failedExpansion? vars (imageWord group.1) := by
  have himage := image_stageOf group.1
  rw [stageOfGroup, expandImage, expansionOrSelf, failedExpansion?, ← himage]
  cases expand vars (stageOf group.1.arguments).image <;> exact ⟨rfl, rfl, rfl⟩

/-! ## Public theorem -/

/-- A Dockerfile is its instructions before the first FROM and, stage by stage, a FROM and the
instructions of its stage. The image of a stage is the expansion of the image word of its FROM, or that
word, which is then reported. -/
theorem exists_staged (given : Variables) (content : String) :
    ∃ front froms, Staged given (instructions content) front froms (stages given content)
      (warnings given content) := by
  let is := instructions content
  let vars := stageVariables given is
  have hstages : stages given content = (groups is).map fun group => (stageOfGroup vars group).1 := by
    rw [stages, checkedStages, List.map_map]
    rfl
  refine ⟨preamble is, (groups is).map Prod.fst, ?_⟩
  constructor
  case whole =>
    have hgroup : ∀ group ∈ groups is, group.1 :: group.2 =
        group.1 :: (stageOfGroup vars group).1.instructions :=
      fun group _ => by rw [(stageOfGroup_spec vars group).1]
    calc
      is = preamble is ++ (groups is).flatMap fun group => group.1 :: group.2 :=
        (preamble_append_flatMap_groups is).symm
      _ = _ := by
        rw [hstages, List.zip_map', List.flatMap_map, List.flatMap_congr hgroup]
  case length_eq => rw [hstages, List.length_map, List.length_map]
  case front_others => exact fun i => keyword_ne_of_mem_preamble
  case froms_eq => exact map_fst_groups is
  case stages_others =>
    intro stage hstage i hi
    rw [hstages] at hstage
    obtain ⟨group, hgroup, rfl⟩ := List.mem_map.mp hstage
    obtain ⟨later, hlater⟩ := exists_of_mem_groups hgroup
    rw [(stageOfGroup_spec vars group).1, hlater] at hi
    exact keyword_ne_of_mem_preamble hi
  case images =>
    rw [hstages, List.map_map, List.map_map]
    exact List.map_congr_left fun group _ => (stageOfGroup_spec vars group).2.1
  case warnings =>
    rw [warnings, checkedStages, List.filterMap_map, List.filterMap_map]
    exact List.filterMap_congr fun group _ => (stageOfGroup_spec vars group).2.2

end ImageTrust.Dockerfile
