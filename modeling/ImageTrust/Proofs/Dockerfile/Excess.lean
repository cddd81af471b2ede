import ImageTrust.Proofs.Dockerfile.ExecForm
import ImageTrust.Proofs.Dockerfile.FromWords
import ImageTrust.Proofs.Dockerfile.Grouping

/-! # Arrays that are too large

A reader with limits gives up at a Dockerfile with an array that is too large. Where it does not, the limits
do not matter. An integer may be too long wherever it stands, so that a Dockerfile can have a base image
that is never told.
-/

namespace ImageTrust.Dockerfile

open Text

variable {limits : Json.Limits} {content : String} {digits : List Char}

/-- The arrays of a Dockerfile at which a reader gives up nowhere are read as without limits. -/
theorem read_eq_of_excess?_eq_none (h : excess? limits content = none) :
    ∀ w ∈ scanFrom true (preprocess content.toList), isArray (trim w.argument) →
      (Json.read (some limits) (trim w.argument)).toOption = Json.read? (trim w.argument) := by
  intro w hw harray
  have hnone : Written.excess? limits w = none := List.findSome?_eq_none_iff.mp h w hw
  rw [Written.excess?, if_pos harray] at hnone
  rw [Json.read_eq_of_excess?_eq_none hnone, Json.read?]

/-! ## A long integer -/

/-- A Dockerfile with an integer among the arguments of an instruction behind its only FROM line. -/
def withInteger (digits : List Char) : String :=
  "FROM alpine\nCMD [" ++ String.ofList digits ++ "]\n"

theorem not_endsInBackslash_of_getLast? {line : List Char} {c : Char} (hlast : line.getLast? = some c)
    (hblank : isBlank c = false) (hc : c ≠ '\\') : ¬EndsInBackslash line := by
  obtain ⟨front, rfl⟩ := List.getLast?_eq_some_iff.mp hlast
  have hvisible : visible [c] = [c] := visible_cons_of_not_blank hblank []
  rw [EndsInBackslash, visible_append, hvisible, List.getLast?_concat]
  exact fun heq => hc (Option.some.inj heq)

theorem toList_withInteger (digits : List Char) :
    (withInteger digits).toList =
      "FROM".toList ++ ([' '] ++ "alpine".toList) ++ '\n' ::
        ("CMD".toList ++ ([' '] ++ '[' :: (digits ++ [']'])) ++ '\n' :: []) := by
  have hfront : "FROM alpine\nCMD [".toList =
      "FROM".toList ++ ([' '] ++ "alpine".toList) ++ '\n' :: ("CMD".toList ++ [' ', '[']) := by decide +kernel
  have hback : "]\n".toList = [']', '\n'] := by decide
  have hdigits : (String.ofList digits).toList = digits := String.toList_ofList
  calc (withInteger digits).toList
      = ("FROM alpine\nCMD [" ++ String.ofList digits).toList ++ "]\n".toList := String.toList_append
    _ = "FROM alpine\nCMD [".toList ++ (String.ofList digits).toList ++ "]\n".toList :=
        congrArg (· ++ _) String.toList_append
    _ = _ := by
        rw [hfront, hback, hdigits]
        simp only [List.append_assoc, List.cons_append, List.nil_append]

theorem not_mem_withInteger (h : ∀ d ∈ digits, d.isDigit) {c : Char} (hc : c.isDigit = false)
    (hframe : c ∉ "FROM alpine\nCMD []".toList) : c ∉ (withInteger digits).toList := by
  have hdigits : c ∉ digits := by
    intro hmem
    cases hc.symm.trans (h c hmem)
  have hparts : "FROM alpine\nCMD []".toList =
      "FROM".toList ++ ([' '] ++ "alpine".toList) ++ '\n' :: ("CMD".toList ++ [' ', '[', ']']) := by
    decide
  rw [hparts] at hframe
  rw [toList_withInteger]
  simp only [List.mem_append, List.mem_cons, hdigits] at hframe ⊢
  tauto

theorem getLast?_array (digits : List Char) : ('[' :: (digits ++ [']'])).getLast? = some ']' := by
  rw [← List.cons_append, List.getLast?_concat]

theorem scanFrom_withInteger (h : ∀ c ∈ digits, c.isDigit) :
    scanFrom true (preprocess (withInteger digits).toList) =
      [⟨"FROM".toList, [' '], "alpine".toList⟩,
        ⟨"CMD".toList, [' '], '[' :: (digits ++ [']'])⟩] := by
  have hnewline : '\n' ∉ digits := fun hmem => by cases h _ hmem
  have hspace : ∀ c ∈ [' '], isBlank c := List.forall_mem_singleton.mpr rfl
  have hfrom : Opening [] "FROM".toList [' '] :=
    ⟨List.forall_mem_nil _, List.all_eq_true.mp (by decide), by decide, hspace, by decide⟩
  have hcmd : Opening [] "CMD".toList [' '] :=
    ⟨List.forall_mem_nil _, List.all_eq_true.mp (by decide), by decide, hspace, by decide⟩
  have hlast : ("CMD".toList ++ ([' '] ++ '[' :: (digits ++ [']']))).getLast? = some ']' := by
    rw [List.getLast?_append, List.getLast?_append, getLast?_array, Option.some_or, Option.some_or]
  have hnil : scanFrom true (preprocess []) = [] := by
    rw [preprocess, dropComments, dropCommentsFrom_nil, joinLines, scanFrom_nil]
  rw [toList_withInteger, hfrom.scanFrom_preprocess_line (by decide) ⟨'a', rfl, by decide⟩
      (not_endsInBackslash_of_getLast? (c := 'e') rfl (by decide) (by decide)),
    hcmd.scanFrom_preprocess_line (by simp [hnewline]) ⟨'[', rfl, by decide⟩
      (not_endsInBackslash_of_getLast? hlast (by decide) (by decide)), hnil]

theorem trim_array (digits : List Char) : trim ('[' :: (digits ++ [']'])) = '[' :: (digits ++ [']']) := by
  refine trim_of_trimmed ⟨fun c hc => ?_, fun c hc => ?_⟩
  · cases hc
    rfl
  · cases (getLast?_array digits).symm.trans hc
    rfl

theorem spellsCharacters_withInteger (h : Json.IsInteger digits) :
    SpellsCharacters (withInteger digits) := by
  intro i hi unitLists harray
  obtain ⟨w, hw, rfl⟩ := List.mem_map.mp hi
  obtain ⟨rest, hprecedes⟩ := (readOff_scanFrom true _).exists_precedes w hw
  rw [hprecedes.argumentText_eq] at harray
  rw [scanFrom_withInteger h.digit] at hw
  rcases List.mem_pair.mp hw with rfl | rfl
  · exact absurd harray.head?_eq (by decide)
  · rw [trim_array] at harray
    exact absurd harray h.not_textArray

theorem excess?_withInteger (h : Json.IsInteger digits) (hlong : limits.digits < digits.length)
    (hnesting : 0 < limits.nesting) :
    excess? limits (withInteger digits) = some (.digits digits.length) := by
  have harray : isArray ('[' :: (digits ++ [']'])) := by
    rw [isArray, getLast?_array]
    rfl
  have hfrom : Written.excess? limits ⟨"FROM".toList, [' '], "alpine".toList⟩ = none := rfl
  rw [excess?, scanFrom_withInteger h.digit, List.findSome?_cons, hfrom, List.findSome?_singleton,
    Written.excess?, trim_array, if_pos harray, h.excess?_eq hlong hnesting]

theorem baseImage?_withInteger (h : ∀ c ∈ digits, c.isDigit) :
    baseImage? [] (withInteger digits) = some "alpine" := by
  have hfrom : (Written.instruction ⟨"FROM".toList, [' '], "alpine".toList⟩).isFrom := by decide
  have hkeyword : String.ofList ("CMD".toList.map Char.toUpper) ≠ "FROM" := by decide
  have hcmd : ¬(Written.instruction ⟨"CMD".toList, [' '], '[' :: (digits ++ [']'])⟩).isFrom := by
    rw [isFrom_instruction]
    exact hkeyword
  have harguments :
      (Written.instruction ⟨"FROM".toList, [' '], "alpine".toList⟩).arguments = ["alpine"] := by
    decide +kernel
  have hdollar : '$' ∉ (stageOf ["alpine"]).image.toList := by decide
  rw [baseImage?, ← lastImage?_map_heading, map_heading_stages, instructions,
    scanFrom_withInteger h, List.map_cons, List.map_cons, List.map_nil, List.filter_cons_of_pos hfrom,
    List.filter_cons_of_neg hcmd, List.filter_nil, List.map_singleton, harguments,
    expandImage_of_dollar_not_mem hdollar]
  rfl

end ImageTrust.Dockerfile
