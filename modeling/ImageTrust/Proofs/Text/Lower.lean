import ImageTrust.Text.Lower

/-! # Texts in lower case -/

namespace ImageTrust.Text

/-! ## Empty texts -/

theorem lowerAmid_ne_nil (before : List Char) (c : Char) (after : List Char) :
    lowerAmid before c after ≠ [] := by
  rw [lowerAmid]
  split
  · simp
  · split
    · split <;> simp
    · simp

theorem lower_eq_nil_iff {cs : List Char} : lower cs = [] ↔ cs = [] := by
  cases cs with
  | nil => exact ⟨fun _ => rfl, fun _ => rfl⟩
  | cons c cs => simp [lower, lowerAfter, lowerAmid_ne_nil]

theorem lowercase_eq_empty_iff {text : String} : lowercase text = "" ↔ text = "" := by
  rw [← String.toList_inj, lowercase, String.toList_ofList, String.toList_empty, lower_eq_nil_iff,
    String.toList_eq_nil_iff]

/-! ## Colons -/

/-- The lower case of a letter comes after the colon. -/
theorem lowerChar_eq_colon_iff {c : Char} : lowerChar c = ':' ↔ c = ':' := by
  refine ⟨fun h => ?_, ?_⟩
  · have hranges : ∀ r ∈ lowerRanges, (0x3A : Int) < r.first + r.shift := by decide +kernel
    unfold lowerChar at h
    split at h
    · next r hr =>
        have hshift := hranges r (List.mem_of_find?_eq_some hr)
        have hfirst := List.find?_some hr
        simp only [Bool.and_eq_true, decide_eq_true_eq] at hfirst
        exfalso
        unfold Char.ofNat at h
        by_cases hvalid : (Int.toNat (c.toNat + r.shift)).isValidChar
        · rw [dif_pos hvalid] at h
          have hnumber : Int.toNat (c.toNat + r.shift) = 0x3A := congrArg Char.toNat h
          omega
        · rw [dif_neg hvalid] at h
          cases h
    · exact h
  · rintro rfl
    decide +kernel

theorem count_lowerAmid (before : List Char) (c : Char) (after : List Char) :
    (lowerAmid before c after).count ':' = [c].count ':' := by
  unfold lowerAmid
  split
  · next h => simp [h]
  · split
    · next h => split <;> simp [h]
    · simp [List.count_singleton, lowerChar_eq_colon_iff]

/-- Lower case keeps the colons of a text. -/
theorem count_lower (cs : List Char) : (lower cs).count ':' = cs.count ':' := by
  have hafter : ∀ before, (lowerAfter before cs).count ':' = cs.count ':' := by
    induction cs with
    | nil => exact fun _ => rfl
    | cons c cs ih =>
        intro before
        rw [lowerAfter, List.count_append, count_lowerAmid, ih, ← List.count_append, List.singleton_append]
  exact hafter []

end ImageTrust.Text
