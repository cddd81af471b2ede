import ImageTrust.Proofs.Text.Lines

/-! # Texts cut at a separator -/

namespace ImageTrust.Text

variable {separator : Char}

theorem splitAt_ne_nil (separator : Char) (cs : List Char) : splitAt separator cs ≠ [] := by
  cases cs with
  | nil => simp [splitAt]
  | cons c cs =>
      rw [splitAt]
      split
      · simp
      · split <;> simp

theorem length_splitAt (separator : Char) (cs : List Char) :
    (splitAt separator cs).length = cs.count separator + 1 := by
  induction cs with
  | nil => rfl
  | cons c cs ih =>
      rw [splitAt]
      split
      · next hc => simp [ih, hc]
      · next hc =>
          obtain ⟨first, others, hpieces⟩ := List.exists_cons_of_ne_nil (splitAt_ne_nil separator cs)
          rw [hpieces] at ih ⊢
          simpa [List.count_cons, hc] using ih

/-- The pieces of a text are what lies between its separators. -/
theorem splitAt_spec (separator : Char) (cs : List Char) :
    [separator].intercalate (splitAt separator cs) = cs ∧
      ∀ piece ∈ splitAt separator cs, separator ∉ piece := by
  induction cs with
  | nil => simp [splitAt]
  | cons c cs ih =>
      obtain ⟨first, others, hpieces⟩ := List.exists_cons_of_ne_nil (splitAt_ne_nil separator cs)
      rw [hpieces] at ih
      by_cases hc : c = separator
      · subst hc
        rw [splitAt, if_pos rfl, hpieces, List.intercalate_cons_cons]
        refine ⟨by simp [ih.1], ?_⟩
        intro piece hpiece
        rcases List.mem_cons.mp hpiece with rfl | hpiece
        · simp
        · exact ih.2 piece hpiece
      · simp only [splitAt, if_neg hc, hpieces]
        refine ⟨?_, ?_⟩
        · cases others with
          | nil => simpa using ih.1
          | cons second others =>
              rw [List.intercalate_cons_cons] at ih ⊢
              simpa using ih.1
        · intro piece hpiece
          rcases List.mem_cons.mp hpiece with rfl | hpiece
          · simp [Ne.symm hc, ih.2 first List.mem_cons_self]
          · exact ih.2 piece (List.mem_cons_of_mem _ hpiece)

theorem mem_intercalate_of_mem {pieces : List (List Char)} {piece : List Char} {c : Char}
    (hpiece : piece ∈ pieces) (hc : c ∈ piece) : c ∈ [separator].intercalate pieces := by
  induction pieces with
  | nil => cases hpiece
  | cons first others ih =>
      cases others with
      | nil =>
          rw [List.mem_singleton] at hpiece
          subst hpiece
          rwa [List.intercalate_singleton]
      | cons second others =>
          rw [List.intercalate_cons_cons, List.mem_append, List.mem_append]
          rcases List.mem_cons.mp hpiece with rfl | hpiece
          · exact .inl (.inl hc)
          · exact .inr (ih hpiece)

theorem mem_of_mem_splitAt {cs piece : List Char} {c : Char} (hpiece : piece ∈ splitAt separator cs)
    (hc : c ∈ piece) : c ∈ cs := by
  rw [← (splitAt_spec separator cs).1]
  exact mem_intercalate_of_mem hpiece hc

theorem intercalate_concat (separator : List Char) (pieces : List (List Char)) (last : List Char) :
    separator.intercalate (pieces ++ [last]) = pieces.flatMap (· ++ separator) ++ last := by
  induction pieces with
  | nil => simp
  | cons first others ih =>
      have hne : others ++ [last] ≠ [] := by simp
      obtain ⟨second, rest, hothers⟩ := List.exists_cons_of_ne_nil hne
      rw [List.cons_append, hothers, List.intercalate_cons_cons, ← hothers, ih]
      simp

/-- Pieces without the separator are found again where they are joined. -/
theorem splitAt_intercalate {pieces : List (List Char)} (hne : pieces ≠ [])
    (h : ∀ piece ∈ pieces, separator ∉ piece) :
    splitAt separator ([separator].intercalate pieces) = pieces := by
  induction pieces with
  | nil => exact absurd rfl hne
  | cons first others ih =>
      have hfirst := h first List.mem_cons_self
      cases others with
      | nil => rw [List.intercalate_singleton, splitAt_of_not_mem hfirst]
      | cons second others =>
          rw [List.intercalate_cons_cons, List.append_assoc, List.singleton_append,
            splitAt_append_cons _ hfirst,
            ih (List.cons_ne_nil _ _) fun piece hpiece => h piece (List.mem_cons_of_mem _ hpiece)]

/-! ## The first separator -/

theorem cutAt_append_cons {front : List Char} (h : separator ∉ front)
    (rest : List Char) : cutAt separator (front ++ separator :: rest) = (front, some rest) := by
  have hinside : ∀ c ∈ front, decide (c ≠ separator) = true :=
    fun c hc => decide_eq_true fun heq => h (heq ▸ hc)
  have hstops := stops_cons (p := (· ≠ separator)) (x := separator) (by simp) rest
  rw [cutAt, dropWhile_run hinside hstops, takeWhile_run hinside hstops]

theorem cutAt_of_not_mem {cs : List Char} (h : separator ∉ cs) :
    cutAt separator cs = (cs, none) := by
  have hinside : ∀ c ∈ cs, decide (c ≠ separator) = true :=
    fun c hc => decide_eq_true fun heq => h (heq ▸ hc)
  rw [cutAt, List.dropWhile_eq_nil_iff.mpr hinside]

end ImageTrust.Text
