import ImageTrust.Proofs.Text.Lines
import ImageTrust.Text.Utf8

/-! # Carriage returns

Texts whose carriage returns all belong to line ends of two characters. To unify their line ends is to
drop the carriage returns, which white space is read the same without.
-/

namespace ImageTrust.Text

/-- Every carriage return of a text stands before a line feed. -/
def Paired (cs : List Char) : Prop :=
  Behind '\r' (fun rest => rest.head? = some '\n') cs

/-- A text with its line ends unified. -/
def unified (text : String) : String :=
  String.ofList (unifyLineEnds text.toList)

def dropReturns (cs : List Char) : List Char :=
  cs.filter (· ≠ '\r')

variable {cs rest : List Char} {c : Char}

/-! ## Dropping -/

theorem dropReturns_cons_of_ne (hc : c ≠ '\r') (cs : List Char) :
    dropReturns (c :: cs) = c :: dropReturns cs :=
  List.filter_cons_of_pos (decide_eq_true hc)

theorem dropReturns_return (cs : List Char) : dropReturns ('\r' :: cs) = dropReturns cs :=
  List.filter_cons_of_neg (by decide)

theorem dropReturns_of_not_mem (h : '\r' ∉ cs) : dropReturns cs = cs := by
  refine List.filter_eq_self.mpr fun c hc => decide_eq_true ?_
  rintro rfl
  exact h hc

theorem dropReturns_append (xs ys : List Char) :
    dropReturns (xs ++ ys) = dropReturns xs ++ dropReturns ys :=
  List.filter_append ..

theorem reverse_dropReturns (cs : List Char) : (dropReturns cs).reverse = dropReturns cs.reverse :=
  List.filter_reverse.symm

section Runs

variable {p : Char → Bool}

theorem not_kept_or_eq (hp : p '\r' = true) : (fun c => !decide (c ≠ '\r') || p c) = p := by
  funext c
  by_cases hc : c = '\r' <;> simp [hc, hp]

/-- A carriage return ends no run of characters that it may belong to. -/
theorem takeWhile_dropReturns (hp : p '\r' = true) (cs : List Char) :
    (dropReturns cs).takeWhile p = dropReturns (cs.takeWhile p) := by
  rw [dropReturns, List.takeWhile_filter, not_kept_or_eq hp, dropReturns]

theorem dropWhile_dropReturns (hp : p '\r' = true) (cs : List Char) :
    (dropReturns cs).dropWhile p = dropReturns (cs.dropWhile p) := by
  rw [dropReturns, List.dropWhile_filter, not_kept_or_eq hp, dropReturns]

end Runs

theorem trim_dropReturns (cs : List Char) : trim (dropReturns cs) = dropReturns (trim cs) := by
  rw [trim, dropAround, dropWhile_dropReturns rfl, dropEndWhile, reverse_dropReturns,
    dropWhile_dropReturns rfl, reverse_dropReturns]
  rfl

/-! ## Pairs -/

theorem paired_cons_iff : Paired (c :: cs) ↔ (c = '\r' → cs.head? = some '\n') ∧ Paired cs :=
  behind_cons_iff

instance decidablePaired : DecidablePred Paired
  | [] => isTrue (behind_of_not_mem List.not_mem_nil)
  | _ :: cs =>
    have := decidablePaired cs
    decidable_of_iff _ paired_cons_iff.symm

theorem Paired.suffix (h : Paired cs) (hrest : rest <:+ cs) : Paired rest :=
  Behind.suffix h hrest

/-- A text is cut between its pairs where no carriage return is left at the end. -/
theorem Paired.of_append (h : Paired (cs ++ rest)) (hlast : cs.getLast? ≠ some '\r') : Paired cs := by
  rintro tail ⟨front, rfl⟩
  cases tail with
  | nil => exact absurd List.getLast?_concat hlast
  | cons c tail =>
      have hhead := h (c :: tail ++ rest) ⟨front, by simp⟩
      simpa using hhead

theorem Paired.not_mem (h : Paired cs) (hline : '\n' ∉ cs) : '\r' ∉ cs := by
  intro hmem
  obtain ⟨front, tail, rfl⟩ := List.mem_iff_append.mp hmem
  have hhead := h tail (List.suffix_append _ _)
  exact hline (List.mem_append_right _ (List.mem_cons_of_mem _ (List.mem_of_head? hhead)))

/-- The line feed of a pair is all that is left of it. -/
theorem Paired.unifyLineEnds_eq (h : Paired cs) : unifyLineEnds cs = dropReturns cs := by
  fun_induction unifyLineEnds cs with
  | case1 => rfl
  | case2 cs ih =>
      have hrest := (paired_cons_iff.mp (paired_cons_iff.mp h).2).2
      rw [dropReturns_return, dropReturns_cons_of_ne (by decide), ih hrest]
  | case3 cs hno ih =>
      obtain ⟨rest, rfl⟩ := List.head?_eq_some_iff.mp ((paired_cons_iff.mp h).1 rfl)
      exact absurd rfl (hno rest)
  | case4 c cs hno hc ih =>
      rw [dropReturns_cons_of_ne hc, ih (paired_cons_iff.mp h).2]

/-- Without carriage returns there is nothing to unify. -/
theorem unified_of_not_mem {text : String} (h : '\r' ∉ text.toList) : unified text = text := by
  have hpaired : Paired text.toList := fun rest hrest => absurd (hrest.subset List.mem_cons_self) h
  rw [unified, hpaired.unifyLineEnds_eq, dropReturns_of_not_mem h, String.ofList_toList]

end ImageTrust.Text
