import ImageTrust.Plan
import Mathlib.Data.List.TakeWhile

/-! # File names of certificates

A file name tells the index of its certificate and the last component of its path, and nothing else.
-/

namespace ImageTrust.Certificate

/-! ## Last components -/

theorem slash_not_mem_lastComponent (path : List Char) : '/' ∉ lastComponent path := by
  intro h
  rw [lastComponent, List.mem_reverse] at h
  simpa using List.mem_takeWhile_imp h

/-! ## Decimal texts -/

theorem isDigit_of_mem_decimal {n : ℕ} {c : Char} (h : c ∈ Nat.toDigits 10 n) : c.isDigit :=
  Nat.isDigit_of_mem_toDigits (by decide) (by decide) h

/-- The digits of a number end where something else begins. -/
theorem takeWhile_isDigit_toDigits (n : ℕ) (rest : List Char) :
    (Nat.toDigits 10 n ++ '-' :: rest).takeWhile Char.isDigit = Nat.toDigits 10 n := by
  rw [List.takeWhile_append_of_pos]
  · simp
  · intro c hc
    exact isDigit_of_mem_decimal hc

theorem dropWhile_isDigit_toDigits (n : ℕ) (rest : List Char) :
    (Nat.toDigits 10 n ++ '-' :: rest).dropWhile Char.isDigit = '-' :: rest := by
  rw [List.dropWhile_append_of_pos]
  · simp
  · intro c hc
    exact isDigit_of_mem_decimal hc

theorem toDigits_append_dash_inj {m n : ℕ} {xs ys : List Char} :
    Nat.toDigits 10 m ++ '-' :: xs = Nat.toDigits 10 n ++ '-' :: ys ↔ m = n ∧ xs = ys := by
  refine ⟨?_, ?_⟩
  · intro h
    have hdigits := congrArg (List.takeWhile Char.isDigit) h
    have hrest := congrArg (List.dropWhile Char.isDigit) h
    rw [takeWhile_isDigit_toDigits, takeWhile_isDigit_toDigits] at hdigits
    rw [dropWhile_isDigit_toDigits, dropWhile_isDigit_toDigits] at hrest
    have hvalue := congrArg (fun digits => Nat.ofDigitChars 10 digits 0) hdigits
    exact ⟨by simpa using hvalue, by simpa using hrest⟩
  · rintro ⟨rfl, rfl⟩
    rfl

/-- A text of digits does not start with the sign of a negative number. -/
theorem toDigits_append_ne_dash (n : ℕ) (xs ys : List Char) :
    Nat.toDigits 10 n ++ xs ≠ '-' :: ys := by
  intro h
  obtain ⟨c, cs, hc⟩ := List.exists_cons_of_ne_nil (Nat.toDigits_ne_nil (n := n) (b := 10))
  rw [hc] at h
  have hdigit : c.isDigit := isDigit_of_mem_decimal (n := n) (by rw [hc]; exact List.mem_cons_self)
  obtain ⟨rfl, _⟩ := List.cons.inj h
  exact absurd hdigit (by decide)

theorem toList_toString_ofNat (n : ℕ) : (toString (n : ℤ)).toList = Nat.toDigits 10 n := by
  rw [Int.toString_eq_repr, Int.repr_eq_if]
  simp

theorem toList_toString_negSucc (n : ℕ) :
    (toString (Int.negSucc n)).toList = '-' :: Nat.toDigits 10 (n + 1) := by
  rw [Int.toString_eq_repr, Int.repr_eq_if]
  simp

/-- A dash after an index separates it from what follows, although it is also the sign. -/
theorem toString_append_dash_inj {i j : ℤ} {xs ys : List Char} :
    (toString i).toList ++ '-' :: xs = (toString j).toList ++ '-' :: ys ↔ i = j ∧ xs = ys := by
  cases i with
  | ofNat m =>
      cases j with
      | ofNat n =>
          simp only [Int.ofNat_eq_natCast, toList_toString_ofNat, toDigits_append_dash_inj,
            Int.natCast_inj]
      | negSucc n =>
          simp only [Int.ofNat_eq_natCast, toList_toString_ofNat, toList_toString_negSucc,
            List.cons_append, toDigits_append_ne_dash, false_iff, not_and]
          intro h
          cases h
  | negSucc m =>
      cases j with
      | ofNat n =>
          simp only [Int.ofNat_eq_natCast, toList_toString_ofNat, toList_toString_negSucc,
            List.cons_append]
          refine ⟨fun h => absurd h.symm (toDigits_append_ne_dash _ _ _), ?_⟩
          rintro ⟨h, _⟩
          cases h
      | negSucc n =>
          simp only [toList_toString_negSucc, List.cons_append, List.cons.injEq, true_and,
            toDigits_append_dash_inj, Nat.add_right_cancel_iff, Int.negSucc_inj]

/-! ## File names -/

theorem toList_fileName (path : String) (index : ℤ) :
    (fileName path index).toList =
      "cert-".toList ++ ((toString index).toList ++ '-' :: lastComponent path.toList) := by
  simp [fileName]

/-- Two file names are equal exactly if they tell the same index and the same last component. -/
theorem fileName_eq_iff {p q : String} {i j : ℤ} :
    fileName p i = fileName q j ↔ i = j ∧ lastComponent p.toList = lastComponent q.toList := by
  rw [← String.toList_inj, toList_fileName, toList_fileName, List.append_right_inj,
    toString_append_dash_inj]

theorem isDigit_or_dash_of_mem_toString {index : ℤ} {c : Char} (h : c ∈ (toString index).toList) :
    c.isDigit ∨ c = '-' := by
  cases index with
  | ofNat n =>
      rw [Int.ofNat_eq_natCast, toList_toString_ofNat] at h
      exact .inl (isDigit_of_mem_decimal h)
  | negSucc n =>
      rw [toList_toString_negSucc, List.mem_cons] at h
      rcases h with rfl | h
      · exact .inr rfl
      · exact .inl (isDigit_of_mem_decimal h)

theorem slash_not_mem_fileName (path : String) (index : ℤ) :
    '/' ∉ (fileName path index).toList := by
  rw [toList_fileName]
  simp only [List.mem_append, List.mem_cons, not_or]
  refine ⟨by decide, ?_, by decide, slash_not_mem_lastComponent _⟩
  intro h
  exact absurd (isDigit_or_dash_of_mem_toString h) (by decide)

end ImageTrust.Certificate
