import ImageTrust.Json
import ImageTrust.Proofs.Text.Lines

/-! # Readers with limits

A reader with limits that gives up nowhere reads what a reader without limits reads. An array that holds
nothing but an integer shows where it gives up.
-/

namespace ImageTrust.Json

variable {α β : Type} {limits : Limits} {depth : ℕ} {cs : List Char}

theorem ok_bind (a : α) (next : α → Except Stop β) : (.ok a >>= next) = next a :=
  rfl

/-- A step that ends with a value comes to one before. -/
theorem exists_of_bind_eq_ok {x : Except Stop α} {next : α → Except Stop β} {b : β}
    (h : (x >>= next) = .ok b) : ∃ a, x = .ok a ∧ next a = .ok b := by
  cases x with
  | error stop => cases h
  | ok a => exact ⟨a, rfl, h⟩

/-! ## Refinement -/

/-- The first result is the second one, or that of a reader that has given up. -/
def Refines (limited unlimited : Except Stop α) : Prop :=
  (∃ e, limited = .error (.excess e)) ∨ limited = unlimited

theorem Refines.refl (x : Except Stop α) : Refines x x :=
  .inr rfl

theorem Refines.bind {x y : Except Stop α} {f g : α → Except Stop β} (h : Refines x y)
    (hfg : ∀ a, Refines (f a) (g a)) : Refines (x >>= f) (y >>= g) := by
  obtain ⟨e, rfl⟩ | rfl := h
  · exact .inl ⟨e, rfl⟩
  · cases x with
    | error stop => exact .refl _
    | ok a => exact hfg a

theorem Refines.ite {p : Prop} [Decidable p] {x x' y y' : Except Stop α} (h : Refines x x')
    (h' : Refines y y') : Refines (if p then x else y) (if p then x' else y') := by
  by_cases hp : p
  · rwa [if_pos hp, if_pos hp]
  · rwa [if_neg hp, if_neg hp]

theorem Refines.giveUp {p : Prop} [Decidable p] (e : Excess) (x : Except Stop α) :
    Refines (if p then .error (.excess e) else x) x := by
  by_cases hp : p
  · rw [if_pos hp]
    exact .inl ⟨e, rfl⟩
  · rw [if_neg hp]
    exact .refl x

/-- Inside an array or object that is not too deep there are limits again. -/
theorem refines_descend {limited unlimited : Option Limits → Except Stop α}
    (h : ∀ limits, Refines (limited (some limits)) (unlimited none)) (limits : Limits) :
    Refines (Limits.descend (some limits) >>= limited) (Limits.descend none >>= unlimited) := by
  obtain ⟨digits, nesting⟩ := limits
  cases nesting with
  | zero => exact .inl ⟨.nesting, rfl⟩
  | succ nesting => exact h ⟨digits, nesting⟩

theorem refines_readNumber (limits : Limits) (cs : List Char) :
    Refines (readNumber (some limits) cs) (readNumber none cs) := by
  have hallow : ∀ count, Limits.allow none count = true := fun _ => rfl
  simp only [readNumber, hallow, Bool.not_true, Bool.and_false, Bool.false_eq_true, if_false]
  exact .ite (.refl _) (.giveUp _ _)

/-- Values, items and members are read alike with limits and without. -/
theorem refines_read (depth : ℕ) :
    (∀ limits cs, Refines (readValue (some limits) depth cs) (readValue none depth cs)) ∧
      (∀ limits cs, Refines (readItems (some limits) depth cs) (readItems none depth cs)) ∧
      ∀ limits cs, Refines (readMembers (some limits) depth cs) (readMembers none depth cs) := by
  induction depth with
  | zero =>
      refine ⟨fun limits cs => ?_, fun limits cs => ?_, fun limits cs => ?_⟩
      · rw [readValue, readValue]
        exact .refl _
      · rw [readItems, readItems]
        exact .refl _
      · rw [readMembers, readMembers]
        exact .refl _
  | succ depth ih =>
      obtain ⟨hvalue, hitems, hmembers⟩ := ih
      refine ⟨fun limits cs => ?_, fun limits cs => ?_, fun limits cs => ?_⟩
      · unfold readValue
        split
        · exact .refl _
        · apply refines_descend
          intro limits
          split
          · exact .refl _
          · exact (hitems limits _).bind fun _ => .refl _
        · apply refines_descend
          intro limits
          split
          · exact .refl _
          · exact (hmembers limits _).bind fun _ => .refl _
        · split
          · exact .refl _
          · exact refines_readNumber limits _
      · unfold readItems
        refine (hvalue limits cs).bind fun (item, rest) => ?_
        dsimp only
        split
        · exact .refl _
        · exact (hitems limits _).bind fun _ => .refl _
        · exact .refl _
      · unfold readMembers
        refine (Refines.refl (readName cs)).bind fun (name, rest) => ?_
        refine (hvalue limits _).bind fun (value, rest) => ?_
        dsimp only
        split
        · exact .refl _
        · exact (hmembers limits _).bind fun _ => .refl _
        · exact .refl _

/-- Where a reader with limits does not give up, the limits do not matter. -/
theorem read_eq_of_excess?_eq_none (h : excess? limits cs = none) :
    read (some limits) cs = read none cs := by
  have hrefines : Refines (read (some limits) cs) (read none cs) :=
    ((refines_read _).1 limits _).bind fun _ => .refl _
  obtain ⟨e, hexcess⟩ | heq := hrefines
  · rw [excess?, hexcess] at h
    cases h
  · exact heq

/-! ## Long integers -/

/-- The digits of an integer of which the first one is not zero. -/
structure IsInteger (digits : List Char) : Prop where
  digit : ∀ c ∈ digits, c.isDigit
  head : ∃ c rest, digits = c :: rest ∧ c ≠ '0'

variable {digits : List Char}

theorem readLiteral?_of_isDigit {c : Char} (hc : c.isDigit) (rest : List Char) :
    readLiteral? (c :: rest) = none := by
  have hheads : ∀ word ∈ literals.map Prod.fst, ∃ d ∈ word.toList.head?, d.isDigit = false := by
    simp [literals]
  refine List.findSome?_eq_none_iff.mpr fun entry hentry => ?_
  obtain ⟨d, hd, hdigit⟩ := hheads entry.1 (List.mem_map_of_mem hentry)
  obtain ⟨word, hword⟩ := List.head?_eq_some_iff.mp hd
  have hne : d ≠ c := by
    rintro rfl
    rw [hc] at hdigit
    cases hdigit
  simp [after?, hword, hne]

theorem IsInteger.integralDigits_append (h : IsInteger digits) :
    integralDigits (digits ++ [']']) = digits := by
  have hstop : (digits ++ [']']).takeWhile Char.isDigit = digits := by
    rw [List.takeWhile_append_of_pos h.digit]
    simp
  obtain ⟨c, rest, rfl, hzero⟩ := h.head
  rw [List.cons_append, integralDigits]
  · exact hstop
  · exact fun _ heq => hzero (List.cons.inj heq).1

theorem IsInteger.readNumber_eq (h : IsInteger digits) (hlong : limits.digits < digits.length) :
    readNumber (some limits) (digits ++ [']']) = .error (.excess (.digits digits.length)) := by
  have hminus : (digits ++ [']']).head? ≠ some '-' := by
    obtain ⟨c, rest, rfl, -⟩ := h.head
    have hc := h.digit c List.mem_cons_self
    rintro ⟨⟩
    cases hc
  have hne : digits.isEmpty = false := by
    obtain ⟨c, rest, rfl, -⟩ := h.head
    rfl
  have hdrop : (digits ++ [']']).drop digits.length = [']'] := List.drop_left
  have hfraction : fraction [']'] = [] := rfl
  have hexponent : exponent [']'] = [] := rfl
  have hallow : Limits.allow (some limits) digits.length = false :=
    decide_eq_false (Nat.not_le.mpr hlong)
  simp only [readNumber, if_neg hminus, List.length_nil, List.drop_zero, h.integralDigits_append, hne,
    List.nil_append, hdrop, hfraction, List.append_nil, hexponent, hallow, decide_true, Bool.not_false,
    Bool.and_self, Bool.false_eq_true, if_false, if_true]

theorem IsInteger.readValue_eq (h : IsInteger digits) (hlong : limits.digits < digits.length)
    (depth : ℕ) :
    readValue (some limits) (depth + 1) (digits ++ [']']) =
      .error (.excess (.digits digits.length)) := by
  have hnumber := h.readNumber_eq hlong
  obtain ⟨c, rest, rfl, -⟩ := h.head
  have hc := h.digit c List.mem_cons_self
  have hne : ∀ d : Char, d.isDigit = false → c ≠ d := by
    rintro d hd rfl
    rw [hc] at hd
    cases hd
  rw [List.cons_append] at hnumber ⊢
  rw [readValue]
  · rw [readLiteral?_of_isDigit hc]
    exact hnumber
  · exact fun _ heq => hne '"' rfl (List.cons.inj heq).1
  · exact fun _ heq => hne '[' rfl (List.cons.inj heq).1
  · exact fun _ heq => hne '\x7b' rfl (List.cons.inj heq).1

theorem IsInteger.skipSpace_append (h : IsInteger digits) (rest : List Char) :
    skipSpace (digits ++ rest) = digits ++ rest := by
  obtain ⟨c, others, rfl, -⟩ := h.head
  have hc := h.digit c List.mem_cons_self
  have hspace : ¬isSpace c := by
    intro hspace
    simp only [isSpace, Bool.or_eq_true, decide_eq_true_eq] at hspace
    rcases hspace with ((rfl | rfl) | rfl) | rfl <;> cases hc
  exact List.dropWhile_cons_of_neg hspace

/-- An array of one integer that is too long. -/
theorem IsInteger.excess?_eq (h : IsInteger digits) (hlong : limits.digits < digits.length)
    (hnesting : 0 < limits.nesting) :
    excess? limits ('[' :: (digits ++ [']'])) = some (.digits digits.length) := by
  obtain ⟨most, nesting⟩ := limits
  obtain ⟨nesting, rfl⟩ := Nat.exists_eq_succ_of_ne_zero hnesting.ne'
  have hitems : ∀ depth, readItems (some ⟨most, nesting⟩) (depth + 2) (digits ++ [']']) =
      .error (.excess (.digits digits.length)) := by
    intro depth
    have hnumber : (⟨most, nesting⟩ : Limits).digits < digits.length := hlong
    rw [readItems, h.readValue_eq hnumber]
    rfl
  have hvalue : ∀ depth, readValue (some ⟨most, nesting + 1⟩) (depth + 3) ('[' :: (digits ++ [']'])) =
      .error (.excess (.digits digits.length)) := by
    intro depth
    have hbracket : ∀ rest, digits ++ [']'] ≠ ']' :: rest := by
      obtain ⟨c, others, rfl, -⟩ := h.head
      have hc := h.digit c List.mem_cons_self
      rintro rest ⟨⟩
      cases hc
    have hdescend : Limits.descend (some ⟨most, nesting + 1⟩) = .ok (some ⟨most, nesting⟩) := rfl
    rw [readValue, hdescend, ok_bind, h.skipSpace_append]
    split
    · next heq => exact absurd heq (hbracket _)
    · rw [hitems]
      rfl
  have hlength : 2 * ('[' :: (digits ++ [']'])).length + 1 = 2 * digits.length + 2 + 3 := by
    simp
    omega
  have hopen : skipSpace ('[' :: (digits ++ [']'])) = '[' :: (digits ++ [']']) := rfl
  rw [excess?, read, hlength, hopen, hvalue]
  rfl

end ImageTrust.Json
