import ImageTrust.Record

/-! # Complaints about records

Everything that is wrong with the fields of a record is told, field by field.
-/

namespace ImageTrust

/-- Whether a complaint concerns a field of the record. -/
def Complaint.isAbout (name : String) (complaint : Complaint) : Bool :=
  complaint.place.head? = some (.field name)

/-- What is wrong with a value that was to be read. -/
def Checked.complaints {α : Type} : Checked α → List Complaint
  | .ok _ => []
  | .error complaints => complaints

namespace Record

variable {α β γ : Type}

/-! ## Fields -/

theorem field?_append (fields others : List (String × Datum)) (name : String) :
    Datum.field? (fields ++ others) name =
      (Datum.field? others name).or (Datum.field? fields name) := by
  rw [Datum.field?, List.reverse_append, List.lookup_append]
  rfl

/-! ## Complaints -/

theorem complaints_both (f : α → β → γ) (a : Checked α) (b : Checked β) :
    (both f a b).complaints = a.complaints ++ b.complaints := by
  cases a <;> cases b <;> simp [both, Checked.complaints]

theorem both_eq_ok_iff {f : α → β → γ} {a : Checked α} {b : Checked β} {c : γ} :
    both f a b = .ok c ↔ ∃ x y, a = .ok x ∧ b = .ok y ∧ f x y = c := by
  cases a <;> cases b <;> simp [both]

theorem isAbout_of_mem_within {name : String} {r : Checked α} {complaint : Complaint}
    (h : complaint ∈ (within (.field name) r).complaints) : complaint.isAbout name := by
  cases r with
  | ok a => cases h
  | error complaints =>
      obtain ⟨inner, _, rfl⟩ := List.mem_map.mp h
      simp [Complaint.isAbout]

theorem isAbout_of_mem_withDefault {default : α} {read : Datum → Checked α}
    {fields : List (String × Datum)} {name : String} {complaint : Complaint}
    (h : complaint ∈ (withDefault default read fields name).complaints) : complaint.isAbout name := by
  rw [withDefault] at h
  split at h
  · exact isAbout_of_mem_within h
  · cases h

/-- A complaint is about one field only. -/
theorem Complaint.isAbout_iff {complaint : Complaint} {name : String} (h : complaint.isAbout name)
    (other : String) : complaint.isAbout other = true ↔ other = name := by
  simp only [Complaint.isAbout, decide_eq_true_eq] at h ⊢
  rw [h, Option.some.injEq, Step.field.injEq]
  exact eq_comm

end Record

end ImageTrust
