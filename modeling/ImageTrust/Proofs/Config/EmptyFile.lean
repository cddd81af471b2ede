import ImageTrust.Proofs.Config.Overrides
import ImageTrust.Proofs.Config.Variables
import ImageTrust.Proofs.Disk.Reading

/-! # Configurations without a text

An empty configuration says nothing, so that the variables that override it say everything.
-/

namespace ImageTrust.Config

open Record

/-- The configuration that variables make where there is no other one. -/
def ofOverrides (vars : Variables) : Config where
  image := filled? vars imageVariable
  certificates := ((filled? vars certificatesVariable).map colonParts).getD []

theorem expand_empty (vars : Variables) : Template.expand vars "" = .ok "" := by
  have hpieces : Template.pieces "".toList = [] := by
    rw [String.toList_empty, Template.pieces]
  rw [Template.expand, hpieces]
  rfl

theorem fields_empty (vars : Variables) : fields vars "" = .ok [] := by
  have hload : Yaml.load "" = .ok .null := rfl
  simp [fields, expand_empty, hload, Except.mapError, bind, Except.bind, pure, Except.pure]

theorem ofText_empty (vars : Variables) : ofText vars "" = .ok (ofOverrides vars) := by
  have hoverridden := overridden_append vars []
  have hother : ∀ name ∉ overriddenFields vars,
      Datum.field? ([] ++ overrides vars) name = none :=
    fun name hname => hoverridden.others name hname
  rw [ofText_eq_bind, fields_empty]
  refine validate_eq_ok_iff.mpr ⟨?_, ?_, ?_, ?_⟩
  · cases hv : filled? vars imageVariable with
    | some v =>
        rw [hoverridden.image_eq hv]
        simp [ofOverrides, hv]
    | none =>
        rw [withDefault, hother _ (by simp [mem_overriddenFields_iff, hv])]
        simp [ofOverrides, hv]
  · rw [withDefault, hother _ (by simp [mem_overriddenFields_iff])]
    rfl
  · cases hv : filled? vars certificatesVariable with
    | some v =>
        rw [hoverridden.certificates_eq hv]
        simp [ofOverrides, hv]
    | none =>
        rw [withDefault, hother _ (by simp [mem_overriddenFields_iff, hv])]
        simp [ofOverrides, hv]
  · rw [withDefault, hother _ (by simp [mem_overriddenFields_iff])]
    rfl

section Nil

variable {disk : Disk Id} {environment given vars : Variables} {path : String} {notices : List Notice}
  (h : variablesFor disk environment given (directoryOf disk path) = (notices, .ok vars))
  (hread : disk.read path = .ok [])

include h hread

theorem expanded?_of_nil : expanded? disk environment given path = some "" := by
  rw [expanded?_of_text h (Disk.readText_of_nil hread), expand_empty]
  rfl

theorem load_of_nil :
    load disk environment given path = (notices, .ok (ofOverrides vars)) := by
  rw [load_of_text h (Disk.readText_of_nil hread), ofText_empty]
  rfl

end Nil

end ImageTrust.Config
