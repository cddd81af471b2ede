import ImageTrust.Disk
import ImageTrust.Proofs.Text.Returns
import ImageTrust.Proofs.Text.Utf8

/-! # Disks that answer at once -/

namespace ImageTrust.Disk

variable {disk : Disk Id} {path : String}

theorem has_of_kind {kind : EntryKind} (h : disk.kind path = .ok kind) : disk.has path = true := by
  simp [has, h, bind, pure, Except.toBool]

theorem has_of_error {fault : FileFault} (h : disk.kind path = .error fault) :
    disk.has path = false := by
  simp [has, h, bind, pure, Except.toBool]

theorem readText_of_error {fault : FileFault} (h : disk.read path = .error fault) :
    disk.readText path = .error (.file ⟨fault, path⟩) := by
  simp [readText, h, bind, pure]

theorem readText_of_bytes {bytes : List UInt8} (h : disk.read path = .ok bytes) :
    disk.readText path = (Text.ofBytes bytes).mapError .notUtf8 := by
  simp [readText, h, bind, pure]

theorem readText_of_nil (h : disk.read path = .ok []) : disk.readText path = .ok "" := by
  have hempty : Text.ofBytes [] = .ok "" := by
    rw [Text.ofBytes, Text.decodeFrom]
    rfl
  rw [readText_of_bytes h, hempty]
  rfl

/-- The text of a file is read with its line ends unified. -/
theorem readText_of_encode {content : String} (h : disk.read path = .ok (Text.encode content.toList)) :
    disk.readText path = .ok (Text.unified content) := by
  rw [readText_of_bytes h, Text.ofBytes, Text.decodeFrom_encode]
  rfl

theorem forbids_iff : disk.forbids path = true ↔ disk.read path = .error .denied := by
  rw [forbids]
  cases disk.read path with
  | ok bytes => exact iff_of_false Bool.false_ne_true (by rintro ⟨⟩)
  | error fault =>
      cases fault with
      | denied => exact iff_of_true rfl rfl
      | _ => exact iff_of_false Bool.false_ne_true (by rintro ⟨⟩)

end ImageTrust.Disk
