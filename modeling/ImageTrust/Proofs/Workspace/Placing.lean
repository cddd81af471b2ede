import ImageTrust.Proofs.Lookup
import ImageTrust.Workspace
import Mathlib.Data.List.Infix

/-! # Entries put into a workspace

An entry that is put where nothing stands changes what the paths lead to that lead to its place or
through it, and nothing else.
-/

namespace ImageTrust.Workspace

variable {w : Workspace} {place start : List String} {cs way : List String} {path : String} {e : Entry}

/-! ## Entries -/

theorem entry?_put_self (hplace : place ≠ []) : Workspace.entry? (w.put place e) place = some e := by
  unfold Workspace.entry? put
  simp [hplace]

theorem entry?_put_of_ne {other : List String} (h : other ≠ place) :
    Workspace.entry? (w.put place e) other = w.entry? other := by
  have hother : (other == place) = false := beq_eq_false_iff_ne.mpr h
  have hkept := lookup_filter_key (fun key => decide (key ≠ place)) other w.entries
  rw [if_pos (decide_eq_true h)] at hkept
  unfold Workspace.entry? put
  simp only [List.lookup_cons, hother, hkept]

/-- A place where nothing stands is not the root. -/
theorem ne_nil_of_missing (h : w.entry? place = none) : place ≠ [] := by
  rintro rfl
  unfold Workspace.entry? at h
  simp at h

/-! ## Following -/

theorem follow_append (w : Workspace) (start xs ys : List String) :
    w.follow start (xs ++ ys) = (w.follow start xs).bind (w.follow · ys) := by
  induction xs generalizing start with
  | nil => rfl
  | cons c xs ih =>
      rw [List.cons_append, follow, follow]
      cases w.entry? start with
      | none => rfl
      | some e =>
          cases e with
          | file bytes => rfl
          | directory =>
              dsimp only
              split_ifs
              · exact ih start
              · exact ih start.dropLast
              · rfl
              · exact ih (start ++ [c])

/-- Where nothing stands, nothing is found behind it. -/
theorem follow_of_missing {c : String} (h : w.entry? place = none) :
    w.follow place (c :: cs) = .error .notFound := by
  rw [follow, h]

theorem follow_of_file {c : String} {bytes : List UInt8} (h : w.entry? place = some (.file bytes)) :
    w.follow place (c :: cs) = .error .notDirectory := by
  rw [follow, h]

/-- To follow several components is to follow the first, then the others. -/
theorem follow_cons (w : Workspace) (start : List String) (c : String) (cs : List String) :
    w.follow start (c :: cs) = (w.follow start [c]).bind (w.follow · cs) :=
  follow_append w start [c] cs

theorem follow_put_singleton {c : String} (h : start ≠ place) :
    (w.put place e).follow start [c] = w.follow start [c] := by
  simp only [follow, entry?_put_of_ne h]

theorem follow_put_of_ne (h : ∀ way, way <+: cs → w.follow start way ≠ .ok place) :
    (w.put place e).follow start cs = w.follow start cs := by
  induction cs generalizing start with
  | nil => rfl
  | cons c cs ih =>
      -- The empty way leads to where the components start, which is not the place therefore.
      have hstart : start ≠ place := fun heq => h [] List.nil_prefix (by rw [heq]; rfl)
      rw [follow_cons (w.put place e), follow_cons w, follow_put_singleton hstart]
      cases hstep : w.follow start [c] with
      | error fault => rfl
      | ok next =>
          refine ih fun way hway heq => h (c :: way) ((List.prefix_cons_inj c).mpr hway) ?_
          rw [follow_cons, hstep]
          exact heq

theorem follow_put_of_ok {target : List String} (hmissing : w.entry? place = none)
    (h : w.follow start cs = .ok target) : (w.put place e).follow start cs = .ok target := by
  induction cs generalizing start with
  | nil => exact h
  | cons c cs ih =>
      have hstart : start ≠ place := by
        rintro rfl
        rw [follow_of_missing hmissing] at h
        cases h
      rw [follow_cons w] at h
      rw [follow_cons (w.put place e), follow_put_singleton hstart]
      cases hstep : w.follow start [c] with
      | error fault =>
          rw [hstep] at h
          cases h
      | ok next =>
          rw [hstep] at h
          exact ih h

/-! ## Paths -/

/-- A path that can be the path of a file. -/
def Nameable (path : String) : Prop :=
  '\x00' ∉ path.toList ∧ path ≠ "" ∧ path.utf8ByteSize ≤ longestPath

/-- Where the components of a path start. -/
def origin (w : Workspace) (path : String) : List String :=
  if Path.isAbsolute path then [] else w.directory

/-- A path leads to a place, whether or not anything stands there. -/
structure LeadsTo (w : Workspace) (path : String) (place : List String) : Prop where
  nameable : Nameable path
  follow_eq : w.follow (w.origin path) (Path.components path) = .ok place

/-- A path leads to a place or through it: so do the first of its components. -/
structure LeadsThrough (w : Workspace) (path : String) (place : List String) : Prop where
  nameable : Nameable path
  exists_way : ∃ way, way <+: Path.components path ∧ w.follow (w.origin path) way = .ok place

theorem LeadsTo.leadsThrough (h : w.LeadsTo path place) : w.LeadsThrough path place :=
  ⟨h.nameable, _, List.prefix_rfl, h.follow_eq⟩

theorem find_of_nameable (h : Nameable path) :
    w.find path =
      (w.follow (w.origin path) (Path.components path)).bind fun target =>
        match w.entry? target with
        | none => .error .notFound
        | some entry => .ok entry := by
  obtain ⟨hnul, hempty, hlong⟩ := h
  rw [find, if_neg (by simpa using hnul), if_neg (by simpa using hempty), if_neg (by omega)]
  rw [origin]
  dsimp only
  cases w.follow (if Path.isAbsolute path then [] else w.directory) (Path.components path) with
  | error fault => rfl
  | ok target => cases w.entry? target <;> rfl

theorem find_put_of_not_nameable (h : ¬Nameable path) :
    (w.put place e).find path = w.find path := by
  rw [Nameable, not_and_or, not_not, not_and_or, not_not, not_le] at h
  rw [find, find]
  by_cases hnul : path.toList.contains '\x00'
  · rw [if_pos hnul, if_pos hnul]
  rw [if_neg hnul, if_neg hnul]
  by_cases hempty : path.isEmpty
  · rw [if_pos hempty, if_pos hempty]
  rw [if_neg hempty, if_neg hempty]
  have hlong : longestPath < path.utf8ByteSize := by
    rcases h with h | h | h
    · exact absurd (by simpa using h) hnul
    · exact absurd (by simpa using h) hempty
    · exact h
  rw [if_pos hlong, if_pos hlong]

theorem find_put_of_not_leadsThrough (h : ¬w.LeadsThrough path place) :
    (w.put place e).find path = w.find path := by
  by_cases hname : Nameable path
  · have hway : ∀ way, way <+: Path.components path → w.follow (w.origin path) way ≠ .ok place :=
      fun way hway heq => h ⟨hname, way, hway, heq⟩
    have hfollow := follow_put_of_ne (e := e) hway
    have horigin : (w.put place e).origin path = w.origin path := rfl
    rw [find_of_nameable hname, find_of_nameable hname, horigin, hfollow]
    cases htarget : w.follow (w.origin path) (Path.components path) with
    | error fault => rfl
    | ok target =>
        have hne : target ≠ place := fun heq => hway _ List.prefix_rfl (heq ▸ htarget)
        simp only [Except.bind, entry?_put_of_ne hne]
  · exact find_put_of_not_nameable hname

section Missing

variable (hmissing : w.entry? place = none)

include hmissing

theorem find_of_leadsThrough (h : w.LeadsThrough path place) : w.find path = .error .notFound := by
  obtain ⟨hname, way, ⟨rest, hrest⟩, hway⟩ := h
  rw [find_of_nameable hname, ← hrest, follow_append, hway]
  cases rest with
  | nil => simp only [follow, Except.bind, hmissing]
  | cons c rest => simp only [Except.bind, follow_of_missing hmissing]

theorem find_put_of_leadsThrough (h : w.LeadsThrough path place) (bytes : List UInt8) :
    (w.put place (.file bytes)).find path = .ok (.file bytes) ∨
      (w.put place (.file bytes)).find path = .error .notDirectory := by
  obtain ⟨hname, way, ⟨rest, hrest⟩, hway⟩ := h
  have hentry : Workspace.entry? (w.put place (.file bytes)) place = some (.file bytes) :=
    entry?_put_self (ne_nil_of_missing hmissing)
  have hway' : (w.put place (.file bytes)).follow (w.origin path) way = .ok place :=
    follow_put_of_ok hmissing hway
  have horigin : (w.put place (.file bytes)).origin path = w.origin path := rfl
  rw [find_of_nameable hname, horigin, ← hrest, follow_append, hway']
  cases rest with
  | nil => exact .inl (by simp only [follow, Except.bind, hentry])
  | cons c rest => exact .inr (by simp only [Except.bind, follow_of_file hentry])

theorem find_put_of_leadsTo (h : w.LeadsTo path place) (bytes : List UInt8) :
    (w.put place (.file bytes)).find path = .ok (.file bytes) := by
  have hentry : Workspace.entry? (w.put place (.file bytes)) place = some (.file bytes) :=
    entry?_put_self (ne_nil_of_missing hmissing)
  have horigin : (w.put place (.file bytes)).origin path = w.origin path := rfl
  rw [find_of_nameable h.nameable, horigin, follow_put_of_ok hmissing h.follow_eq]
  simp only [Except.bind, hentry]

end Missing

theorem exists_read_of_kind_file (h : w.disk.kind path = .ok .file) :
    ∃ bytes, w.disk.read path = .ok bytes := by
  simp only [disk, kind] at h
  simp only [disk, read]
  cases hfind : w.find path with
  | error fault =>
      rw [hfind] at h
      cases h
  | ok entry =>
      cases entry with
      | directory =>
          rw [hfind] at h
          cases h
      | file bytes => exact ⟨bytes, rfl⟩

/-! ## Empty files -/

/-- A workspace with an empty file at a place. -/
def touch (w : Workspace) (place : List String) : Workspace :=
  w.put place (.file [])

theorem kind_touch_of_not_leadsThrough (h : ¬w.LeadsThrough path place) :
    (w.touch place).disk.kind path = w.disk.kind path := by
  have hfind : (w.touch place).find path = w.find path := find_put_of_not_leadsThrough h
  simp only [disk, kind, hfind]

theorem read_touch_of_not_leadsThrough (h : ¬w.LeadsThrough path place) :
    (w.touch place).disk.read path = w.disk.read path := by
  have hfind : (w.touch place).find path = w.find path := find_put_of_not_leadsThrough h
  simp only [disk, read, hfind]

section Touched

variable (hmissing : w.entry? place = none)

include hmissing

theorem kind_of_leadsThrough (h : w.LeadsThrough path place) :
    w.disk.kind path = .error .notFound := by
  simp only [disk, kind, find_of_leadsThrough hmissing h]
  rfl

theorem read_of_leadsThrough (h : w.LeadsThrough path place) :
    w.disk.read path = .error .notFound := by
  simp only [disk, read, find_of_leadsThrough hmissing h]

theorem kind_touch_of_leadsThrough (h : w.LeadsThrough path place) :
    (w.touch place).disk.kind path = .ok .file ∨
      (w.touch place).disk.kind path = .error .notDirectory := by
  simp only [disk, kind]
  rcases find_put_of_leadsThrough hmissing h [] with hfind | hfind
  · exact .inl (by rw [touch, hfind]; rfl)
  · exact .inr (by rw [touch, hfind]; rfl)

theorem read_touch_of_leadsThrough (h : w.LeadsThrough path place) :
    (w.touch place).disk.read path = .ok [] ∨
      (w.touch place).disk.read path = .error .notDirectory := by
  simp only [disk, read]
  rcases find_put_of_leadsThrough hmissing h [] with hfind | hfind
  · exact .inl (by rw [touch, hfind])
  · exact .inr (by rw [touch, hfind])

theorem kind_touch_of_leadsTo (h : w.LeadsTo path place) :
    (w.touch place).disk.kind path = .ok .file := by
  simp only [disk, kind, touch, find_put_of_leadsTo hmissing h []]
  rfl

theorem read_touch_of_leadsTo (h : w.LeadsTo path place) :
    (w.touch place).disk.read path = .ok [] := by
  simp only [disk, read, touch, find_put_of_leadsTo hmissing h []]

end Touched

end ImageTrust.Workspace
