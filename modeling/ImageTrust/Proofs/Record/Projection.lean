import ImageTrust.Proofs.Record.Fields
import ImageTrust.Records
import Mathlib.Logic.Relation

/-! # Records are projections

What the records of the library are read from, what is kept of it and what is complained about.
-/

namespace ImageTrust

open Record

/-! ## Shapes of the records -/

def Config.shape : Shape :=
  .record [⟨"base_image", some .null, .optional .text⟩, ⟨"dockerfile", some .null, .optional .text⟩,
    ⟨"certificates", some (.list []), .list .text⟩, ⟨"user", some .null, .optional .text⟩]

def TrustStore.shape : Shape :=
  .record [⟨"trust_dir", none, .text⟩, ⟨"refresh_command", none, .text⟩]

def CopyEntry.shape : Shape :=
  .record [⟨"source", none, .text⟩, ⟨"destination", none, .text⟩]

def Plan.shape : Shape :=
  .record [⟨"base_image", none, .text⟩,
    ⟨"os_family", none, .oneOf ["alpine", "debian-ubuntu", "redhat", "unknown"]⟩,
    ⟨"runtime", none, .oneOf ["java", "generic"]⟩,
    ⟨"copy_entries", some (.list []), .list CopyEntry.shape⟩,
    ⟨"commands", some (.list []), .list .text⟩]

def Instruction.shape : Shape :=
  .record [⟨"instruction", none, .text⟩, ⟨"arguments", none, .list .text⟩, ⟨"raw", none, .text⟩]

def Stage.shape : Shape :=
  .record [⟨"base_image", none, .text⟩, ⟨"name", some .null, .optional .text⟩,
    ⟨"platform", some .null, .optional .text⟩,
    ⟨"instructions", some (.list []), .list Instruction.shape⟩]

/-! ## Projections -/

/-- Reading is a projection onto the data of a shape, and complaints about other data are complete. -/
structure Projects {α : Type} (shape : Shape) (read : Datum → Checked α) (write : α → Datum) : Prop where
  accepts_iff (d : Datum) : (∃ a, read d = .ok a) ↔ Fits shape d
  restricts {d : Datum} {a : α} : read d = .ok a → Restricts shape d (write a)
  reread (a : α) : read (write a) = .ok a
  /-- Fields that are not known may be added and removed everywhere. -/
  ignores {d d' : Datum} : Relation.EqvGen (Adds shape) d d' → read d = read d'
  nonempty {d : Datum} {cs : List Complaint} : read d = .error cs → cs ≠ []
  /-- There is one complaint for each place in which the data differs. -/
  mem_iff {d : Datum} {cs : List Complaint} : read d = .error cs →
    ∀ place defect, ⟨place, defect⟩ ∈ cs ↔ Offends shape d place defect
  distinct {d : Datum} {cs : List Complaint} : read d = .error cs → (cs.map Complaint.place).Nodup
  ordered {d : Datum} {cs : List Complaint} : read d = .error cs →
    (cs.map Complaint.place).Pairwise (Precedes shape)
  leads {d : Datum} {cs : List Complaint} : read d = .error cs → ∀ c ∈ cs, d.LeadsTo c.place c.defect

namespace Record

/-- What a record keeps of some data is of its shape, so the data is. -/
theorem Restricts.fits {shape : Shape} {d d' : Datum} (h : Restricts shape d d') : Fits shape d := by
  induction h with
  | text h => exact .text h
  | null shape => exact .null shape
  | optional _ _ ih => exact .optional ih
  | oneOf h => exact .oneOf h
  | @list _ items items' hlength _ ih =>
      refine .list fun d hd => ?_
      obtain ⟨i, hi, rfl⟩ := List.mem_iff_getElem.mp hd
      exact ih i _ _ (List.getElem?_eq_getElem hi) (List.getElem?_eq_getElem (hlength ▸ hi))
  | @record known fields fields' hnames hdefault _ ih =>
      have hsome : ∀ f ∈ known, Datum.field? fields' f.name ≠ none := by
        intro f hf hnone
        rw [field?_eq_none_iff, hnames] at hnone
        exact hnone (List.mem_map_of_mem hf)
      refine .record (fun f hf hrequired hnone => ?_) fun f hf d hd => ?_
      · exact hsome f hf ((hdefault f hf hnone).trans hrequired)
      · obtain ⟨d', hd'⟩ := Option.ne_none_iff_exists'.mp (hsome f hf)
        exact ih f hf d d' hd hd'

/-- Data of a shape does not differ from it. -/
theorem Offends.not_fits {shape : Shape} {d : Datum} {place : List Step} {defect : Defect}
    (h : Offends shape d place defect) : ¬ Fits shape d := by
  intro hfits
  induction h with
  | notText htext hbytes =>
      obtain ⟨_ | _⟩ := hfits
      · exact htext _ rfl
      · exact hbytes _ rfl
  | notUtf8 h =>
      obtain ⟨hspells⟩ := hfits
      exact h _ hspells
  | notAllowed h => cases hfits with | oneOf hname => exact h _ hname rfl
  | notList h => cases hfits with | list _ => exact h _ rfl
  | notRecord h => cases hfits with | record _ _ => exact h _ rfl
  | optional hd _ ih =>
      cases hfits with
      | null => exact hd rfl
      | optional hfits => exact ih hfits
  | item hd _ ih => cases hfits with | list h => exact ih (h _ (List.mem_of_getElem? hd))
  | missing hf hdefault hd => cases hfits with | record hrequired _ => exact hrequired _ hf hdefault hd
  | field hf hd _ ih => cases hfits with | record _ hfield => exact ih (hfield _ hf _ hd)

theorem Validates.ordered_of_error {α : Type} {shape : Shape} {read : Datum → Checked α}
    {write : α → Datum} (h : Validates shape read write) {d : Datum} {cs : List Complaint}
    (hread : read d = .error cs) : (cs.map Complaint.place).Pairwise (Precedes shape) := by
  have hordered := h.ordered d
  rw [hread] at hordered
  exact List.pairwise_map.mpr hordered

theorem Validates.projects {α : Type} {shape : Shape} {read : Datum → Checked α} {write : α → Datum}
    (h : Validates shape read write) : Projects shape read write where
  accepts_iff d := by
    refine ⟨fun ⟨a, ha⟩ => (h.restricts ha).fits, fun hfits => ?_⟩
    cases hread : read d with
    | ok a => exact ⟨a, rfl⟩
    | error cs =>
        cases cs with
        | nil => exact absurd hread (h.nonempty d)
        | cons c cs =>
            have hc : c ∈ (read d).complaints := by simp [hread, Checked.complaints]
            exact absurd hfits (h.mem_complaints.mp hc).not_fits
  restricts := h.restricts
  reread := h.reread
  ignores hadds := by
    induction hadds with
    | rel _ _ hadds => exact h.ignores hadds
    | refl _ => rfl
    | symm _ _ _ ih => exact ih.symm
    | trans _ _ _ _ _ ih ih' => exact ih.trans ih'
  nonempty {d cs} hread := by
    rintro rfl
    exact h.nonempty d hread
  mem_iff {d cs} hread place defect := by
    rw [← h.mem_complaints (c := ⟨place, defect⟩), hread]
    rfl
  distinct {d cs} hread := (h.ordered_of_error hread).imp Precedes.ne
  ordered {d cs} hread := h.ordered_of_error hread
  leads {d cs} hread c hc := by
    have hc : c ∈ (read d).complaints := by rwa [hread]
    exact (h.mem_complaints.mp hc).leadsTo

end Record

/-! ## Records -/

theorem optionalText_validates : Validates (.optional .text) (optional text) Datum.ofOption :=
  text_validates.optional (fun _ => nofun) rfl fun _ => rfl

theorem Config.validates : Validates Config.shape Config.read Config.toDatum := by
  have himage := (optionalText_validates.withDefault none "base_image").pair
    (optionalText_validates.withDefault none "dockerfile") (by decide)
  have hrest := (text_validates.list.withDefault [] "certificates").pair
    (optionalText_validates.withDefault none "user") (by decide)
  exact (himage.both hrest (by decide) (fun c => ⟨(c.image, c.dockerfile), (c.certificates, c.user), rfl⟩)
    fun _ _ => rfl).record (by decide)

theorem TrustStore.validates : Validates TrustStore.shape TrustStore.read TrustStore.toDatum :=
  ((text_validates.required "trust_dir").both (text_validates.required "refresh_command") (by decide)
    (fun t => ⟨t.directory, t.refresh, rfl⟩) fun _ _ => rfl).record (by decide)

theorem CopyEntry.validates : Validates CopyEntry.shape CopyEntry.read CopyEntry.toDatum :=
  ((text_validates.required "source").both (text_validates.required "destination") (by decide)
    (fun e => ⟨e.source, e.destination, rfl⟩) fun _ _ => rfl).record (by decide)

theorem Plan.validates : Validates Plan.shape Plan.read Plan.toDatum := by
  have hfamily : Validates (.oneOf (OsFamily.all.map OsFamily.name)) (named OsFamily.ofName?)
      (fun family => .text family.name) :=
    named_validates (fun _ => rfl) fun family => by cases family <;> rfl
  have hruntime : Validates (.oneOf (Runtime.all.map Runtime.name)) (named Runtime.ofName?)
      (fun runtime => .text runtime.name) :=
    named_validates (fun _ => rfl) fun runtime => by cases runtime <;> rfl
  have hplatform := (hfamily.required "os_family").pair (hruntime.required "runtime") (by decide)
  have himage := (text_validates.required "base_image").pair hplatform (by decide)
  have hrest := (CopyEntry.validates.list.withDefault [] "copy_entries").pair
    (text_validates.list.withDefault [] "commands") (by decide)
  exact (himage.both hrest (by decide)
    (fun p => ⟨(p.image, p.osFamily, p.runtime), (p.copyEntries, p.commands), rfl⟩)
    fun _ _ => rfl).record (by decide)

theorem Instruction.validates : Validates Instruction.shape Instruction.read Instruction.toDatum := by
  have hrest := (text_validates.list.required "arguments").pair (text_validates.required "raw")
    (by decide)
  exact ((text_validates.required "instruction").both hrest (by decide)
    (fun i => ⟨i.keyword, (i.arguments, i.raw), rfl⟩) fun _ _ => rfl).record (by decide)

theorem Stage.validates : Validates Stage.shape Stage.read Stage.toDatum := by
  have himage := (text_validates.required "base_image").pair
    (optionalText_validates.withDefault none "name") (by decide)
  have hrest := (optionalText_validates.withDefault none "platform").pair
    (Instruction.validates.list.withDefault [] "instructions") (by decide)
  exact (himage.both hrest (by decide) (fun s => ⟨(s.image, s.name), (s.platform, s.instructions), rfl⟩)
    fun _ _ => rfl).record (by decide)

/-- Each record of the library is read from data that is of its shape, and from no other. It is that data
restricted to the fields that it knows, and complaints tell every place in which other data differs. -/
theorem records_projected :
    Projects Config.shape Config.read Config.toDatum ∧
      Projects TrustStore.shape TrustStore.read TrustStore.toDatum ∧
      Projects CopyEntry.shape CopyEntry.read CopyEntry.toDatum ∧
      Projects Plan.shape Plan.read Plan.toDatum ∧
      Projects Instruction.shape Instruction.read Instruction.toDatum ∧
      Projects Stage.shape Stage.read Stage.toDatum :=
  ⟨Config.validates.projects, TrustStore.validates.projects, CopyEntry.validates.projects,
    Plan.validates.projects, Instruction.validates.projects, Stage.validates.projects⟩

/-- Faults of all kinds at several depths are told in the order of the fields. -/
example :
    Plan.read (.record [("copy_entries", .list [.other, .record [("source", .null)]]),
        ("os_family", .text "Alpine"), ("base_image", .text "alpine")]) =
      .error [⟨[.field "os_family"], .notAllowed⟩, ⟨[.field "runtime"], .missing⟩,
        ⟨[.field "copy_entries", .index 0], .notRecord⟩,
        ⟨[.field "copy_entries", .index 1, .field "source"], .notText⟩,
        ⟨[.field "copy_entries", .index 1, .field "destination"], .missing⟩] := by
  rfl

end ImageTrust
