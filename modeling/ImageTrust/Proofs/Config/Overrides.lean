import ImageTrust.ConfigFile
import ImageTrust.Proofs.Lookup
import ImageTrust.Proofs.Record.Complaints
import ImageTrust.Proofs.Template.Expansion
import ImageTrust.Proofs.Text.Pieces

/-! # Variables that override a configuration

What the two variables set counts in the place of what the file says, and nothing else changes.
-/

namespace ImageTrust.Config

open Record

/-! ## With and without the variables -/

/-- The variables that override fields. -/
def overrideVariables : List String :=
  [imageVariable, certificatesVariable]

/-- Variables of which none overrides a field. -/
def withoutOverrides (vars : Variables) : Variables :=
  vars.filter fun v => !overrideVariables.contains v.1

/-- A text has no placeholder for a variable that overrides a field. -/
def MentionsNoOverride (content : String) : Prop :=
  ∀ name ∈ Template.mentioned content, name ∉ overrideVariables

instance : DecidablePred MentionsNoOverride :=
  fun content => inferInstanceAs
    (Decidable (∀ name ∈ Template.mentioned content, name ∉ overrideVariables))

/-- The fields that the variables override. -/
def overriddenFields (vars : Variables) : List String :=
  (if (filled? vars imageVariable).isSome then ["base_image"] else []) ++
    if (filled? vars certificatesVariable).isSome then ["certificates"] else []

/-- A value is some pieces without colons, joined by colons, and these are the pieces that are not
empty. -/
def IsColonList (value : String) (paths : List String) : Prop :=
  ∃ pieces : List String, pieces ≠ [] ∧ (∀ piece ∈ pieces, ':' ∉ piece.toList) ∧
    String.intercalate ":" pieces = value ∧ paths = pieces.filter (· ≠ "")

/-- The mapping `replaced` has the values of the variables in the fields they override, and those of
`fields` in the others. -/
structure Overridden (vars : Variables) (fields replaced : List (String × Datum)) : Prop where
  image : ∀ v, filled? vars imageVariable = some v →
    Datum.field? replaced "base_image" = some (.text v)
  certificates : ∀ v, filled? vars certificatesVariable = some v →
    ∃ paths, IsColonList v paths ∧ Datum.field? replaced "certificates" = some (.ofTexts paths)
  others : ∀ name ∉ overriddenFields vars, Datum.field? replaced name = Datum.field? fields name

/-- The configuration of a mapping, or the complaints about it. -/
def validate (fields : List (String × Datum)) : Except Error Config :=
  (Config.read (.record fields)).mapError Error.invalid

/-- The complaints that an outcome tells. -/
def complaints : Except Error Config → List Complaint
  | .error (.invalid complaints) => complaints
  | _ => []

/-! ## Lists with colons -/

theorem isColonList_iff {value : String} {paths : List String} :
    IsColonList value paths ↔ colonParts value = paths := by
  have hempty : ∀ piece : List Char, (!piece.isEmpty) = decide (String.ofList piece ≠ "") := by
    intro piece
    cases piece <;> simp
  refine ⟨?_, ?_⟩
  · rintro ⟨pieces, hne, hpieces, rfl, rfl⟩
    have hsplit : Text.splitAt ':' (String.intercalate ":" pieces).toList =
        pieces.map String.toList := by
      rw [String.toList_intercalate]
      refine Text.splitAt_intercalate (by simpa using hne) ?_
      intro piece hpiece
      obtain ⟨text, htext, rfl⟩ := List.mem_map.mp hpiece
      exact hpieces text htext
    rw [colonParts, hsplit, List.filter_map, List.map_map]
    simp [Function.comp_def, hempty]
  · rintro rfl
    obtain ⟨hjoin, hpieces⟩ := Text.splitAt_spec ':' value.toList
    refine ⟨(Text.splitAt ':' value.toList).map String.ofList, ?_, ?_, ?_, ?_⟩
    · simpa using Text.splitAt_ne_nil ':' value.toList
    · intro piece hpiece
      obtain ⟨text, htext, rfl⟩ := List.mem_map.mp hpiece
      simpa using hpieces text htext
    · rw [← String.toList_inj, String.toList_intercalate]
      simpa [Function.comp_def] using hjoin
    · rw [colonParts, List.filter_map]
      simp [Function.comp_def, hempty]

theorem isColonList_intercalate {paths : List String} (hne : paths ≠ [])
    (h : ∀ path ∈ paths, path ≠ "" ∧ ':' ∉ path.toList) :
    IsColonList (String.intercalate ":" paths) paths := by
  refine ⟨paths, hne, fun path hpath => (h path hpath).2, rfl, ?_⟩
  exact (List.filter_eq_self.mpr fun path hpath => decide_eq_true (h path hpath).1).symm

/-! ## The text of a configuration -/

theorem lookup_withoutOverrides (vars : Variables) (name : String) :
    (withoutOverrides vars).lookup name =
      if name ∈ overrideVariables then none else vars.lookup name := by
  rw [withoutOverrides, lookup_filter_key (fun other => !overrideVariables.contains other)]
  by_cases h : name ∈ overrideVariables <;> simp [h]

theorem fields_congr {vars others : Variables} {content : String}
    (h : Template.expand vars content = Template.expand others content) :
    fields vars content = fields others content := by
  rw [fields, fields, h]

/-- The variables that override fields do not act on a text that does not mention them. -/
theorem fields_withoutOverrides {content : String} (h : MentionsNoOverride content)
    (vars : Variables) : fields (withoutOverrides vars) content = fields vars content := by
  refine fields_congr (Template.expand_congr fun name hname => ?_)
  rw [lookup_withoutOverrides, if_neg (h name hname)]

theorem overrides_withoutOverrides (vars : Variables) : overrides (withoutOverrides vars) = [] := by
  have himage : filled? (withoutOverrides vars) imageVariable = none := by
    rw [filled?, lookup_withoutOverrides, if_pos (by decide)]
    rfl
  have hcertificates : filled? (withoutOverrides vars) certificatesVariable = none := by
    rw [filled?, lookup_withoutOverrides, if_pos (by decide)]
    rfl
  rw [overrides, himage, hcertificates]
  rfl

theorem ofText_eq_bind (vars : Variables) (content : String) :
    ofText vars content = (fields vars content).bind (ofFields vars) :=
  rfl

theorem ofFields_withoutOverrides (vars : Variables) (fields : List (String × Datum)) :
    ofFields (withoutOverrides vars) fields = validate fields := by
  rw [ofFields, overrides_withoutOverrides, List.append_nil, validate]

/-! ## Replaced fields -/

theorem field?_overrides (vars : Variables) (name : String) :
    Datum.field? (overrides vars) name =
      if name = "base_image" then (filled? vars imageVariable).map .text
      else if name = "certificates" then
        (filled? vars certificatesVariable).map fun v => .ofTexts (colonParts v)
      else none := by
  by_cases himage : name = "base_image"
  · subst himage
    cases hfirst : filled? vars imageVariable <;>
      cases hsecond : filled? vars certificatesVariable <;>
        simp [overrides, hfirst, hsecond, Datum.field?, List.lookup_cons]
  · by_cases hcertificates : name = "certificates"
    · subst hcertificates
      cases hfirst : filled? vars imageVariable <;>
        cases hsecond : filled? vars certificatesVariable <;>
          simp [overrides, hfirst, hsecond, Datum.field?, List.lookup_cons]
    · have hne := beq_false_of_ne himage
      have hne' := beq_false_of_ne hcertificates
      cases hfirst : filled? vars imageVariable <;>
        cases hsecond : filled? vars certificatesVariable <;>
          simp [overrides, hfirst, hsecond, Datum.field?, List.lookup_cons, himage, hcertificates, hne,
            hne']

theorem mem_overriddenFields_iff {vars : Variables} {name : String} :
    name ∈ overriddenFields vars ↔
      (name = "base_image" ∧ (filled? vars imageVariable).isSome) ∨
        (name = "certificates" ∧ (filled? vars certificatesVariable).isSome) := by
  rw [overriddenFields, List.mem_append]
  split <;> split <;> simp_all

theorem overridden_append (vars : Variables) (fields : List (String × Datum)) :
    Overridden vars fields (fields ++ overrides vars) := by
  refine ⟨?_, ?_, ?_⟩
  · intro v hv
    rw [field?_append, field?_overrides, if_pos rfl, hv]
    rfl
  · intro v hv
    refine ⟨colonParts v, isColonList_iff.mpr rfl, ?_⟩
    rw [field?_append, field?_overrides, if_neg (by decide), if_pos rfl, hv]
    rfl
  · intro name hname
    rw [mem_overriddenFields_iff, not_or, not_and, not_and] at hname
    have hnone : Datum.field? (overrides vars) name = none := by
      rw [field?_overrides]
      split
      · next himage => simpa using hname.1 himage
      · split
        · next hcertificates => simpa using hname.2 hcertificates
        · rfl
    rw [field?_append, hnone, Option.none_or]

/-- Two mappings that are replaced in the same way have the same fields. -/
theorem Overridden.field?_eq {vars : Variables} {fields fields' replaced replaced' : List (String × Datum)}
    (h : Overridden vars fields replaced) (h' : Overridden vars fields' replaced')
    (hothers : ∀ name ∉ overriddenFields vars, Datum.field? fields name = Datum.field? fields' name)
    (name : String) : Datum.field? replaced name = Datum.field? replaced' name := by
  by_cases hname : name ∈ overriddenFields vars
  · rcases mem_overriddenFields_iff.mp hname with ⟨rfl, hsome⟩ | ⟨rfl, hsome⟩
    · obtain ⟨v, hv⟩ := Option.isSome_iff_exists.mp hsome
      rw [h.image v hv, h'.image v hv]
    · obtain ⟨v, hv⟩ := Option.isSome_iff_exists.mp hsome
      obtain ⟨paths, hpaths, hfield⟩ := h.certificates v hv
      obtain ⟨paths', hpaths', hfield'⟩ := h'.certificates v hv
      rw [hfield, hfield', ← isColonList_iff.mp hpaths, ← isColonList_iff.mp hpaths']
  · rw [h.others name hname, h'.others name hname, hothers name hname]

/-! ## Reading the replaced mapping -/

theorem withDefault_congr {α : Type} (default : α) (read : Datum → Checked α)
    {fields fields' : List (String × Datum)} {name : String}
    (h : Datum.field? fields name = Datum.field? fields' name) :
    withDefault default read fields name = withDefault default read fields' name := by
  rw [withDefault, withDefault, h]

theorem validate_congr {fields fields' : List (String × Datum)}
    (h : ∀ name, Datum.field? fields name = Datum.field? fields' name) :
    validate fields = validate fields' := by
  rw [validate, validate, Config.read, Record.ofFields, Record.ofFields]
  simp only [withDefault_congr _ _ (h _)]

/-- The complaints about a mapping are those about its fields, in this order. -/
theorem complaints_validate (fields : List (String × Datum)) :
    complaints (validate fields) =
      (withDefault none (optional text) fields "base_image").complaints ++
        (withDefault none (optional text) fields "dockerfile").complaints ++
        ((withDefault [] (list text) fields "certificates").complaints ++
          (withDefault none (optional text) fields "user").complaints) := by
  have hread : complaints (validate fields) = (Config.read (.record fields)).complaints := by
    rw [validate]
    cases Config.read (.record fields) <;> rfl
  rw [hread, Config.read, Record.ofFields, complaints_both, complaints_both, complaints_both]

theorem validate_eq_ok_iff {fields : List (String × Datum)} {c : Config} :
    validate fields = .ok c ↔
      withDefault none (optional text) fields "base_image" = .ok c.image ∧
        withDefault none (optional text) fields "dockerfile" = .ok c.dockerfile ∧
        withDefault [] (list text) fields "certificates" = .ok c.certificates ∧
        withDefault none (optional text) fields "user" = .ok c.user := by
  have hread : validate fields = .ok c ↔ Config.read (.record fields) = .ok c := by
    rw [validate]
    cases Config.read (.record fields) <;> simp [Except.mapError]
  rw [hread, Config.read, Record.ofFields]
  simp only [both_eq_ok_iff]
  refine ⟨?_, ?_⟩
  · rintro ⟨_, _, ⟨image, dockerfile, himage, hdockerfile, rfl⟩,
      ⟨certificates, user, hcertificates, huser, rfl⟩, rfl⟩
    exact ⟨himage, hdockerfile, hcertificates, huser⟩
  · rintro ⟨himage, hdockerfile, hcertificates, huser⟩
    exact ⟨_, _, ⟨_, _, himage, hdockerfile, rfl⟩, ⟨_, _, hcertificates, huser, rfl⟩, rfl⟩

/-! ## What the replaced fields say -/

section Replaced

variable {vars : Variables} {fields replaced : List (String × Datum)}

theorem withDefault_of_field? {α : Type} {default : α} {read : Datum → Checked α} {name : String}
    {d : Datum} {a : α} (h : Datum.field? fields name = some d) (hread : read d = .ok a) :
    withDefault default read fields name = .ok a := by
  rw [withDefault, h]
  simp only [hread, within]

theorem list_text_ofTexts (texts : List String) : list text (.ofTexts texts) = .ok texts := by
  have hitems : ∀ i, itemsFrom text i (texts.map .text) = .ok texts := by
    induction texts with
    | nil => exact fun i => rfl
    | cons first texts ih =>
        intro i
        rw [List.map_cons, itemsFrom, ih]
        rfl
  exact hitems 0

theorem Overridden.image_eq (h : Overridden vars fields replaced) {v : String}
    (hv : filled? vars imageVariable = some v) :
    withDefault none (optional text) replaced "base_image" = .ok (some v) :=
  withDefault_of_field? (h.image v hv) rfl

theorem Overridden.certificates_eq (h : Overridden vars fields replaced) {v : String}
    (hv : filled? vars certificatesVariable = some v) :
    withDefault [] (list text) replaced "certificates" = .ok (colonParts v) := by
  obtain ⟨paths, hpaths, hfield⟩ := h.certificates v hv
  rw [isColonList_iff.mp hpaths]
  exact withDefault_of_field? hfield (list_text_ofTexts paths)

/-- Whether a complaint is about a field that is not overridden. -/
def isKept (vars : Variables) (complaint : Complaint) : Bool :=
  (overriddenFields vars).all fun name => !complaint.isAbout name

/-- The complaints about an overridden field go away, those about another one stay. -/
theorem Overridden.complaints_withDefault (h : Overridden vars fields replaced) {α : Type}
    (default : α) (read : Datum → Checked α) (name : String)
    (hread : name ∈ overriddenFields vars →
      (withDefault default read replaced name).complaints = []) :
    (withDefault default read replaced name).complaints =
      (withDefault default read fields name).complaints.filter (isKept vars) := by
  by_cases hname : name ∈ overriddenFields vars
  · rw [hread hname, eq_comm, List.filter_eq_nil_iff]
    intro complaint hcomplaint hkept
    have hnot := List.all_eq_true.mp hkept name hname
    simp [isAbout_of_mem_withDefault hcomplaint] at hnot
  · rw [withDefault_congr default read (h.others name hname), eq_comm, List.filter_eq_self]
    intro complaint hcomplaint
    refine List.all_eq_true.mpr fun other hother => ?_
    have hne : other ≠ name := fun heq => hname (heq ▸ hother)
    have habout := Complaint.isAbout_iff (isAbout_of_mem_withDefault hcomplaint) other
    simpa [hne] using habout

theorem Overridden.complaints_eq (h : Overridden vars fields replaced) :
    complaints (validate replaced) = (complaints (validate fields)).filter (isKept vars) := by
  have hother : ∀ {name : String}, name ≠ "base_image" → name ≠ "certificates" →
      name ∈ overriddenFields vars → False := by
    intro name himage hcertificates hname
    rcases mem_overriddenFields_iff.mp hname with ⟨heq, _⟩ | ⟨heq, _⟩
    · exact himage heq
    · exact hcertificates heq
  rw [complaints_validate, complaints_validate, List.filter_append, List.filter_append,
    List.filter_append]
  congr 1
  · congr 1
    · refine h.complaints_withDefault _ _ _ fun hname => ?_
      rcases mem_overriddenFields_iff.mp hname with ⟨_, hsome⟩ | ⟨heq, _⟩
      · obtain ⟨v, hv⟩ := Option.isSome_iff_exists.mp hsome
        rw [h.image_eq hv]
        rfl
      · exact absurd heq (by decide)
    · exact h.complaints_withDefault _ _ _ fun hname => (hother (by decide) (by decide) hname).elim
  · congr 1
    · refine h.complaints_withDefault _ _ _ fun hname => ?_
      rcases mem_overriddenFields_iff.mp hname with ⟨heq, _⟩ | ⟨_, hsome⟩
      · exact absurd heq (by decide)
      · obtain ⟨v, hv⟩ := Option.isSome_iff_exists.mp hsome
        rw [h.certificates_eq hv]
        rfl
    · exact h.complaints_withDefault _ _ _ fun hname => (hother (by decide) (by decide) hname).elim

theorem Overridden.exists_config (h : Overridden vars fields replaced) {c : Config}
    (hc : validate fields = .ok c) :
    ∃ new, validate replaced = .ok new ∧ new.dockerfile = c.dockerfile ∧ new.user = c.user ∧
      ("base_image" ∉ overriddenFields vars → new.image = c.image) ∧
      ("certificates" ∉ overriddenFields vars → new.certificates = c.certificates) := by
  obtain ⟨himage, hdockerfile, hcertificates, huser⟩ := validate_eq_ok_iff.mp hc
  have hother : ∀ {name : String}, name ≠ "base_image" → name ≠ "certificates" →
      Datum.field? replaced name = Datum.field? fields name := by
    intro name hne hne'
    exact h.others name fun hname => by simp [mem_overriddenFields_iff, hne, hne'] at hname
  obtain ⟨image, hnewImage, hkeptImage⟩ :
      ∃ image, withDefault none (optional text) replaced "base_image" = .ok image ∧
        ("base_image" ∉ overriddenFields vars → image = c.image) := by
    cases hv : filled? vars imageVariable with
    | some v =>
        refine ⟨_, h.image_eq hv, fun hnot => absurd ?_ hnot⟩
        simp [mem_overriddenFields_iff, hv]
    | none =>
        refine ⟨c.image, ?_, fun _ => rfl⟩
        rw [withDefault_congr _ _ (h.others _ (by simp [mem_overriddenFields_iff, hv])), himage]
  obtain ⟨certificates, hnewCertificates, hkeptCertificates⟩ :
      ∃ certificates, withDefault [] (list text) replaced "certificates" = .ok certificates ∧
        ("certificates" ∉ overriddenFields vars → certificates = c.certificates) := by
    cases hv : filled? vars certificatesVariable with
    | some v =>
        refine ⟨_, h.certificates_eq hv, fun hnot => absurd ?_ hnot⟩
        simp [mem_overriddenFields_iff, hv]
    | none =>
        refine ⟨c.certificates, ?_, fun _ => rfl⟩
        rw [withDefault_congr _ _ (h.others _ (by simp [mem_overriddenFields_iff, hv])), hcertificates]
  refine ⟨⟨image, c.dockerfile, certificates, c.user⟩, validate_eq_ok_iff.mpr ?_, rfl, rfl, hkeptImage,
    hkeptCertificates⟩
  refine ⟨hnewImage, ?_, hnewCertificates, ?_⟩
  · rw [withDefault_congr _ _ (hother (by decide) (by decide)), hdockerfile]
  · rw [withDefault_congr _ _ (hother (by decide) (by decide)), huser]

end Replaced

/-! ## Whole texts -/

section Texts

variable {vars : Variables} {content : String}

theorem ofText_withoutOverrides {fs : List (String × Datum)}
    (hfs : fields (withoutOverrides vars) content = .ok fs) :
    ofText (withoutOverrides vars) content = validate fs := by
  rw [ofText_eq_bind, hfs]
  exact ofFields_withoutOverrides vars fs

theorem ofText_eq_validate (h : MentionsNoOverride content) {fs new : List (String × Datum)}
    (hfs : fields (withoutOverrides vars) content = .ok fs) (hnew : Overridden vars fs new) :
    ofText vars content = validate new := by
  rw [fields_withoutOverrides h] at hfs
  rw [ofText_eq_bind, hfs]
  exact validate_congr fun name => (overridden_append vars fs).field?_eq hnew (fun _ _ => rfl) name

theorem ofText_eq_error (h : MentionsNoOverride content) {e : Error}
    (he : fields (withoutOverrides vars) content = .error e) :
    ofText (withoutOverrides vars) content = .error e ∧ ofText vars content = .error e := by
  have hboth := he
  rw [fields_withoutOverrides h] at hboth
  rw [ofText_eq_bind, ofText_eq_bind, he, hboth]
  exact ⟨rfl, rfl⟩

/-- What fails before the fields are looked at has no complaints about them. -/
theorem complaints_eq_nil_of_fields_eq_error {e : Error} (he : fields vars content = .error e) :
    complaints (.error e) = [] := by
  rw [fields] at he
  cases hexpand : Template.expand vars content with
  | error unset =>
      rw [hexpand] at he
      cases he
      rfl
  | ok text =>
      rw [hexpand] at he
      cases hload : Yaml.load text with
      | error fault =>
          simp only [Except.mapError, bind, Except.bind, hload] at he
          cases he
          rfl
      | ok datum =>
          simp only [Except.mapError, bind, Except.bind, hload] at he
          split at he <;> cases he
          rfl

end Texts

/-! ## Public theorem -/

/-- The two variables act on the fields they override and on nothing else. A text that fails before its
fields are looked at fails in the same way with and without them. Otherwise the mapping is checked with
their values in the place of what it says: that has no influence any more, the complaints about the other
fields are as they were, and so are these fields. -/
structure OverridesOnly (vars : Variables) (content : String) : Prop where
  early : ∀ e, fields (withoutOverrides vars) content = .error e →
    ofText (withoutOverrides vars) content = .error e ∧ ofText vars content = .error e
  replaced : ∀ fs, fields (withoutOverrides vars) content = .ok fs →
    ofText (withoutOverrides vars) content = validate fs ∧ (∃ new, Overridden vars fs new) ∧
      ∀ new, Overridden vars fs new → ofText vars content = validate new
  masked : ∀ other fs fs', MentionsNoOverride other →
    fields (withoutOverrides vars) content = .ok fs →
    fields (withoutOverrides vars) other = .ok fs' →
    (∀ name ∉ overriddenFields vars, Datum.field? fs name = Datum.field? fs' name) →
    ofText vars content = ofText vars other
  complaints_eq : complaints (ofText vars content) =
    (complaints (ofText (withoutOverrides vars) content)).filter (isKept vars)
  kept : ∀ c, ofText (withoutOverrides vars) content = .ok c →
    ∃ new, ofText vars content = .ok new ∧ new.dockerfile = c.dockerfile ∧ new.user = c.user ∧
      ("base_image" ∉ overriddenFields vars → new.image = c.image) ∧
      ("certificates" ∉ overriddenFields vars → new.certificates = c.certificates)
  given : ∀ new, ofText vars content = .ok new →
    (∀ v, filled? vars imageVariable = some v → new.image = some v) ∧
      ∀ v, filled? vars certificatesVariable = some v → IsColonList v new.certificates
  joined : ∀ new paths, ofText vars content = .ok new → paths ≠ [] →
    (∀ path ∈ paths, path ≠ "" ∧ ':' ∉ path.toList) →
    vars.lookup certificatesVariable = some (String.intercalate ":" paths) →
    new.certificates = paths

theorem overridesOnly {content : String} (h : MentionsNoOverride content) (vars : Variables) :
    OverridesOnly vars content := by
  have hgiven : ∀ new, ofText vars content = .ok new →
      (∀ v, filled? vars imageVariable = some v → new.image = some v) ∧
        ∀ v, filled? vars certificatesVariable = some v → IsColonList v new.certificates := by
    intro new hnew
    cases hfs : fields (withoutOverrides vars) content with
    | error e =>
        rw [(ofText_eq_error h hfs).2] at hnew
        cases hnew
    | ok fs =>
        have hreplaced := overridden_append vars fs
        rw [ofText_eq_validate h hfs hreplaced, validate_eq_ok_iff] at hnew
        refine ⟨fun v hv => ?_, fun v hv => isColonList_iff.mpr ?_⟩
        · have himage := hnew.1
          rw [hreplaced.image_eq hv] at himage
          exact (Except.ok.inj himage).symm
        · have hcertificates := hnew.2.2.1
          rw [hreplaced.certificates_eq hv] at hcertificates
          exact Except.ok.inj hcertificates
  refine ⟨fun e he => ofText_eq_error h he, ?_, ?_, ?_, ?_, hgiven, ?_⟩
  · intro fs hfs
    exact ⟨ofText_withoutOverrides hfs, ⟨_, overridden_append vars fs⟩,
      fun new hnew => ofText_eq_validate h hfs hnew⟩
  · intro other fs fs' hother hfs hfs' hagree
    rw [ofText_eq_validate h hfs (overridden_append vars fs),
      ofText_eq_validate hother hfs' (overridden_append vars fs')]
    exact validate_congr fun name =>
      (overridden_append vars fs).field?_eq (overridden_append vars fs') hagree name
  · cases hfs : fields (withoutOverrides vars) content with
    | error e =>
        rw [(ofText_eq_error h hfs).1, (ofText_eq_error h hfs).2,
          complaints_eq_nil_of_fields_eq_error hfs]
        rfl
    | ok fs =>
        rw [ofText_withoutOverrides hfs, ofText_eq_validate h hfs (overridden_append vars fs)]
        exact (overridden_append vars fs).complaints_eq
  · intro c hc
    cases hfs : fields (withoutOverrides vars) content with
    | error e =>
        rw [(ofText_eq_error h hfs).1] at hc
        cases hc
    | ok fs =>
        rw [ofText_withoutOverrides hfs] at hc
        rw [ofText_eq_validate h hfs (overridden_append vars fs)]
        exact (overridden_append vars fs).exists_config hc
  · intro new paths hnew hne hpaths hlookup
    have hlist := isColonList_intercalate hne hpaths
    have hvalue : String.intercalate ":" paths ≠ "" := by
      intro hempty
      rw [hempty, isColonList_iff] at hlist
      exact hne (hlist.symm.trans (by decide))
    have hfilled : filled? vars certificatesVariable = some (String.intercalate ":" paths) := by
      simp [filled?, hlookup, hvalue]
    rw [← isColonList_iff.mp ((hgiven new hnew).2 _ hfilled), isColonList_iff.mp hlist]

/-- Fields with values of a wrong kind, both of them overridden, and a placeholder for another
variable. -/
theorem overridesOnly_ubuntu :
    MentionsNoOverride "base_image: [5]\ncertificates: none\nuser: ${WHO}\n" ∧
      OverridesOnly [("WHO", "app"), (imageVariable, "ubuntu"), (certificatesVariable, "/a::/b:")]
        "base_image: [5]\ncertificates: none\nuser: ${WHO}\n" := by
  have h : MentionsNoOverride "base_image: [5]\ncertificates: none\nuser: ${WHO}\n" := by
    decide +kernel
  exact ⟨h, overridesOnly h _⟩

end ImageTrust.Config
