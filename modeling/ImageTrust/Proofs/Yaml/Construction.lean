import ImageTrust.Proofs.Yaml.Steps

/-! # The faults of a document

A document changes while its values are built, but each place that is come to is a place of it as it was
written. Building the values fails at one of these places, or because a node does not fit its tag.
-/

namespace ImageTrust.Yaml

namespace Document

variable {d a : Document} {id : Nat} {tag : Tag} {entries : List (Item × Item)}

/-! ## Places -/

/-- The entries of the mappings of a document. -/
def IsEntry (d : Document) (entry : Item × Item) : Prop :=
  ∃ id tag entries, d.collection? id = some (.mapping tag entries) ∧ entry ∈ entries

/-- The places of a document: its root, and what its collections hold. -/
inductive Holds (d : Document) : Item → Prop
  | root : Holds d d.root
  | item {id : Nat} {tag : Tag} {items : List Item} {item : Item}
      (hid : d.collection? id = some (.sequence tag items)) (hitem : item ∈ items) : Holds d item
  | key {key value : Item} (hentry : d.IsEntry (key, value)) : Holds d key
  | value {key value : Item} (hentry : d.IsEntry (key, value)) : Holds d value

/-! ## Changes -/

/-- What can become of a document while its values are built: a key that is an equals sign becomes an
ordinary text, and the entries of a mapping are replaced by others of the document. -/
inductive Becomes (d : Document) : Document → Prop
  | refl : Becomes d d
  | settle {a : Document} {key value : Item} (h : Becomes d a) (hentry : d.IsEntry (key, value)) :
      Becomes d (a.settle key)
  | entries {a : Document} {id : Nat} {tag : Tag} {old new : List (Item × Item)} (h : Becomes d a)
      (hid : a.collection? id = some (.mapping tag old)) (hnew : ∀ entry ∈ new, d.IsEntry entry) :
      Becomes d (a.setEntries id tag new)

@[simp] theorem collection?_settle (d : Document) (key : Item) (id : Nat) :
    (d.settle key).collection? id = d.collection? id := by
  unfold settle
  split <;> rfl

theorem collection?_setEntries (d : Document) (id : Nat) (tag : Tag) (entries : List (Item × Item))
    (other : Nat) :
    (d.setEntries id tag entries).collection? other =
      if other = id then some (.mapping tag entries) else d.collection? other := by
  by_cases h : other = id
  · simp [collection?, setEntries, h]
  · have hne : (other == id) = false := beq_eq_false_iff_ne.mpr h
    simp [collection?, setEntries, List.lookup_cons, hne, h]

/-- The entries of a mapping as it stands are entries of the document as it was written. -/
theorem Becomes.isEntry (h : d.Becomes a) (hid : a.collection? id = some (.mapping tag entries)) :
    ∀ entry ∈ entries, d.IsEntry entry := by
  induction h generalizing id tag entries with
  | refl => exact fun entry hentry => ⟨id, tag, entries, hid, hentry⟩
  | settle _ _ ih => exact ih (by rwa [collection?_settle] at hid)
  | entries h hold hnew ih =>
      rw [collection?_setEntries] at hid
      split at hid
      · cases hid
        exact hnew
      · exact ih hid

theorem Becomes.isEntry_of_pair? {item : Item} {entry : Item × Item} (h : d.Becomes a)
    (hpair : a.pair? item = some entry) : d.IsEntry entry := by
  cases item with
  | node id =>
      rw [pair?] at hpair
      split at hpair
      · next hid =>
          cases hpair
          exact h.isEntry hid _ List.mem_cons_self
      · cases hpair
  | _ => cases hpair

/-- Sequences stay as they are. -/
theorem Becomes.sequence {items : List Item} (h : d.Becomes a)
    (hid : a.collection? id = some (.sequence tag items)) :
    d.collection? id = some (.sequence tag items) := by
  induction h with
  | refl => exact hid
  | settle _ _ ih => exact ih (by rwa [collection?_settle] at hid)
  | entries h hold hnew ih =>
      rw [collection?_setEntries] at hid
      split at hid
      · cases hid
      · exact ih hid

/-! ## Merging -/

/-- A step of merging keeps to the document, and its value satisfies a predicate. It fails only where the
document is malformed. -/
abbrev Merges {α : Type} (d : Document) (step : Merging α) (Q : α → Prop) : Prop :=
  Triple d.Becomes step (fun value a => Q value ∧ d.Becomes a) (· = .malformed)

abbrev AllEntries (d : Document) (entries : List (Item × Item)) : Prop :=
  ∀ entry ∈ entries, d.IsEntry entry

/-- The tag and the entries of a mapping are found as they stand. -/
theorem triple_mapping (a : Document) (id : Nat) :
    Triple (· = a) (Merging.mapping id)
      (fun found b => a.collection? id = some (.mapping found.1 found.2) ∧ b = a) (· = .malformed) := by
  refine .get_bind fun b hb => ?_
  subst hb
  split
  · next hid => exact .pure fun b hb => ⟨hid, hb⟩
  · exact .throw rfl

theorem merges_entriesOf (d : Document) (id : Nat) : d.Merges (Merging.entriesOf id) d.AllEntries := by
  refine .of_forall fun a ha => ?_
  refine (triple_mapping a id).bind fun found => .pure fun b hb => ?_
  obtain ⟨hid, rfl⟩ := hb
  exact ⟨ha.isEntry hid, ha⟩

theorem merges_setEntries (hentries : d.AllEntries entries) :
    d.Merges (Merging.setEntries id entries) fun _ => True := by
  refine .of_forall fun a ha => ?_
  refine (triple_mapping a id).bind fun found => .modify fun b hb => ?_
  obtain ⟨hid, rfl⟩ := hb
  exact ⟨trivial, ha.entries hid hentries⟩

variable {flatten : Nat → Merging Unit}

theorem merges_bring (hflatten : ∀ id, d.Merges (flatten id) fun _ => True) (items : List Item) :
    d.Merges (Merging.bring flatten items) d.AllEntries := by
  induction items with
  | nil => exact .pure fun a ha => ⟨List.forall_mem_nil _, ha⟩
  | cons item items ih =>
      cases item with
      | node id =>
          refine (hflatten id).bind fun _ => .assume fun _ => ?_
          refine (d.merges_entriesOf id).bind fun first => .assume fun hfirst => ?_
          refine ih.bind fun others => .pure fun a ha => ?_
          exact ⟨List.forall_mem_append.mpr ⟨ha.1, hfirst⟩, ha.2⟩
      | _ => exact .throw rfl

theorem merges_bringValue (hflatten : ∀ id, d.Merges (flatten id) fun _ => True) (value : Item) :
    d.Merges (Merging.bringValue flatten value) d.AllEntries := by
  cases value with
  | node id =>
      refine .get_bind fun a ha => ?_
      split
      · exact (merges_bring hflatten _).at_state ha
      · exact (merges_bring hflatten _).at_state ha
  | _ => exact .throw rfl

theorem merges_gather (hflatten : ∀ id, d.Merges (flatten id) fun _ => True) (id steps index : Nat) :
    d.Merges (Merging.gather flatten id steps index) d.AllEntries := by
  induction steps generalizing index with
  | zero => exact .pure fun a ha => ⟨List.forall_mem_nil _, ha⟩
  | succ steps ih =>
      refine (d.merges_entriesOf id).bind fun entries => .assume fun hentries => ?_
      split
      · exact .pure fun a ha => ⟨List.forall_mem_nil _, ha⟩
      · next key value hentry =>
          refine .get_bind fun a ha => ?_
          split
          · -- the entries without a merge key, those that it brings in, and those of the keys behind it
            refine Triple.at_state ?_ ha
            refine (d.merges_entriesOf id).bind fun entries => .assume fun hentries => ?_
            have hleft : d.AllEntries (entries.eraseIdx index) :=
              fun entry hentry => hentries entry (List.mem_of_mem_eraseIdx hentry)
            refine (merges_setEntries hleft).bind fun _ => .assume fun _ => ?_
            refine (merges_bringValue hflatten value).bind fun first => .assume fun hfirst => ?_
            refine (ih index).bind fun others => .pure fun a ha => ?_
            exact ⟨List.forall_mem_append.mpr ⟨hfirst, ha.1⟩, ha.2⟩
          · have hsettle : d.Becomes (a.settle key) :=
              ha.settle (hentries _ (List.mem_of_getElem? hentry))
            refine Triple.bind (Q := fun _ => d.Becomes) (.modify ?_) fun _ => ih _
            rintro _ rfl
            exact hsettle

theorem merges_flatten (d : Document) (depth id : Nat) :
    d.Merges (Merging.flatten depth id) fun _ => True := by
  induction depth generalizing id with
  | zero => exact .throw rfl
  | succ depth ih =>
      refine (d.merges_entriesOf id).bind fun entries => .assume fun _ => ?_
      refine (merges_gather ih id _ 0).bind fun merged => .assume fun hmerged => ?_
      split
      · exact .pure fun a ha => ⟨trivial, ha⟩
      · refine (d.merges_entriesOf id).bind fun own => .assume fun hown => ?_
        exact merges_setEntries (List.forall_mem_append.mpr ⟨hmerged, hown⟩)

/-! ## Building -/

/-- A fault of the construction of a document: that of one of its places as the document stands when the
place is come to, if it is not malformed. -/
def PlaceFault (d : Document) (fault : Fault) : Prop :=
  fault = .malformed ∨
    ∃ a item, d.Becomes a ∧ d.Holds item ∧ a.readScalar item = .error fault

/-- The document that values are built from has become of this one. -/
def Underlies (d : Document) (c : Construction) : Prop :=
  d.Becomes c.document

/-- A step of building keeps to the document, and its value satisfies a predicate. It finds nothing but
faults of places. -/
abbrev Builds {α : Type} (d : Document) (step : Building α) (Q : α → Prop) : Prop :=
  Triple d.Underlies step (fun value c => Q value ∧ d.Underlies c) d.PlaceFault

theorem builds_onDocument {α : Type} {step : Merging α} {Q : α → Prop} (h : d.Merges step Q) :
    d.Builds (Building.onDocument step) Q := by
  refine .get_bind fun c hc => ?_
  have hstep : Ends (fun r => Q r.1 ∧ d.Becomes r.2) d.PlaceFault (step.run c.document) :=
    (h c.document hc).mono (fun _ h => h) fun _ => .inl
  refine (Triple.lift hstep).bind fun (value, a) => .assume fun ⟨hvalue, ha⟩ => ?_
  exact .set_bind (.pure_at ⟨hvalue, ha⟩)

theorem ends_readScalar_of_holds {item : Item} (ha : d.Becomes a) (hitem : d.Holds item) :
    Ends (fun _ => True) d.PlaceFault (a.readScalar item) := by
  cases hread : a.readScalar item with
  | ok value => trivial
  | error fault => exact .inr ⟨a, item, ha, hitem, hread⟩

theorem builds_meet {item : Item} (hitem : d.Holds item) :
    d.Builds (Building.meet item) fun _ => True := by
  refine .get_bind fun c hc => ?_
  have hread := ends_readScalar_of_holds hc hitem
  split
  · split
    · split
      · exact .pure_at ⟨trivial, hc⟩
      · exact .set ⟨trivial, hc⟩
    · split
      · refine (Triple.lift hread).bind fun value => .assume fun _ => ?_
        exact .set ⟨trivial, hc⟩
      · exact .pure_at ⟨trivial, hc⟩
  · split
    · exact .set ⟨trivial, hc⟩
    · refine (Triple.lift hread).bind fun value => .assume fun _ => ?_
      exact .pure_at ⟨trivial, hc⟩

theorem builds_meetEntry {entry : Item × Item} (hentry : d.IsEntry entry) :
    d.Builds (Building.meetEntry entry) fun _ => True := by
  refine (builds_meet (.key hentry)).bind fun _ => .assume fun _ => .get_bind fun c hc => ?_
  split
  · exact .throw (.inl rfl)
  · exact (builds_meet (.value hentry)).at_state hc

theorem builds_meetPair (item : Item) : d.Builds (Building.meetPair item) fun _ => True := by
  refine .get_bind fun c hc => ?_
  split
  · exact .throw (.inl rfl)
  · next key value hpair =>
      have hentry := Becomes.isEntry_of_pair? hc hpair
      refine Triple.bind ((builds_meet (.key hentry)).at_state hc) fun _ => .assume fun _ => ?_
      refine (builds_meet (.value hentry)).bind fun _ => .assume fun _ => ?_
      exact .pure fun c hc => ⟨trivial, hc⟩

theorem builds_meetEntries (d : Document) (id : Nat) :
    d.Builds (Building.meetEntries id) fun _ => True := by
  have hentries : d.Merges (do Merging.flatten ((← get).size + 1) id; Merging.entriesOf id)
      d.AllEntries := by
    refine .get_bind fun a ha => ?_
    refine Triple.bind ((d.merges_flatten _ id).at_state ha) fun _ => .assume fun _ => ?_
    exact d.merges_entriesOf id
  refine (builds_onDocument hentries).bind fun entries => .assume fun hentries => ?_
  refine Triple.bind (.forM fun entry hentry => ?_) fun _ => .pure fun c hc => ⟨trivial, hc⟩
  exact (builds_meetEntry (hentries entry hentry)).imp fun _ _ h => h.2

theorem builds_contentsOf (d : Document) (id : Nat) :
    d.Builds (Building.contentsOf id) fun _ => True := by
  refine .get_bind fun c hc => ?_
  split
  · next items hid =>
      refine Triple.at_state ?_ hc
      refine Triple.bind (.forM fun item hitem => ?_) fun _ => .pure fun c hc => ⟨trivial, hc⟩
      have hholds : d.Holds item := .item (Becomes.sequence hc hid) hitem
      exact (builds_meet hholds).imp fun _ _ h => h.2
  · refine Triple.at_state ?_ hc
    refine Triple.bind (.mapM fun item _ => builds_meetPair item) fun _ => ?_
    exact .pure fun c hc => ⟨trivial, hc.2⟩
  · refine Triple.at_state ?_ hc
    refine Triple.bind (.mapM fun item _ => builds_meetPair item) fun _ => ?_
    exact .pure fun c hc => ⟨trivial, hc.2⟩
  · refine Triple.bind ((d.builds_meetEntries id).at_state hc) fun _ => ?_
    exact .pure fun c hc => hc
  · refine Triple.bind ((d.builds_meetEntries id).at_state hc) fun _ => ?_
    exact .pure fun c hc => hc
  · exact .throw (.inl rfl)

theorem builds_build (d : Document) (id : Nat) : d.Builds (Building.build id) fun _ => True := by
  refine (d.builds_contentsOf id).bind fun contents => .assume fun _ => .modify fun c hc => ?_
  exact ⟨trivial, hc⟩

theorem builds_buildAll (d : Document) (bound : Nat) :
    d.Builds (Building.buildAll bound) fun _ => True := by
  induction bound with
  | zero => exact .pure fun c hc => ⟨trivial, hc⟩
  | succ bound ih =>
      refine .get_bind fun c hc => ?_
      split
      · exact .pure_at ⟨trivial, hc⟩
      · next id waiting hwaiting =>
          refine Triple.bind (Q := fun _ => d.Underlies) (.modify ?_) fun _ => ?_
          · rintro _ rfl
            exact hc
          · refine (d.builds_build id).bind fun _ => .assume fun _ => ?_
            exact ih
      · exact .throw (.inl rfl)

/-- The fault of a document is one of its places, unless the document is malformed. -/
theorem ends_construct (d : Document) :
    Ends d.Underlies d.PlaceFault d.construct := by
  have hstep : d.Builds (do Building.meet d.root; Building.buildAll (d.collections.length + 1))
      fun _ => True :=
    (builds_meet .root).bind fun _ => .assume fun _ => d.builds_buildAll _
  refine Ends.bind (hstep { document := d } .refl) fun r hr => ?_
  exact hr.2

end Document

end ImageTrust.Yaml
