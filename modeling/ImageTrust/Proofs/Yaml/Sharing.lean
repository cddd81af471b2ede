import ImageTrust.Proofs.Yaml.Confinement
import ImageTrust.Proofs.Yaml.FlowValues

/-! # The values that twin documents share

The values of twin documents are built side by side. They are the same in all places below which the mark
does not show, and for a mapping in whose zone the mark shows below some keys only, in all its other fields.
-/

namespace ImageTrust.Yaml

open Document (Zone)

/-- The fields of data that are a record. -/
def recordFields : Datum → List (String × Datum)
  | .record fields => fields
  | _ => []

/-- The entries of a collection that is built as a record. -/
def Contents.recordEntries : Contents → List (Item × Item)
  | .fields entries => entries
  | _ => []

/-- The places that a built collection holds. -/
def Contents.places : Contents → List Item
  | .items places => places
  | .pairs entries | .fields entries => entries.flatMap fun (key, value) => [key, value]
  | .members keys => keys

/-! ## Scalars -/

/-- A scalar is never a record, and a text only if that is its own. -/
theorem read_eq_ok {s : Scalar} {value : Datum} (h : s.read = .ok value) :
    recordFields value = [] ∧ ∀ text, value = .text text → s.text = text := by
  have hmap : ∀ {α : Type} {read : Except Fault α} {f : α → Datum}, read.map f = .ok value →
      ∃ a, f a = value := by
    intro α read f hread
    cases read with
    | error fault => cases hread
    | ok a => exact ⟨a, Except.ok.inj hread⟩
  obtain ⟨tag, content⟩ := s
  unfold Scalar.read at h
  cases tag
  case str =>
    cases h
    exact ⟨rfl, fun text htext => Datum.text.inj htext⟩
  case null =>
    cases h
    exact ⟨rfl, nofun⟩
  case bool =>
    dsimp only at h
    split at h
    · cases h
      exact ⟨rfl, nofun⟩
    · cases h
  case binary | int | float | timestamp =>
    obtain ⟨_, rfl⟩ := hmap h
    exact ⟨rfl, nofun⟩
  all_goals cases h

/-- What is read as a scalar is no record, and no merge key is read as one. -/
theorem readScalar_eq_ok {d : Document} {item : Item} {value : Datum} (h : d.readScalar item = .ok value) :
    d.tagOf item ≠ .merge ∧ recordFields value = [] := by
  have hread : ∀ s : Scalar, s.read = .ok value → s.tag ≠ .merge ∧ recordFields value = [] := by
    intro s hs
    refine ⟨fun htag => ?_, (read_eq_ok hs).1⟩
    rw [Scalar.read, htag] at hs
    cases hs
  cases item with
  | leaf s => exact hread s h
  | equals number text => exact hread _ h
  | node id =>
      unfold Document.readScalar at h
      dsimp only at h
      split at h
      · cases h
      · split at h
        · cases h
        · split at h
          · cases h
          · exact hread _ h

theorem foldl_eq_of_forall₂ {α β : Type} {R : α → α → Prop} {f : β → α → β}
    (hf : ∀ b a a', R a a' → f b a' = f b a) {as as' : List α} (h : List.Forall₂ R as as') (b : β) :
    as'.foldl f b = as.foldl f b := by
  induction h generalizing b with
  | nil => rfl
  | cons ha _ ih => rw [List.foldl_cons, List.foldl_cons, hf _ _ _ ha, ih]

namespace Marking

variable {M : Marking} {zone : Zone} {a a' : Document}

/-! ## Places without the mark -/

/-- The collections below which the mark does not show. -/
def cleanZone (M : Marking) : Zone where
  among id := M.document.Clean M.mark (.node id)
  exempt _ := False

/-- What is merged into a place below which the mark does not show does not show it either. -/
theorem confines_cleanZone (M : Marking) : M.document.Confines M.mark M.cleanZone := by
  intro id tag entries hclean hid entry hentry
  have hvalue := hclean.of_contains (.value hid hentry)
  refine ⟨hclean.of_contains (.key hid hentry), fun _ => .inr hvalue, fun _ other hother => ?_⟩
  obtain ⟨key, value⟩ := entry
  dsimp only at hvalue hother
  cases hother with
  | node id => exact hvalue
  | item hlist hitem => exact hvalue.of_contains (.item hlist hitem)

theorem zoneOf_cleanZone {id : Nat} (h : M.Spotless (.node id)) : M.ZoneOf id M.cleanZone :=
  ⟨M.confines_cleanZone, h.clean⟩

/-- An entry that is no merge is the same where the mark does not show below its mapping. -/
theorem same_of_tracks {id : Nat} {entry entry' : Item × Item} (hid : M.Spotless (.node id))
    (h : M.Tracks (M.ZoneOf id) entry entry') (htag : M.document.tagOf entry.1 ≠ .merge) :
    M.Same entry.1 entry'.1 ∧ M.Same entry.2 entry'.2 := by
  have hplaced := h.2 _ (zoneOf_cleanZone hid)
  exact ⟨hplaced.key, (hplaced.value htag).resolve_left not_false⟩

/-- The items of a sequence stay as they are, so they are the same where the mark does not show. -/
theorem Agree.same_items (h : M.Agree a a') {id : Nat} {tag tag' : Tag} {items items' : List Item}
    (hclean : M.Spotless (.node id)) (hid : a.collection? id = some (.sequence tag items))
    (hid' : a'.collection? id = some (.sequence tag' items')) : List.Forall₂ M.Same items items' := by
  obtain ⟨origin, horigin, halike⟩ := h.stems.sequences _ _ _ hid
  obtain ⟨origin', horigin', halike'⟩ := h.stems'.sequences _ _ _ hid'
  cases horigin.symm.trans horigin'
  have hitems : ∀ item ∈ origin, M.document.Clean M.mark item :=
    fun item hitem => hclean.clean.of_contains (.item horigin hitem)
  have hboth := (List.forall₂_and_left _ _).mpr ⟨hitems, halike⟩
  refine forall₂_of_common ?_ hboth ((List.forall₂_and_left _ _).mpr ⟨hitems, halike'⟩)
  exact fun item item' item'' hitem hitem' => same_of_clean hitem.1 hitem.2 hitem'.2

theorem eq_of_same {items items' : List Item} (h : List.Forall₂ M.Same items items') :
    items' = items ∧ ∀ item ∈ items, M.Spotless item := by
  induction h with
  | nil => exact ⟨rfl, List.forall_mem_nil _⟩
  | cons hitem _ ih => exact ⟨by rw [hitem.2, ih.1], List.forall_mem_cons.mpr ⟨hitem.1, ih.2⟩⟩

/-! ## Scalars made of mappings -/

theorem Agree.find?_value (h : M.Agree a a') {id : Nat} (hclean : M.Spotless (.node id))
    {entries entries' : List (Item × Item)}
    (hentries : List.Forall₂ (M.Tracks (M.ZoneOf id)) entries entries') :
    (entries.find? (fun (key, _) => a.tagOf key = .value) = none ∧
      entries'.find? (fun (key, _) => a'.tagOf key = .value) = none) ∨
    ∃ entry entry', entries.find? (fun (key, _) => a.tagOf key = .value) = some entry ∧
      entries'.find? (fun (key, _) => a'.tagOf key = .value) = some entry' ∧ M.Same entry.2 entry'.2 := by
  induction hentries with
  | nil => exact .inl ⟨rfl, rfl⟩
  | @cons entry entry' rest rest' hentry _ ih =>
      have hkey := (hentry.2 _ (zoneOf_cleanZone hclean)).key
      have htag : a'.tagOf entry'.1 = a.tagOf entry.1 := by
        rw [hkey.2, h.tagOf_eq_of_spotless hkey.1]
      by_cases hvalue : a.tagOf entry.1 = .value
      · have hmerge : M.document.tagOf entry.1 ≠ .merge := by
          rw [Ne, ← h.stems.tagOf_eq_merge_iff, hvalue]
          decide
        refine .inr ⟨entry, entry', ?_, ?_, (same_of_tracks hclean hentry hmerge).2⟩
        · rw [List.find?_cons_of_pos (by simpa using hvalue)]
        · rw [List.find?_cons_of_pos (by simpa [htag] using hvalue)]
      · rw [List.find?_cons_of_neg (by simpa using hvalue), List.find?_cons_of_neg (by simpa [htag] using hvalue)]
        exact ih

theorem Agree.textOf_eq (h : M.Agree a a') {item : Item} (hitem : M.Spotless item) (depth : Nat) :
    a'.textOf depth item = a.textOf depth item := by
  induction depth generalizing item with
  | zero => rfl
  | succ depth ih =>
      cases item with
      | leaf s => rfl
      | equals number text => rfl
      | node id =>
          rw [Document.textOf, Document.textOf]
          rcases h.collection? id with ⟨hid, hid'⟩ | ⟨c, c', hid, hid', htwins⟩
          · rw [hid, hid']
          · rw [hid, hid']
            cases htwins with
            | sequence _ => rfl
            | mapping _ =>
                dsimp only
                rcases h.find?_value hitem (h.tracks _ _ _ _ hid hid') with
                  ⟨hnone, hnone'⟩ | ⟨entry, entry', hsome, hsome', hvalue, heq⟩
                · rw [hnone, hnone']
                · rw [hsome, hsome']
                  dsimp only
                  rw [heq, ih hvalue]

theorem Agree.readScalar_eq (h : M.Agree a a') {item : Item} (hitem : M.Spotless item) :
    a'.readScalar item = a.readScalar item := by
  unfold Document.readScalar
  rw [h.tagOf_eq_of_spotless hitem, h.textOf_eq hitem, h.twins.collections.length_eq]

/-! ## Values side by side -/

/-- The values of a collection that is tagged as a scalar. -/
structure ScalarsAgree (M : Marking) (id : Nat) (value value' : Datum) : Prop where
  tag : M.document.tagOf (.node id) ≠ .merge
  same : M.Spotless (.node id) → value' = value
  plain : recordFields value = []
  plain' : recordFields value' = []

theorem Agree.endsAlike_readScalar (h : M.Agree a a') (id : Nat) :
    EndsAlike (M.ScalarsAgree id) (a.readScalar (.node id)) (a'.readScalar (.node id)) := by
  cases hvalue : a.readScalar (.node id) with
  | error fault => trivial
  | ok value =>
      cases hvalue' : a'.readScalar (.node id) with
      | error fault => trivial
      | ok value' =>
          obtain ⟨htag, hplain⟩ := readScalar_eq_ok hvalue
          refine ⟨fun hmerge => ?_, fun hspotless => ?_, hplain, (readScalar_eq_ok hvalue').2⟩
          · exact htag ((h.stems.tagOf_eq_merge_iff _).mpr hmerge)
          · rw [h.readScalar_eq hspotless, hvalue] at hvalue'
            exact (Except.ok.inj hvalue').symm

/-- Entries of a mapping that has been built: their keys are the same, and their values are unless the key
is exempt. -/
def Kept (M : Marking) (zone : Zone) (entry entry' : Item × Item) : Prop :=
  M.Same entry.1 entry'.1 ∧ (zone.exempt entry.1 ∨ M.Same entry.2 entry'.2)

/-- What the two runs have made of a collection. -/
structure ContentsAgree (M : Marking) (id : Nat) (contents contents' : Contents) : Prop where
  same : M.Spotless (.node id) → contents' = contents ∧ ∀ item ∈ contents.places, M.Spotless item
  kept : ∀ zone, M.ZoneOf id zone →
    List.Forall₂ (M.Kept zone) contents.recordEntries contents'.recordEntries

/-- The values that are built from twin documents. -/
structure Pairs (M : Marking) (c c' : Construction) : Prop where
  agree : M.Agree c.document c'.document
  scalars : List.Forall₂ (fun x x' => x.1 = x'.1 ∧ M.ScalarsAgree x.1 x.2 x'.2) c.scalars c'.scalars
  contents : List.Forall₂ (fun x x' => x.1 = x'.1 ∧ M.ContentsAgree x.1 x.2 x'.2) c.contents c'.contents
  waiting : List.Forall₂ (Item.Twins M.changed) c.waiting c'.waiting
  met : c.met = c'.met

theorem Agree.size_eq (h : M.Agree a a') : a'.size = a.size := by
  have hsize : ∀ {c c' : Collection}, c.Twins M.changed c' → c'.size = c.size := by
    intro c c' hc
    cases hc with
    | sequence hitems => exact hitems.length_eq.symm
    | mapping hentries => exact hentries.length_eq.symm
  exact foldl_eq_of_forall₂ (fun n c c' hc => congrArg (n + ·) (hsize hc.2)) h.twins.collections 0

end Marking

/-! ## Building -/

namespace Lockstep

variable {M : Marking} {α : Type} {R : α → α → Prop}

theorem onDocument {step step' : Merging α} (h : Lockstep M.Agree R step step') :
    Lockstep M.Pairs R (Building.onDocument step) (Building.onDocument step') := by
  refine Coupled.get_bind fun c c' hc => ?_
  refine Coupled.bind (Coupled.lift (h _ _ hc.agree)) fun r r' => .assume fun hr => ?_
  intro s t hst
  exact ⟨hr.1, { hc with agree := hr.2 }⟩

/-- A scalar is read where it is come to; no merge key is one. -/
theorem meet_scalar {item item' : Item} (h : item.Twins M.changed item') (hnode : ∀ id, item ≠ .node id)
    (hnode' : ∀ id, item' ≠ .node id) :
    Lockstep M.Pairs (fun _ _ => M.document.tagOf item ≠ .merge) (Building.meet item)
      (Building.meet item') := by
  have hmeet : ∀ i : Item, (∀ id, i ≠ .node id) → Building.meet i = (do
      let c ← MonadState.get
      if (c.document.tagOf i).isCollection then
        MonadState.set { c with waiting := c.waiting ++ [i] }
      else
        let _ ← c.document.readScalar i : Building Unit) := by
    intro i hi
    cases i with
    | node id => exact absurd rfl (hi id)
    | _ => rfl
  rw [hmeet item hnode, hmeet item' hnode']
  refine Coupled.get_bind fun c c' hc => ?_
  have htag := hc.agree.tagOf_alike h
  have hmerge := hc.agree.stems.tagOf_eq_merge_iff item
  by_cases hcollection : (c.document.tagOf item).isCollection = true
  · rw [if_pos hcollection, if_pos (htag.isCollection_eq ▸ hcollection)]
    refine .set ⟨fun hpristine => ?_, { hc with waiting := List.rel_append hc.waiting (.cons h .nil) }⟩
    rw [hmerge.mpr hpristine] at hcollection
    cases hcollection
  · rw [if_neg hcollection, if_neg (htag.isCollection_eq ▸ hcollection)]
    cases hread : c.document.readScalar item with
    | error fault => exact fun _ _ _ => trivial
    | ok value =>
        cases c'.document.readScalar item' with
        | error fault => exact fun _ _ _ => trivial
        | ok value' =>
            exact .pure_at ⟨fun hpristine => (readScalar_eq_ok hread).1 (hmerge.mpr hpristine), hc⟩

theorem meet_node (id : Nat) :
    Lockstep M.Pairs (fun _ _ => M.document.tagOf (.node id) ≠ .merge) (Building.meet (.node id))
      (Building.meet (.node id)) := by
  refine Coupled.get_bind fun c c' hc => ?_
  have hfixed : ¬(Item.node id).IsLoose M.changed := not_false
  have hmerge := hc.agree.stems.tagOf_eq_merge_iff (.node id)
  dsimp only
  rw [hc.agree.tagOf_eq hfixed, ← hc.met]
  by_cases hcollection : (c.document.tagOf (.node id)).isCollection = true
  · have htag : M.document.tagOf (.node id) ≠ .merge := by
      intro hpristine
      rw [hmerge.mpr hpristine] at hcollection
      cases hcollection
    rw [if_pos hcollection, if_pos hcollection]
    refine Coupled.ite (.pure_at ⟨htag, hc⟩) (.set ⟨htag, { hc with waiting := ?_, met := rfl }⟩)
    exact List.rel_append hc.waiting (.cons (.fixed hfixed) .nil)
  · rw [if_neg hcollection, if_neg hcollection]
    rcases lookup_of_forall₂_key hc.scalars id with ⟨hnone, hnone'⟩ | ⟨value, value', hsome, hsome', hvalues⟩
    · rw [hnone, hnone']
      apply Coupled.bind (Coupled.lift (hc.agree.endsAlike_readScalar id))
      refine fun value value' => .assume fun hvalues => ?_
      exact .set ⟨hvalues.tag, { hc with scalars := .cons ⟨rfl, hvalues⟩ hc.scalars, met := rfl }⟩
    · rw [hsome, hsome']
      exact .pure_at ⟨hvalues.tag, hc⟩

theorem meet {item item' : Item} (h : item.Twins M.changed item') :
    Lockstep M.Pairs (fun _ _ => M.document.tagOf item ≠ .merge) (Building.meet item)
      (Building.meet item') := by
  cases h with
  | leaf s => exact meet_scalar (.leaf s) nofun nofun
  | fixed hfixed =>
      cases item with
      | node id => exact meet_node id
      | _ => exact meet_scalar (.fixed hfixed) nofun nofun
  | scalar htrue hloose hloose' htag =>
      refine meet_scalar (.scalar htrue hloose hloose' htag) ?_ ?_
      · rintro id rfl
        exact hloose
      · rintro id rfl
        exact hloose'

/-- Entries that have been come to. -/
def Met (M : Marking) (id : Nat) (entry entry' : Item × Item) : Prop :=
  M.Tracks (M.ZoneOf id) entry entry' ∧ M.document.tagOf entry.1 ≠ .merge

theorem meetEntry {id : Nat} {entry entry' : Item × Item} (h : M.Tracks (M.ZoneOf id) entry entry') :
    Lockstep M.Pairs (fun _ _ => Met M id entry entry') (Building.meetEntry entry)
      (Building.meetEntry entry') := by
  refine bind (meet h.1.1) fun _ _ htag => bind get fun c c' hc => ?_
  rw [(hc.agree.tagOf_alike h.1.1).isCollection_eq]
  refine ite (throw _ _) ((meet h.1.2).imp fun _ _ _ => ⟨h, htag⟩)

/-- An item of a sequence of pairs, and the pair that stands for it. -/
theorem meetPair {item item' : Item} {p : Prop} (h : item.Twins M.changed item')
    (hp : p → M.Spotless item) :
    Lockstep M.Pairs (fun entry entry' => p → M.Same entry.1 entry'.1 ∧ M.Same entry.2 entry'.2)
      (Building.meetPair item) (Building.meetPair item') := by
  refine bind get fun c c' hc => ?_
  cases item with
  | leaf s => exact throw _ _
  | equals number text => exact throw _ _
  | node id =>
      cases h with
      | scalar _ hloose => exact hloose.elim
      | fixed _ =>
          rw [Document.pair?, Document.pair?]
          rcases hc.agree.collection? id with ⟨hid, hid'⟩ | ⟨collection, collection', hid, hid', htwins⟩
          · rw [hid, hid']
            exact throw _ _
          · have htracks := hc.agree.tracks id
            rw [hid, hid'] at htracks ⊢
            cases htwins with
            | sequence _ => exact throw _ _
            | mapping _ =>
                have hentries := htracks _ _ _ rfl rfl
                cases hentries with
                | nil => exact throw _ _
                | cons hentry hrest =>
                    cases hrest with
                    | cons _ _ => exact throw _ _
                    | nil =>
                        refine bind (meet hentry.1.1) fun _ _ htag => bind (meet hentry.1.2) fun _ _ _ => ?_
                        exact pure fun hyes => Marking.same_of_tracks (hp hyes) hentry htag

theorem meetEntries (id : Nat) :
    Lockstep M.Pairs (List.Forall₂ (Met M id)) (Building.meetEntries id) (Building.meetEntries id) := by
  have hentries : Lockstep M.Agree (EntriesTrack M (M.ZoneOf id))
      (do Merging.flatten ((← MonadState.get).size + 1) id; Merging.entriesOf id)
      (do Merging.flatten ((← MonadState.get).size + 1) id; Merging.entriesOf id) := by
    refine bind get fun a a' ha => ?_
    rw [ha.size_eq]
    exact bindEq (flatten _ id) fun _ => entriesOf id
  refine bind (onDocument hentries) fun entries entries' hentries => ?_
  exact bind (forM hentries fun _ _ => meetEntry) fun _ _ hmet => pure hmet

end Lockstep

namespace Marking

variable {M : Marking} {id : Nat} {entries entries' : List (Item × Item)}

theorem kept_of_met {zone : Zone} (hzone : M.ZoneOf id zone)
    (h : List.Forall₂ (Lockstep.Met M id) entries entries') :
    List.Forall₂ (M.Kept zone) entries entries' :=
  h.imp fun _ _ hmet => ⟨(hmet.1.2 zone hzone).key, (hmet.1.2 zone hzone).value hmet.2⟩

theorem eq_of_same_entries
    (h : List.Forall₂ (fun e e' => M.Same e.1 e'.1 ∧ M.Same e.2 e'.2) entries entries') :
    entries' = entries ∧ ∀ item ∈ entries.flatMap (fun (key, value) => [key, value]), M.Spotless item := by
  induction h with
  | nil => exact ⟨rfl, List.forall_mem_nil _⟩
  | @cons entry entry' _ _ hentry _ ih =>
      obtain ⟨hkey, hvalue⟩ := hentry
      refine ⟨by rw [Prod.ext hkey.2 hvalue.2, ih.1], ?_⟩
      rw [List.flatMap_cons]
      exact List.forall_mem_append.mpr ⟨by simp [hkey.1, hvalue.1], ih.2⟩

theorem contentsAgree_fields (h : List.Forall₂ (Lockstep.Met M id) entries entries') :
    M.ContentsAgree id (.fields entries) (.fields entries') where
  same hid := by
    have hsame := eq_of_same_entries (h.imp fun _ _ hmet => same_of_tracks hid hmet.1 hmet.2)
    exact ⟨congrArg _ hsame.1, hsame.2⟩
  kept _ hzone := kept_of_met hzone h

theorem contentsAgree_members (h : List.Forall₂ (Lockstep.Met M id) entries entries') :
    M.ContentsAgree id (.members (entries.map Prod.fst)) (.members (entries'.map Prod.fst)) where
  same hid := by
    have hkeys : List.Forall₂ M.Same (entries.map Prod.fst) (entries'.map Prod.fst) := by
      rw [List.forall₂_map_left_iff, List.forall₂_map_right_iff]
      exact h.imp fun _ _ hmet => (same_of_tracks hid hmet.1 hmet.2).1
    exact ⟨congrArg _ (eq_of_same hkeys).1, (eq_of_same hkeys).2⟩
  kept _ _ := .nil

theorem contentsAgree_pairs
    (h : List.Forall₂ (fun e e' => M.Spotless (.node id) → M.Same e.1 e'.1 ∧ M.Same e.2 e'.2)
      entries entries') : M.ContentsAgree id (.pairs entries) (.pairs entries') where
  same hid := by
    have hsame := eq_of_same_entries (h.imp fun _ _ hentry => hentry hid)
    exact ⟨congrArg _ hsame.1, hsame.2⟩
  kept _ _ := .nil

theorem contentsAgree_items {items items' : List Item}
    (h : M.Spotless (.node id) → List.Forall₂ M.Same items items') :
    M.ContentsAgree id (.items items) (.items items') where
  same hid := ⟨congrArg _ (eq_of_same (h hid)).1, (eq_of_same (h hid)).2⟩
  kept _ _ := .nil

end Marking

namespace Lockstep

variable {M : Marking}

theorem contentsOf (id : Nat) :
    Lockstep M.Pairs (M.ContentsAgree id) (Building.contentsOf id) (Building.contentsOf id) := by
  refine bind get fun c c' hc => ?_
  rcases hc.agree.collection? id with ⟨hid, hid'⟩ | ⟨collection, collection', hid, hid', htwins⟩
  · rw [hid, hid']
    exact throw _ _
  · rw [hid, hid']
    cases htwins with
    | @sequence tag items items' hitems =>
        have hsame : M.Spotless (.node id) → List.Forall₂ M.Same items items' :=
          fun hclean => hc.agree.same_items hclean hid hid'
        have hspotless : ∀ item ∈ items, M.Spotless (.node id) → M.Spotless item :=
          fun item hitem hclean => (Marking.eq_of_same (hsame hclean)).2 item hitem
        have hpairs : Lockstep M.Pairs (M.ContentsAgree id)
            (do return .pairs (← items.mapM Building.meetPair))
            (do return .pairs (← items'.mapM Building.meetPair)) := by
          refine bind (mapM ((List.forall₂_and_left _ _).mpr ⟨hspotless, hitems⟩) fun item item' hitem =>
            meetPair hitem.2 hitem.1) fun _ _ hentries => ?_
          exact pure (Marking.contentsAgree_pairs hentries)
        cases tag with
        | seq =>
            exact bind (forM hitems fun _ _ => meet) fun _ _ _ => pure (Marking.contentsAgree_items hsame)
        | omap => exact hpairs
        | pairs => exact hpairs
        | _ => exact throw _ _
    | @mapping tag entries entries' _ =>
        cases tag with
        | map =>
            exact bind (meetEntries id) fun _ _ hmet => pure (Marking.contentsAgree_fields hmet)
        | set =>
            exact bind (meetEntries id) fun _ _ hmet => pure (Marking.contentsAgree_members hmet)
        | _ => exact throw _ _

theorem build (id : Nat) : Lockstep M.Pairs Eq (Building.build id) (Building.build id) :=
  bind (contentsOf id) fun _ _ hcontents =>
    modify fun _ _ hc => { hc with contents := .cons ⟨rfl, hcontents⟩ hc.contents }

theorem buildAll (bound : Nat) : Lockstep M.Pairs Eq (Building.buildAll bound) (Building.buildAll bound) := by
  induction bound with
  | zero => exact pure rfl
  | succ bound ih =>
      refine Coupled.get_bind fun c c' hc => ?_
      have hwaiting := hc.waiting
      cases hfirst : c.waiting with
      | nil =>
          rw [hfirst] at hwaiting
          rw [List.forall₂_nil_left_iff.mp hwaiting]
          exact .pure_at ⟨rfl, hc⟩
      | cons item waiting =>
          rw [hfirst] at hwaiting
          obtain ⟨item', waiting', htwins, hmore, hfirst'⟩ := List.forall₂_cons_left_iff.mp hwaiting
          rw [hfirst']
          cases item with
          | leaf s => exact fun _ _ _ => trivial
          | equals number text => exact fun _ _ _ => trivial
          | node id =>
              cases htwins with
              | scalar _ hloose => exact hloose.elim
              | fixed _ =>
                  refine Coupled.bind (Q := fun _ _ => M.Pairs) ?_ fun _ _ =>
                    Coupled.mono (bindEq (build id) fun _ => ih) (fun _ _ h => h) fun _ _ _ _ h => h
                  rintro _ _ ⟨rfl, rfl⟩
                  exact { hc with waiting := hmore }

end Lockstep

/-- The values of twin documents are built side by side. -/
theorem Document.endsAlike_construct {M : Marking} {a a' : Document} (h : M.Agree a a') :
    EndsAlike M.Pairs a.construct a'.construct := by
  have hrun : Lockstep M.Pairs Eq
      (do Building.meet a.root; Building.buildAll (a.collections.length + 1))
      (do Building.meet a'.root; Building.buildAll (a'.collections.length + 1)) := by
    rw [h.twins.collections.length_eq]
    exact Lockstep.bind (Lockstep.meet h.twins.root) fun _ _ _ => Lockstep.buildAll _
  refine EndsAlike.bind (hrun { document := a } { document := a' } ⟨h, .nil, .nil, .nil, rfl⟩) ?_
  exact fun r r' hr => hr.2

end ImageTrust.Yaml
