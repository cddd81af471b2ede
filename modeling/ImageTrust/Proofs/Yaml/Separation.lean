import ImageTrust.Proofs.Yaml.Sharing

/-! # A mark below one field

If the mark shows in the values of one field only, the data of documents that differ only where it shows
agree about all other fields.
-/

namespace ImageTrust.Yaml

open Document (Zone)

variable {mark : Char} {changed : Nat → Prop} {field name : String}

namespace Marking

variable {M : Marking} {c c' : Construction}

/-! ## Data without the mark -/

theorem Pairs.scalar?_eq (h : M.Pairs c c') {item : Item} (hitem : M.Spotless item) :
    c'.scalar? item = c.scalar? item := by
  cases item with
  | leaf s => rfl
  | equals number text => rfl
  | node id =>
      rw [Construction.scalar?, Construction.scalar?]
      rcases lookup_of_forall₂_key h.scalars id with ⟨hnone, hnone'⟩ | ⟨value, value', hsome, hsome', hvalues⟩
      · rw [hnone, hnone']
      · rw [hsome, hsome', hvalues.same hitem]

theorem Pairs.sameKey_eq (h : M.Pairs c c') {a b : Item} (ha : M.Spotless a) (hb : M.Spotless b) :
    c'.sameKey a b = c.sameKey a b := by
  rw [Construction.sameKey, Construction.sameKey, h.scalar?_eq ha, h.scalar?_eq hb]

theorem Pairs.distinctKeys_eq (h : M.Pairs c c') {keys : List Item} (hkeys : ∀ key ∈ keys, M.Spotless key) :
    c'.distinctKeys keys = c.distinctKeys keys ∧ ∀ key ∈ c.distinctKeys keys, M.Spotless key := by
  have hfold : ∀ kept : List Item, (∀ key ∈ kept, M.Spotless key) →
      keys.foldl (fun kept key => if kept.any (c'.sameKey key) then kept else kept ++ [key]) kept =
          keys.foldl (fun kept key => if kept.any (c.sameKey key) then kept else kept ++ [key]) kept ∧
        ∀ key ∈ keys.foldl (fun kept key => if kept.any (c.sameKey key) then kept else kept ++ [key]) kept,
          M.Spotless key := by
    induction keys with
    | nil => exact fun kept hkept => ⟨rfl, hkept⟩
    | cons key keys ih =>
        intro kept hkept
        have hkey := hkeys key List.mem_cons_self
        have hany : kept.any (c'.sameKey key) = kept.any (c.sameKey key) := by
          rw [Bool.eq_iff_iff, List.any_eq_true, List.any_eq_true]
          exact exists_congr fun other => and_congr_right fun hother => by
            rw [h.sameKey_eq hkey (hkept other hother)]
        rw [List.foldl_cons, List.foldl_cons, hany]
        refine ih (fun other hother => hkeys other (List.mem_cons_of_mem _ hother)) _ ?_
        split
        · exact hkept
        · exact List.forall_mem_append.mpr ⟨hkept, by simpa using hkey⟩
  exact hfold [] (List.forall_mem_nil _)

theorem Pairs.datum_eq (h : M.Pairs c c') {item : Item} (hitem : M.Spotless item) (depth : Nat) :
    c'.datum depth item = c.datum depth item := by
  induction depth generalizing item with
  | zero =>
      unfold Construction.datum
      rw [h.scalar?_eq hitem]
  | succ depth ih =>
      unfold Construction.datum
      rw [h.scalar?_eq hitem]
      cases c.scalar? item with
      | some value => rfl
      | none =>
          cases item with
          | leaf s => rfl
          | equals number text => rfl
          | node id =>
              dsimp only
              rcases lookup_of_forall₂_key h.contents id with
                ⟨hnone, hnone'⟩ | ⟨contents, contents', hsome, hsome', hcontents⟩
              · rw [hnone, hnone']
              · obtain ⟨heq, hplaces⟩ := hcontents.same hitem
                rw [hsome, hsome', heq]
                cases contents with
                | items items =>
                    exact congrArg Datum.list (List.map_congr_left fun i hi => ih (hplaces i hi))
                | pairs entries =>
                    refine congrArg Datum.list (List.map_congr_left fun entry hentry => ?_)
                    have hentry := List.forall_mem_flatMap.mp hplaces entry hentry
                    rw [ih (hentry _ (by simp)), ih (hentry _ (by simp))]
                | fields entries =>
                    refine congrArg Datum.record (List.filterMap_congr fun entry hentry => ?_)
                    have hentry := List.forall_mem_flatMap.mp hplaces entry hentry
                    rw [h.scalar?_eq (hentry _ (by simp)), ih (hentry _ (by simp))]
                | members keys =>
                    have hkeys : ∀ key ∈ keys, M.Spotless key := hplaces
                    have hdistinct := h.distinctKeys_eq hkeys
                    refine congrArg Datum.list ?_
                    rw [hdistinct.1]
                    exact List.map_congr_left fun key hkey => ih (hdistinct.2 key hkey)

end Marking

/-! ## A mark below one field -/

namespace Document

variable {d d' d'' : Document}

/-- The root, if it is a mapping, and the mappings that are merged into it. -/
inductive Merged (d : Document) : Nat → Prop
  | root {id : Nat} (h : d.root = .node id) : Merged d id
  | brought {id other : Nat} {tag : Tag} {entries : List (Item × Item)} {entry : Item × Item}
      (hid : Merged d id) (hmapping : d.collection? id = some (.mapping tag entries))
      (hentry : entry ∈ entries) (htag : d.tagOf entry.1 = .merge) (hother : d.Brings entry.2 other) :
      Merged d other

/-- A key that is the name of a field. -/
def IsNamed (field : String) (key : Item) : Prop :=
  key.text? = some field

/-- The mark shows in the values of one field only, whether the root has that field itself or by a
merge. -/
def OnlyBelow (d : Document) (mark : Char) (field : String) : Prop :=
  ∀ id tag entries, d.Merged id → d.collection? id = some (.mapping tag entries) →
    ∀ entry ∈ entries, d.Clean mark entry.1 ∧
      (d.tagOf entry.1 = .merge ∨ IsNamed field entry.1 ∨ d.Clean mark entry.2)

/-- The root and what is merged into it, where the mark may show below one field. -/
def fieldZone (d : Document) (field : String) : Zone where
  among := d.Merged
  exempt := IsNamed field

theorem OnlyBelow.confines (h : d.OnlyBelow mark field) : d.Confines mark (d.fieldZone field) := by
  intro id tag entries hid hmapping entry hentry
  obtain ⟨hkey, hvalue⟩ := h _ _ _ hid hmapping entry hentry
  exact ⟨hkey, hvalue.resolve_left, fun htag _ hother => .brought hid hmapping hentry htag hother⟩

/-- A mapping that nothing is merged into has all its fields itself. -/
theorem OnlyBelow.of_root {id : Nat} {tag : Tag} {entries : List (Item × Item)} (hroot : d.root = .node id)
    (hid : d.collection? id = some (.mapping tag entries))
    (hentries : ∀ entry ∈ entries, d.Clean mark entry.1 ∧ d.tagOf entry.1 ≠ .merge ∧
      (IsNamed field entry.1 ∨ d.Clean mark entry.2)) : d.OnlyBelow mark field := by
  have hmerged : ∀ other, d.Merged other → other = id := by
    intro other hother
    induction hother with
    | root h => exact Item.node.inj (h.symm.trans hroot)
    | brought _ hmapping hentry htag _ ih =>
        subst ih
        cases hid.symm.trans hmapping
        exact absurd htag (hentries _ hentry).2.1
  intro other tag entries hother hmapping entry hentry
  cases hmerged other hother
  cases hid.symm.trans hmapping
  exact ⟨(hentries entry hentry).1, .inr (hentries entry hentry).2.2⟩

/-! ## Documents with a common origin -/

/-- No key of a document as it was written has become an ordinary text. -/
theorem ordinary_eq_nil_of_read? {text : String} (h : Document.read? text = .ok (some d)) :
    d.ordinary = [] := by
  rw [read?, ofTokens?] at h
  cases hrun : (Grammar.single (4 * (tokens text.toList).length + 4)).run
      ⟨tokens text.toList, Grammar.defaultHandles, [], [], 0⟩ with
  | error fault =>
      rw [hrun] at h
      cases h
  | ok r =>
      rw [hrun] at h
      obtain ⟨item, -, rfl⟩ := Option.map_eq_some_iff.mp (Except.ok.inj h)
      rfl

/-- A document that differs from one as it was written only where the mark shows. -/
theorem Alike.stems {M : Marking} (h : M.document.Alike (Item.Shows M.mark) M.changed d') : M.Stems d' where
  sequences id tag items hid := by
    rcases lookup_of_forall₂ h.collections id with ⟨-, hnone⟩ | ⟨collection, collection', hsome, hsome', halike⟩
    · cases hid.symm.trans hnone
    · cases hid.symm.trans hsome'
      cases halike with
      | sequence hitems => exact ⟨_, hsome, hitems⟩
  tags id := by
    rcases lookup_of_forall₂ h.collections id with ⟨hnone, hnone'⟩ | ⟨collection, collection', hsome, hsome', halike⟩
    · rw [collection?, collection?, hnone, hnone']
    · rw [collection?, collection?, hsome, hsome']
      cases halike <;> rfl
  ordinary id hid := by
    have hwritten := (h.ordinary (.node id) not_false).mpr hid
    rw [M.written] at hwritten
    cases hwritten

theorem Alike.agree {M : Marking} (h : M.document.Alike (Item.Shows M.mark) M.changed d')
    (h' : M.document.Alike (Item.Shows M.mark) M.changed d'') : M.Agree d' d'' where
  stems := h.stems
  stems' := h'.stems
  twins := h.twins h'
  tracks id tag entries entries' hid hid' := by
    rcases lookup_of_forall₂ h.collections id with ⟨-, hnone⟩ | ⟨origin, collection, horigin, hsome, halike⟩
    · cases hid.symm.trans hnone
    cases hid.symm.trans hsome
    rcases lookup_of_forall₂ h'.collections id with ⟨-, hnone⟩ | ⟨origin', collection', horigin', hsome', halike'⟩
    · cases hid'.symm.trans hnone
    cases hid'.symm.trans hsome'
    cases horigin.symm.trans horigin'
    cases halike with
    | @mapping _ written _ hentries =>
        cases halike' with
        | mapping hentries' =>
            have hconfined : ∀ entry ∈ written, ∀ zone, M.ZoneOf id zone →
                M.document.Confined M.mark zone entry :=
              fun entry hentry zone hzone => hzone.1 id _ _ hzone.2 horigin entry hentry
            refine forall₂_of_common (fun entry _ _ hentry hentry' => ?_)
              ((List.forall₂_and_left _ _).mpr ⟨hconfined, hentries⟩)
              ((List.forall₂_and_left _ _).mpr ⟨hconfined, hentries'⟩)
            exact Marking.tracks_of_alike hentry.2 hentry'.2 hentry.1

end Document

/-! ## Fields -/

/-- Whether two fields have one name and, unless it is a given one, one value. -/
def SameOutside (field : String) (f f' : String × Datum) : Prop :=
  f.1 = f'.1 ∧ (f.1 ≠ field → f.2 = f'.2)

theorem lookup_eq_of_sameOutside {fields fields' : List (String × Datum)}
    (h : List.Forall₂ (SameOutside field) fields fields') (hname : name ≠ field) :
    fields'.lookup name = fields.lookup name := by
  induction h with
  | nil => rfl
  | @cons f f' _ _ hf _ ih =>
      obtain ⟨key, value⟩ := f
      obtain ⟨key', value'⟩ := f'
      obtain ⟨rfl, hvalue⟩ := hf
      rw [List.lookup_cons, List.lookup_cons, ih]
      cases hkey : name == key with
      | false => rfl
      | true => exact congrArg some (hvalue (beq_iff_eq.mp hkey ▸ hname)).symm

/-- A key that is the name of a field stands for no other text. -/
theorem eq_of_isNamed {c : Construction} {key : Item} (h : Document.IsNamed field key)
    (hscalar : c.scalar? key = some (.text name)) : name = field := by
  cases key with
  | leaf s =>
      have htext : s.text = field := Option.some.inj h
      rw [Construction.scalar?] at hscalar
      cases hread : s.read with
      | error fault =>
          rw [hread] at hscalar
          cases hscalar
      | ok value =>
          rw [hread] at hscalar
          rw [← (read_eq_ok hread).2 name (Option.some.inj hscalar), htext]
  | equals number text =>
      cases h
      cases hscalar
      rfl
  | node id => cases h

namespace Marking

variable {M : Marking} {c c' : Construction}

theorem Pairs.fieldOf (h : M.Pairs c c') {zone : Zone} (hexempt : ∀ key, zone.exempt key →
    Document.IsNamed field key) {entry entry' : Item × Item} (hentry : M.Kept zone entry entry') (depth : Nat) :
    Option.Rel (SameOutside field) (c.fieldOf depth entry) (c'.fieldOf depth entry') := by
  obtain ⟨⟨hkey, hsame⟩, hvalue⟩ := hentry
  rw [Construction.fieldOf, Construction.fieldOf, hsame, h.scalar?_eq hkey]
  split
  · next text htext =>
      refine .some ⟨rfl, fun hname => ?_⟩
      have hvalue := hvalue.resolve_left fun hnamed => hname (eq_of_isNamed (hexempt _ hnamed) htext)
      dsimp only
      rw [hvalue.2, h.datum_eq hvalue.1]
  · exact .none

/-- A collection that is built as a record has the fields of its entries. -/
theorem recordFields_datum_node (c : Construction) (depth id : Nat)
    (hplain : ∀ value, c.scalars.lookup id = some value → recordFields value = []) :
    recordFields (c.datum (depth + 1) (.node id)) = if (c.scalars.lookup id).isSome then [] else
      ((c.contents.lookup id).elim [] Contents.recordEntries).filterMap (c.fieldOf depth) := by
  unfold Construction.datum
  rw [Construction.scalar?]
  cases hscalar : c.scalars.lookup id with
  | some value => simpa using hplain value hscalar
  | none =>
      dsimp only
      cases c.contents.lookup id with
      | none => rfl
      | some contents => cases contents <;> rfl

/-- The records of a mapping in a zone agree about all fields but those with exempt keys. -/
theorem Pairs.recordFields_node (h : M.Pairs c c') {zone : Zone} (hexempt : ∀ key, zone.exempt key →
    Document.IsNamed field key) {id : Nat} (hid : M.ZoneOf id zone) (depth : Nat) :
    List.Forall₂ (SameOutside field) (recordFields (c.datum (depth + 1) (.node id)))
      (recordFields (c'.datum (depth + 1) (.node id))) := by
  have hcontents : List.Forall₂ (SameOutside field)
      (((c.contents.lookup id).elim [] Contents.recordEntries).filterMap (c.fieldOf depth))
      (((c'.contents.lookup id).elim [] Contents.recordEntries).filterMap (c'.fieldOf depth)) := by
    rcases lookup_of_forall₂_key h.contents id with ⟨hnone, hnone'⟩ | ⟨contents, contents', hsome, hsome', hagree⟩
    · rw [hnone, hnone']
      exact .nil
    · rw [hsome, hsome']
      have hkept : List.Forall₂ (M.Kept zone) contents.recordEntries contents'.recordEntries :=
        hagree.kept zone hid
      refine List.rel_filterMap ?_ hkept
      exact fun _ _ hentry => h.fieldOf hexempt hentry depth
  rcases lookup_of_forall₂_key h.scalars id with ⟨hnone, hnone'⟩ | ⟨value, value', hsome, hsome', hagree⟩
  · rw [recordFields_datum_node c depth id (by simp [hnone]),
      recordFields_datum_node c' depth id (by simp [hnone']), hnone, hnone']
    exact hcontents
  · rw [recordFields_datum_node c depth id (by simp [hsome, hagree.plain]),
      recordFields_datum_node c' depth id (by simp [hsome', hagree.plain']), hsome, hsome']
    exact .nil

end Marking

theorem recordFields_datum_scalar (c : Construction) (depth : Nat) {item : Item}
    (h : ∀ id, item ≠ .node id) : recordFields (c.datum depth item) = [] := by
  cases item with
  | node id => exact absurd rfl (h id)
  | equals number text =>
      unfold Construction.datum
      rfl
  | leaf s =>
      unfold Construction.datum
      rw [Construction.scalar?]
      cases hread : s.read with
      | error fault => cases depth <;> rfl
      | ok value => exact (read_eq_ok hread).1

theorem Item.Alike.eq_node {shows : Item → Prop} {item : Item} {id : Nat}
    (h : (Item.node id).Alike shows changed item) : item = .node id := by
  cases h with
  | fixed => rfl
  | scalar _ hloose => exact hloose.elim

theorem Item.Alike.ne_node {shows : Item → Prop} {item item' : Item} (h : item.Alike shows changed item')
    (hnode : ∀ id, item ≠ .node id) (id : Nat) : item' ≠ .node id := by
  rintro rfl
  cases h with
  | fixed => exact hnode id rfl
  | scalar _ _ hloose' => exact hloose'

/-! ## Public theorem -/

/-- Documents that differ only where a mark shows below one field have the same value in every other
field. -/
theorem Document.field?_eq_of_onlyBelow {d d' d'' : Document} {c c' : Construction} (hwritten : d.ordinary = [])
    (h : d.Alike (Item.Shows mark) changed d') (h' : d.Alike (Item.Shows mark) changed d'')
    (honly : d.OnlyBelow mark field) (hc : d'.construct = .ok c) (hc' : d''.construct = .ok c')
    (hname : name ≠ field) (depth : Nat) :
    Datum.field? (recordFields (c'.datum (depth + 1) d''.root)) name =
      Datum.field? (recordFields (c.datum (depth + 1) d'.root)) name := by
  let M : Marking := ⟨d, mark, changed, hwritten⟩
  have hd : M.document.Alike (Item.Shows M.mark) M.changed d' := h
  have hpairs : M.Pairs c c' := by
    have hends := Document.endsAlike_construct (hd.agree h')
    rwa [hc, hc'] at hends
  have hfields : List.Forall₂ (SameOutside field) (recordFields (c.datum (depth + 1) d'.root))
      (recordFields (c'.datum (depth + 1) d''.root)) := by
    have hroot := h.root
    have hroot' := h'.root
    cases hitem : d.root with
    | node id =>
        rw [hitem] at hroot hroot'
        have hzone : M.ZoneOf id (d.fieldZone field) := ⟨honly.confines, .root hitem⟩
        rw [hroot.eq_node, hroot'.eq_node]
        exact hpairs.recordFields_node (fun _ hkey => hkey) hzone depth
    | _ =>
        rw [hitem] at hroot hroot'
        rw [recordFields_datum_scalar c _ (hroot.ne_node nofun),
          recordFields_datum_scalar c' _ (hroot'.ne_node nofun)]
        exact .nil
  exact lookup_eq_of_sameOutside (List.forall₂_reverse_iff.mpr hfields) hname

end ImageTrust.Yaml
