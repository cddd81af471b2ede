import ImageTrust.Proofs.Yaml.FlowDocument

/-! # The value of a mapping in braces

Nothing is merged into a mapping whose keys are texts. Its values are built without a fault, and the data of
a text that holds such a mapping is the record of its entries.
-/

namespace ImageTrust.Yaml

/-- The field that an entry of a mapping stands for, if its key is a text. -/
def Construction.fieldOf (c : Construction) (depth : Nat) (entry : Item × Item) : Option (String × Datum) :=
  match c.scalar? entry.1 with
  | some (.text name) => some (name, c.datum depth entry.2)
  | _ => none

namespace Document

variable {d : Document} {item : Item} {v : FlowValue} {items : List (Item × Item)}
variable {entries : List (String × FlowValue)}

/-- A list of texts. -/
def IsTextList (d : Document) (item : Item) : Prop :=
  ∃ (id : Nat) (texts : List String), item = .node id ∧
    d.collection? id = some (.sequence .seq (texts.map textItem))

/-- What a collection holds if nothing is merged into it. -/
def shown? (d : Document) (id : Nat) : Option Contents :=
  match d.collection? id with
  | some (.sequence .seq items) => some (.items items)
  | some (.mapping .map entries) => some (.fields entries)
  | _ => none

/-! ## Merging -/

section Merging

variable {id : Nat} {flatten : Nat → Merging Unit}

theorem run_entriesOf {tag : Tag} (hid : d.collection? id = some (.mapping tag items)) :
    (Merging.entriesOf id).run d = .ok (items, d) := by
  have hmapping : (Merging.mapping id).run d = .ok ((tag, items), d) := by
    rw [Merging.mapping, run_bind_of_ok (rfl : (get : Merging Document).run d = .ok (d, d)), hid]
    rfl
  exact run_bind_of_ok hmapping fun found => (return found.2 : Merging Merging.Entries)

/-- Keys that are texts bring in nothing. -/
theorem run_gather {tag : Tag} (hid : d.collection? id = some (.mapping tag items))
    (hkeys : ∀ entry ∈ items, d.tagOf entry.1 = .str) (steps index : Nat) :
    (Merging.gather flatten id steps index).run d = .ok ([], d) := by
  induction steps generalizing index with
  | zero => rfl
  | succ steps ih =>
      rw [Merging.gather, run_bind_of_ok (run_entriesOf hid)]
      cases hentry : items[index]? with
      | none => rfl
      | some entry =>
          have htag := hkeys entry (List.mem_of_getElem? hentry)
          have hget : (get : Merging Document).run d = .ok (d, d) := rfl
          have hsettle : (modify (·.settle entry.1) : Merging Unit).run d = .ok ((), d) := by
            change Except.ok ((), d.settle entry.1) = _
            rw [settle, htag, if_neg (by decide)]
          dsimp only
          rw [run_bind_of_ok hget, htag, if_neg (by decide), run_bind_of_ok hsettle]
          exact ih (index + 1)

theorem run_flatten {tag : Tag} (hid : d.collection? id = some (.mapping tag items))
    (hkeys : ∀ entry ∈ items, d.tagOf entry.1 = .str) (depth : Nat) :
    (Merging.flatten (depth + 1) id).run d = .ok ((), d) := by
  rw [Merging.flatten, run_bind_of_ok (run_entriesOf hid), run_bind_of_ok (run_gather hid hkeys _ _)]
  rfl

end Merging

/-! ## Building -/

/-- What is known of values while they are built, if nothing is merged and only lists of texts wait, at
most `count` of them. All places of `seen` have been come to, and the collection `busy` is being built. -/
structure Collects (d : Document) (busy : Option Nat) (seen : List Item) (count : Nat)
    (c : Construction) : Prop where
  document : c.document = d
  scalars : c.scalars = []
  waiting : ∀ item ∈ c.waiting, d.IsTextList item
  length : c.waiting.length ≤ count
  seen : ∀ id, .node id ∈ seen → id ∈ c.met
  met : ∀ id, id ∈ c.met → .node id ∈ c.waiting ∨ busy = some id ∨ (c.contents.lookup id).isSome
  contents : ∀ id contents, c.contents.lookup id = some contents → d.shown? id = some contents

variable {busy : Option Nat} {seen seen' : List Item} {count count' : Nat} {c : Construction}

theorem Collects.mono (h : d.Collects busy seen count c) (hseen : ∀ id, .node id ∈ seen' → .node id ∈ seen)
    (hcount : count ≤ count') : d.Collects busy seen' count' c :=
  { h with
    length := h.length.trans hcount
    seen := fun id hid => h.seen id (hseen id hid) }

/-- Steps of building that find no fault. -/
abbrev Collecting {α : Type} (P : Construction → Prop) (step : Building α) (Q : α → Construction → Prop) :
    Prop :=
  Triple P step Q fun _ => False

/-- A scalar is built where it is come to. -/
theorem collecting_meet_leaf {s : Scalar} {value : Datum} (htag : s.tag.isCollection = false)
    (hread : s.read = .ok value) :
    Collecting (d.Collects busy seen count) (Building.meet (.leaf s))
      fun _ => d.Collects busy (.leaf s :: seen) count := by
  refine .get_bind fun c hc => ?_
  have hcollection : (c.document.tagOf (.leaf s)).isCollection = false := htag
  have hscalar : c.document.readScalar (.leaf s) = .ok value := hread
  rw [hcollection, hscalar]
  exact .pure_at (hc.mono (by simp) (Nat.le_refl count))

theorem collecting_meet_textItem (text : String) :
    Collecting (d.Collects busy seen count) (Building.meet (textItem text))
      fun _ => d.Collects busy (textItem text :: seen) count :=
  collecting_meet_leaf rfl rfl

/-- A list waits, unless it has been come to before. -/
theorem collecting_meet_node (hordinary : d.ordinary = []) {id : Nat} {texts : List String}
    (hid : d.collection? id = some (.sequence .seq (texts.map textItem))) :
    Collecting (d.Collects busy seen count) (Building.meet (.node id))
      fun _ => d.Collects busy (.node id :: seen) (count + 1) := by
  refine .get_bind fun c hc => ?_
  have hcollection : (c.document.tagOf (.node id)).isCollection = true := by
    rw [hc.document, tagOf, hordinary, hid]
    rfl
  have hlist : d.IsTextList (.node id) := ⟨id, texts, rfl, hid⟩
  dsimp only
  rw [if_pos hcollection]
  by_cases hmet : id ∈ c.met
  · rw [if_pos (List.contains_iff_mem.mpr hmet)]
    refine .pure_at { hc with length := hc.length.trans (Nat.le_succ count), seen := fun other hother => ?_ }
    rcases List.mem_cons.mp hother with hother | hother
    · cases hother
      exact hmet
    · exact hc.seen other hother
  · rw [if_neg (by simpa using hmet)]
    refine .set ⟨hc.document, hc.scalars, ?_, ?_, fun other hother => ?_, fun other hother => ?_, hc.contents⟩
    · exact List.forall_mem_append.mpr ⟨hc.waiting, List.forall_mem_singleton.mpr hlist⟩
    · simpa using hc.length
    · rcases List.mem_cons.mp hother with hother | hother
      · cases hother
        exact List.mem_cons_self
      · exact List.mem_cons_of_mem _ (hc.seen other hother)
    · rcases List.mem_cons.mp hother with rfl | hother
      · exact .inl (List.mem_append_right _ List.mem_cons_self)
      · exact (hc.met other hother).imp_left (List.mem_append_left _)

theorem collecting_meet (hordinary : d.ordinary = []) (h : Stands d.collections item v) (first : Nat) :
    Collecting (d.Collects busy seen count) (Building.meet item)
      fun _ => d.Collects busy (item :: seen) (count + (v.collections first).length) := by
  cases v with
  | null =>
      obtain rfl := h
      exact collecting_meet_leaf rfl rfl
  | text t =>
      obtain rfl := h
      exact collecting_meet_textItem t
  | list texts =>
      obtain ⟨id, rfl, hid⟩ := h
      exact collecting_meet_node hordinary hid

theorem collecting_meetEntry (hordinary : d.ordinary = []) {places : Item × Item} {e : String × FlowValue}
    (h : StandsEntry d.collections places e) (first : Nat) :
    Collecting (d.Collects busy seen count) (Building.meetEntry places)
      fun _ => d.Collects busy (places.2 :: seen) (count + (e.2.collections first).length) := by
  obtain ⟨key, value⟩ := places
  obtain ⟨rfl, hvalue⟩ := h
  refine Triple.bind (collecting_meet_textItem e.1) fun _ => .get_bind fun c hc => ?_
  have htag : (c.document.tagOf (textItem e.1)).isCollection = false := rfl
  dsimp only
  rw [htag]
  refine (collecting_meet hordinary hvalue first).at_state (hc.mono (fun id hid => ?_) (Nat.le_refl count))
  exact List.mem_cons_of_mem _ hid

theorem collecting_forM (hordinary : d.ordinary = [])
    (h : List.Forall₂ (StandsEntry d.collections) items entries) (first : Nat) :
    Collecting (d.Collects busy seen count) (items.forM Building.meetEntry)
      fun _ => d.Collects busy (items.map Prod.snd ++ seen) (count + (flowCollections first entries).length) := by
  induction h generalizing seen count first with
  | nil => exact .pure fun c hc => hc
  | @cons places e items entries hentry _ ih =>
      refine Triple.bind (collecting_meetEntry hordinary hentry first) fun _ => ?_
      refine (ih (first + (e.2.collections first).length)).imp fun _ c hc => hc.mono (fun id hid => ?_) ?_
      · simp only [List.map_cons, List.cons_append, List.mem_cons, List.mem_append] at hid ⊢
        tauto
      · rw [flowCollections, List.length_append]
        omega

/-- A collection is built once its places have been come to. -/
theorem Collects.built {id : Nat} {contents : Contents} (h : d.Collects (some id) seen count c)
    (hid : d.shown? id = some contents) :
    d.Collects none seen count { c with contents := (id, contents) :: c.contents } where
  document := h.document
  scalars := h.scalars
  waiting := h.waiting
  length := h.length
  seen := h.seen
  met := fun other hother => by
    rw [List.lookup_cons]
    by_cases hsame : other = id
    · simp [hsame]
    · simpa [beq_eq_false_iff_ne.mpr hsame, Ne.symm hsame] using h.met other hother
  contents := fun other found hfound => by
    rw [List.lookup_cons] at hfound
    by_cases hsame : other = id
    · subst hsame
      simpa [hid] using hfound
    · rw [beq_eq_false_iff_ne.mpr hsame] at hfound
      exact h.contents other found hfound

theorem collecting_build_list {id : Nat} {texts : List String}
    (hid : d.collection? id = some (.sequence .seq (texts.map textItem))) :
    Collecting (d.Collects (some id) seen count) (Building.build id)
      fun _ => d.Collects none seen count := by
  have hshown : d.shown? id = some (.items (texts.map textItem)) := by
    rw [shown?, hid]
  have hcontents : Collecting (d.Collects (some id) seen count) (Building.contentsOf id)
      fun contents c => contents = .items (texts.map textItem) ∧ d.Collects (some id) seen count c := by
    refine .get_bind fun c hc => ?_
    rw [hc.document, hid]
    refine Triple.bind (Triple.at_state (.forM fun item hitem => ?_) hc) fun _ => .pure fun c hc => ⟨rfl, hc⟩
    obtain ⟨text, -, rfl⟩ := List.mem_map.mp hitem
    refine (collecting_meet_textItem text).imp fun _ c hc => ?_
    exact hc.mono (fun other => List.mem_cons_of_mem _) (Nat.le_refl count)
  refine Triple.bind hcontents fun contents => .assume fun hsame => .modify fun c hc => ?_
  subst hsame
  exact hc.built hshown

/-- The collection that has waited longest is built next. -/
theorem Collects.next {id : Nat} {waiting : List Item} (h : d.Collects none seen (count + 1) c)
    (hwaiting : c.waiting = .node id :: waiting) : d.Collects (some id) seen count { c with waiting } where
  document := h.document
  scalars := h.scalars
  waiting := fun item hitem => h.waiting item (hwaiting ▸ List.mem_cons_of_mem _ hitem)
  length := by
    have hlength := h.length
    rw [hwaiting, List.length_cons] at hlength
    exact Nat.le_of_succ_le_succ hlength
  seen := h.seen
  met := fun other hother => by
    rcases h.met other hother with hwaits | hbusy | hbuilt
    · rw [hwaiting, List.mem_cons, Item.node.injEq] at hwaits
      rcases hwaits with hnext | hwaits
      · exact .inr (.inl (congrArg some hnext.symm))
      · exact .inl hwaits
    · cases hbusy
    · exact .inr (.inr hbuilt)
  contents := h.contents

/-- The lists that wait are built within as many steps. -/
theorem collecting_buildAll (count : Nat) :
    Collecting (d.Collects none seen count) (Building.buildAll count)
      fun _ => d.Collects none seen 0 := by
  induction count with
  | zero => exact .pure fun c hc => hc
  | succ count ih =>
      refine .get_bind fun c hc => ?_
      split
      · next hnone => exact .pure_at { hc with length := by rw [hnone]; exact Nat.le_refl 0 }
      · next id waiting hwaiting =>
          obtain ⟨other, texts, hsame, hid⟩ := hc.waiting _ (by rw [hwaiting]; exact List.mem_cons_self)
          cases hsame
          refine Triple.bind (Q := fun _ => d.Collects (some id) seen count) (.modify ?_) fun _ => ?_
          · rintro _ rfl
            exact hc.next hwaiting
          · exact Triple.bind (collecting_build_list hid) fun _ => ih
      · next item waiting hnot hwaiting =>
          obtain ⟨id, texts, rfl, hid⟩ := hc.waiting item (by rw [hwaiting]; exact List.mem_cons_self)
          exact absurd rfl (hnot id)

theorem run_onDocument {α : Type} {step : Merging α} {a : α} {document : Document}
    (h : step.run c.document = .ok (a, document)) :
    (Building.onDocument step).run c = .ok (a, { c with document }) := by
  have hget : (get : Building Construction).run c = .ok (c, c) := rfl
  have hstep : (liftM (step.run c.document) : Building (α × Document)).run c =
      .ok ((a, document), c) := by
    rw [h]
    rfl
  rw [Building.onDocument, run_bind_of_ok hget, run_bind_of_ok hstep]
  rfl

theorem tagOf_key (h : List.Forall₂ (StandsEntry d.collections) items entries) :
    ∀ entry ∈ items, d.tagOf entry.1 = .str := by
  induction h with
  | nil => exact List.forall_mem_nil _
  | cons hentry _ ih => exact List.forall_mem_cons.mpr ⟨by rw [hentry.1]; rfl, ih⟩

/-- The entries of a mapping stay as they are if nothing is merged into it. -/
theorem collecting_meetEntries (hordinary : d.ordinary = []) {id : Nat}
    (hid : d.collection? id = some (.mapping .map items))
    (h : List.Forall₂ (StandsEntry d.collections) items entries) (first : Nat) :
    Collecting (d.Collects busy seen count) (Building.meetEntries id) fun met c => met = items ∧
      d.Collects busy (items.map Prod.snd ++ seen) (count + (flowCollections first entries).length) c := by
  have hmerge : (do Merging.flatten ((← get).size + 1) id; Merging.entriesOf id : Merging _).run d =
      .ok (items, d) := by
    have hget : (get : Merging Document).run d = .ok (d, d) := rfl
    rw [run_bind_of_ok hget, run_bind_of_ok (run_flatten hid (tagOf_key h) _), run_entriesOf hid]
  refine .of_forall fun c hc => ?_
  have hrun : (Building.onDocument do Merging.flatten ((← get).size + 1) id; Merging.entriesOf id).run c =
      .ok (items, c) := by
    have hdocument := hc.document
    subst hdocument
    exact run_onDocument hmerge
  refine Triple.bind (Triple.of_run (Q := fun met c => met = items ∧ d.Collects busy seen count c)
    hrun ⟨rfl, hc⟩) fun met => .assume fun hmet => ?_
  subst hmet
  exact Triple.bind (collecting_forM hordinary h first) fun _ => .pure fun c hc => ⟨rfl, hc⟩

theorem collecting_build_mapping (hordinary : d.ordinary = []) {id : Nat}
    (hid : d.collection? id = some (.mapping .map items))
    (h : List.Forall₂ (StandsEntry d.collections) items entries) (first : Nat) :
    Collecting (d.Collects (some id) seen count) (Building.build id)
      fun _ => d.Collects none (items.map Prod.snd ++ seen) (count + (flowCollections first entries).length) := by
  have hshown : d.shown? id = some (.fields items) := by
    rw [shown?, hid]
  have hcontents : Collecting (d.Collects (some id) seen count) (Building.contentsOf id) fun contents c =>
      contents = .fields items ∧ d.Collects (some id) (items.map Prod.snd ++ seen)
        (count + (flowCollections first entries).length) c := by
    refine .get_bind fun c hc => ?_
    rw [hc.document, hid]
    have hentries := (collecting_meetEntries hordinary hid h first).at_state hc
    refine Triple.bind hentries fun met => .assume fun hmet => .pure fun c hc => ?_
    exact ⟨congrArg _ hmet, hc⟩
  refine Triple.bind hcontents fun contents => .assume fun hsame => .modify fun c hc => ?_
  subst hsame
  exact hc.built hshown

end Document

section Whole

variable (entries : List (String × FlowValue))

theorem stands_flowDocument :
    List.Forall₂ (StandsEntry (flowDocument entries).collections) (flowItems 1 entries) entries := by
  have h := forall₂_standsEntry (Nat.le_refl 1) (.mapping .map (flowItems 1 entries)) entries []
  rwa [List.append_nil] at h

theorem exists_construct_flowDocument :
    ∃ c, (flowDocument entries).construct = .ok c ∧
      (flowDocument entries).Collects none (.node 0 :: (flowItems 1 entries).map Prod.snd) 0 c := by
  let d := flowDocument entries
  let lists := (flowCollections 1 entries).length
  have hbuild : Document.Collecting (d.Collects (some 0) [.node 0] 0)
      (do Building.build 0; Building.buildAll (lists + 1))
      fun _ => d.Collects none (.node 0 :: (flowItems 1 entries).map Prod.snd) 0 := by
    have hroot : Document.Collecting (d.Collects (some 0) [.node 0] 0) (Building.build 0)
        fun _ => d.Collects none ((flowItems 1 entries).map Prod.snd ++ [.node 0]) (0 + lists) :=
      Document.collecting_build_mapping rfl rfl (stands_flowDocument entries) 1
    refine Triple.bind hroot fun _ => ?_
    refine (Document.collecting_buildAll (lists + 1)).mono (fun c hc => hc.mono (fun id hid => ?_) ?_)
      (fun _ _ hc => hc) fun _ h => h
    · simpa [or_comm] using hid
    · omega
  have hstart : d.Collects (some 0) [.node 0] 0 { document := d, met := [0] } :=
    ⟨rfl, rfl, by simp, Nat.le_refl 0, by simp, by simp, by simp⟩
  have hconstruct : d.construct =
      ((do Building.build 0; Building.buildAll (lists + 1) : Building Unit).run
        { document := d, met := [0] }).map Prod.snd :=
    rfl
  have hends := hbuild _ hstart
  rw [hconstruct]
  cases hrun : (do Building.build 0; Building.buildAll (lists + 1) : Building Unit).run
      { document := d, met := [0] } with
  | error fault => rw [hrun] at hends; exact hends.elim
  | ok r => rw [hrun] at hends; exact ⟨r.2, rfl, hends⟩

variable {entries : List (String × FlowValue)} {c : Construction}

/-- All collections that have been come to hold what stands in the document. -/
theorem Document.Collects.lookup {d : Document} {seen : List Item} (h : d.Collects none seen 0 c) {id : Nat}
    (hid : .node id ∈ seen) : c.contents.lookup id = d.shown? id := by
  have hnone : c.waiting = [] := List.length_eq_zero_iff.mp (Nat.le_zero.mp h.length)
  rcases h.met id (h.seen id hid) with hwaits | hbusy | hbuilt
  · rw [hnone] at hwaits
    cases hwaits
  · cases hbusy
  · obtain ⟨contents, hcontents⟩ := Option.isSome_iff_exists.mp hbuilt
    rw [hcontents, h.contents id contents hcontents]

theorem datum_textItem (text : String) (depth : Nat) : c.datum depth (textItem text) = .text text := by
  unfold Construction.datum
  rfl

theorem datum_of_stands {d : Document} {seen : List Item} {item : Item} {v : FlowValue}
    (hc : d.Collects none seen 0 c) (hitem : item ∈ seen) (h : Stands d.collections item v) (depth : Nat) :
    c.datum (depth + 1) item = v.toDatum := by
  cases v with
  | null =>
      obtain rfl := h
      rfl
  | text t =>
      obtain rfl := h
      exact datum_textItem t _
  | list texts =>
      obtain ⟨id, rfl, hid⟩ := h
      have hcollection : d.collection? id = some (.sequence .seq (texts.map textItem)) := hid
      have hcontents : c.contents.lookup id = some (.items (texts.map textItem)) := by
        rw [hc.lookup hitem, Document.shown?, hcollection]
      have hscalar : c.scalar? (.node id) = none := by
        rw [Construction.scalar?, hc.scalars]
        rfl
      rw [Construction.datum, hscalar, hcontents]
      simp [FlowValue.toDatum, datum_textItem]

theorem datum_flowDocument
    (hc : (flowDocument entries).Collects none (.node 0 :: (flowItems 1 entries).map Prod.snd) 0 c)
    (depth : Nat) :
    c.datum (depth + 2) (flowDocument entries).root = .record (entries.map fun e => (e.1, e.2.toDatum)) := by
  have hcontents : c.contents.lookup 0 = some (.fields (flowItems 1 entries)) :=
    hc.lookup List.mem_cons_self
  have hscalar : c.scalar? (.node 0) = none := by
    rw [Construction.scalar?, hc.scalars]
    rfl
  have hfields : ∀ {items : List (Item × Item)} {es : List (String × FlowValue)},
      (∀ entry ∈ items, entry.2 ∈ (flowItems 1 entries).map Prod.snd) →
      List.Forall₂ (StandsEntry (flowDocument entries).collections) items es →
      items.filterMap (c.fieldOf (depth + 1)) = es.map fun e => (e.1, e.2.toDatum) := by
    intro items es hmem h
    induction h with
    | nil => rfl
    | @cons places e items es hentry _ ih =>
        obtain ⟨key, value⟩ := places
        obtain ⟨rfl, hvalue⟩ := hentry
        have hseen := List.mem_cons_of_mem (.node 0) (hmem _ List.mem_cons_self)
        rw [List.map_cons, ← ih fun entry hentry => hmem entry (List.mem_cons_of_mem _ hentry),
          ← datum_of_stands hc hseen hvalue depth]
        rfl
  change c.datum (depth + 2) (.node 0) = _
  rw [Construction.datum, hscalar, hcontents, ← hfields (fun entry => List.mem_map_of_mem)
    (stands_flowDocument entries)]
  rfl

/-- Whatever is read as that document has the data of the entries. -/
theorem load_of_read?_eq (entries : List (String × FlowValue)) {text : String}
    (h : Document.read? text = .ok (some (flowDocument entries))) :
    load text = .ok (.record (entries.map fun e => (e.1, e.2.toDatum))) := by
  obtain ⟨c, hconstruct, hc⟩ := exists_construct_flowDocument entries
  rw [load, h]
  change ((flowDocument entries).construct).bind _ = _
  rw [hconstruct, ← datum_flowDocument hc 2]
  rfl

/-! ## Public theorem -/

/-- A mapping on one line is read back as the record of its entries. -/
theorem load_flowMapping {entries : List (String × FlowValue)}
    (hshort : ∀ e ∈ entries, IsShortKey e.1) :
    load (String.ofList (flowMapping entries)) =
      .ok (.record (entries.map fun e => (e.1, e.2.toDatum))) := by
  refine load_of_read?_eq entries ?_
  rw [Document.read?, String.toList_ofList, tokens_flowMapping hshort,
    Document.ofTokens?_flowMappingTokens]

end Whole

end ImageTrust.Yaml
