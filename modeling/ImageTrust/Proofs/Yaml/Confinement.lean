import ImageTrust.Proofs.Yaml.Construction
import ImageTrust.Proofs.Yaml.Likeness
import Mathlib.Logic.Relation

/-! # What like documents have in common

Two documents that differ only in scalars where the mark shows in a third one have the same places wherever
the mark does not show below, and mappings are merged in both of them side by side.
-/

namespace ImageTrust.Yaml

variable {shows : Item → Prop} {changed : Nat → Prop} {mark : Char}

/-! ## Twins -/

theorem Tag.Alike.symm {tag tag' : Tag} (h : tag.Alike tag') : tag'.Alike tag :=
  h.imp Eq.symm And.symm

theorem Tag.Alike.trans {tag tag' tag'' : Tag} (h : tag.Alike tag') (h' : tag'.Alike tag'') :
    tag.Alike tag'' := by
  rcases h with rfl | h
  · exact h'
  · rcases h' with rfl | h'
    · exact .inr h
    · exact .inr ⟨h.1, h'.2⟩

theorem Tag.Alike.eq_merge_iff {tag tag' : Tag} (h : tag.Alike tag') : tag = .merge ↔ tag' = .merge := by
  rcases h with rfl | ⟨h, h'⟩
  · exact Iff.rfl
  · exact iff_of_false h.1 h'.1

theorem Tag.Alike.isCollection_eq {tag tag' : Tag} (h : tag.Alike tag') :
    tag.isCollection = tag'.isCollection := by
  rcases h with rfl | ⟨h, h'⟩
  · rfl
  · rw [h.2, h'.2]

/-- The same place, or scalars that may differ. -/
abbrev Item.Twins (changed : Nat → Prop) : Item → Item → Prop :=
  Item.Alike (fun _ => True) changed

abbrev Collection.Twins (changed : Nat → Prop) : Collection → Collection → Prop :=
  Collection.Alike (fun _ => True) changed

abbrev Document.Twins (changed : Nat → Prop) : Document → Document → Prop :=
  Document.Alike (fun _ => True) changed

theorem Item.Alike.twins {item item' item'' : Item} (h : item.Alike shows changed item')
    (h' : item.Alike shows changed item'') : item'.Twins changed item'' := by
  cases h with
  | leaf s =>
      cases h' with
      | leaf => exact .leaf s
      | fixed hfixed => exact absurd trivial hfixed
      | scalar _ hloose hloose' htag => exact .scalar trivial hloose hloose' htag
  | fixed hfixed =>
      cases h' with
      | leaf s => exact absurd trivial hfixed
      | fixed => exact .fixed hfixed
      | scalar _ hloose => exact absurd hloose hfixed
  | scalar _ hloose hloose' htag =>
      cases h' with
      | leaf s => exact .scalar trivial hloose' hloose htag.symm
      | fixed hfixed => exact absurd hloose hfixed
      | scalar _ _ hloose'' htag' => exact .scalar trivial hloose' hloose'' (htag.symm.trans htag')

/-- Lists that are related to a common one are related to each other. -/
theorem forall₂_of_common {α β : Type} {R : α → β → Prop} {S : β → β → Prop}
    (hRS : ∀ a b c, R a b → R a c → S b c) {as : List α} {bs cs : List β} (h : List.Forall₂ R as bs)
    (h' : List.Forall₂ R as cs) : List.Forall₂ S bs cs := by
  induction h generalizing cs with
  | nil =>
      cases h'
      exact .nil
  | cons hab _ ih =>
      cases h' with
      | cons hac hrest => exact .cons (hRS _ _ _ hab hac) (ih hrest)

theorem Collection.Alike.twins {c c' c'' : Collection} (h : c.Alike shows changed c')
    (h' : c.Alike shows changed c'') : c'.Twins changed c'' := by
  cases h with
  | sequence h =>
      cases h' with
      | sequence h' => exact .sequence (forall₂_of_common (fun _ _ _ hi hi' => hi.twins hi') h h')
  | mapping h =>
      cases h' with
      | mapping h' =>
          refine .mapping (forall₂_of_common (fun _ _ _ he he' => ?_) h h')
          exact ⟨he.1.twins he'.1, he.2.twins he'.2⟩

theorem Document.Alike.twins {d d' d'' : Document} (h : d.Alike shows changed d')
    (h' : d.Alike shows changed d'') : d'.Twins changed d'' where
  root := h.root.twins h'.root
  collections := by
    refine forall₂_of_common (fun _ _ _ hc hc' => ?_) h.collections h'.collections
    exact ⟨hc.1.symm.trans hc'.1, hc.2.twins hc'.2⟩
  ordinary item hfixed := (h.ordinary item hfixed).symm.trans (h'.ordinary item hfixed)

/-! ## Lists of twins -/

section Lists

variable {α β : Type} {R : α → β → Prop} {xs : List α} {ys : List β}

theorem forall₂_getElem? (h : List.Forall₂ R xs ys) (i : Nat) :
    (xs[i]? = none ∧ ys[i]? = none) ∨ ∃ x y, xs[i]? = some x ∧ ys[i]? = some y ∧ R x y := by
  induction h generalizing i with
  | nil => exact .inl ⟨rfl, rfl⟩
  | @cons x y xs ys hxy _ ih =>
      cases i with
      | zero => exact .inr ⟨x, y, rfl, rfl, hxy⟩
      | succ i => simpa using ih i

theorem forall₂_eraseIdx (h : List.Forall₂ R xs ys) (i : Nat) :
    List.Forall₂ R (xs.eraseIdx i) (ys.eraseIdx i) := by
  induction h generalizing i with
  | nil => exact .nil
  | cons hxy hrest ih =>
      cases i with
      | zero => exact hrest
      | succ i => exact .cons hxy (ih i)

end Lists

namespace Document

variable {d : Document}

/-! ## Places without the mark -/

/-- What stands directly in a place. -/
inductive Contains (d : Document) : Item → Item → Prop
  | item {id : Nat} {tag : Tag} {items : List Item} {item : Item}
      (hid : d.collection? id = some (.sequence tag items)) (hitem : item ∈ items) :
      Contains d (.node id) item
  | key {id : Nat} {tag : Tag} {entries : List (Item × Item)} {entry : Item × Item}
      (hid : d.collection? id = some (.mapping tag entries)) (hentry : entry ∈ entries) :
      Contains d (.node id) entry.1
  | value {id : Nat} {tag : Tag} {entries : List (Item × Item)} {entry : Item × Item}
      (hid : d.collection? id = some (.mapping tag entries)) (hentry : entry ∈ entries) :
      Contains d (.node id) entry.2

/-- A place below which the mark does not show. A place may stand below itself. -/
def Clean (d : Document) (mark : Char) (item : Item) : Prop :=
  ∀ below, Relation.ReflTransGen d.Contains item below → ¬below.Shows mark

theorem Clean.not_shows {item : Item} (hclean : d.Clean mark item) : ¬item.Shows mark :=
  hclean item .refl

theorem Clean.of_contains {item below : Item} (hclean : d.Clean mark item) (h : d.Contains item below) :
    d.Clean mark below :=
  fun other hother => hclean other (.head h hother)

theorem Clean.of_text? {item : Item} {text : String} (htext : item.text? = some text)
    (h : mark ∉ text.toList) : d.Clean mark item := by
  rintro below hbelow ⟨text', htext', hmark⟩
  rcases hbelow.cases_head with rfl | ⟨other, hother, -⟩
  · cases htext.symm.trans htext'
    exact h hmark
  · cases hother <;> cases htext

theorem Clean.eq {item item' : Item} (hclean : d.Clean mark item)
    (h : item.Alike (Item.Shows mark) changed item') : item' = item := by
  cases h with
  | leaf s => rfl
  | fixed => rfl
  | scalar hshows => exact absurd hshows hclean.not_shows

/-- A mapping that the value of a merge key may bring in: the value itself or one of its items. -/
inductive Brings (d : Document) : Item → Nat → Prop
  | node (id : Nat) : Brings d (.node id) id
  | item {list id : Nat} {tag : Tag} {items : List Item}
      (hlist : d.collection? list = some (.sequence tag items)) (hid : .node id ∈ items) :
      Brings d (.node list) id

theorem Brings.of_alike {item item' : Item} {id : Nat} (h : item.Alike (Item.Shows mark) changed item')
    (hbrings : d.Brings item' id) : d.Brings item id := by
  cases h with
  | leaf s => exact hbrings
  | fixed => exact hbrings
  | scalar _ _ hloose' => cases hbrings <;> exact hloose'.elim

/-! ## Zones -/

/-- Some mappings of a document, and the keys below which the mark may show in them. -/
structure Zone where
  among : Nat → Prop
  exempt : Item → Prop

/-- The mark does not show in the key of an entry, and below it only if the key is exempt; what a merge
key brings in is in the zone. -/
structure Confined (d : Document) (mark : Char) (zone : Zone) (entry : Item × Item) : Prop where
  key : d.Clean mark entry.1
  value : d.tagOf entry.1 ≠ .merge → zone.exempt entry.1 ∨ d.Clean mark entry.2
  brings : d.tagOf entry.1 = .merge → ∀ id, d.Brings entry.2 id → zone.among id

/-- The entries of all mappings of a zone are confined. -/
def Confines (d : Document) (mark : Char) (zone : Zone) : Prop :=
  ∀ id tag entries, zone.among id → d.collection? id = some (.mapping tag entries) →
    ∀ entry ∈ entries, d.Confined mark zone entry

end Document

/-- A document as it was written in which a mark shows, and the numbers of the scalars in which it
shows. -/
structure Marking where
  document : Document
  mark : Char
  changed : Nat → Prop
  written : document.ordinary = []

namespace Marking

open Document (Zone)

variable {M : Marking} {zone : Zone} {zones : Zone → Prop} {a a' : Document}

/-! ## Entries side by side -/

/-- A place below which the mark does not show, and which no number says to show it. -/
structure Spotless (M : Marking) (item : Item) : Prop where
  clean : M.document.Clean M.mark item
  fixed : ∀ number text, item = .equals number text → ¬M.changed number

/-- The same place in both documents, below which the mark does not show. -/
def Same (M : Marking) (item item' : Item) : Prop :=
  M.Spotless item ∧ item' = item

theorem same_of_clean {item item' item'' : Item} (hclean : M.document.Clean M.mark item)
    (h : item.Alike (Item.Shows M.mark) M.changed item')
    (h' : item.Alike (Item.Shows M.mark) M.changed item'') : M.Same item' item'' := by
  rw [hclean.eq h, hclean.eq h']
  refine ⟨⟨hclean, fun number text hitem hchanged => ?_⟩, rfl⟩
  cases h with
  | leaf s => cases hitem
  | fixed hfixed => exact hfixed (hitem ▸ hchanged)
  | scalar hshows => exact hclean.not_shows hshows

/-- Twin entries that are confined to a zone: their keys are the same, and their values are unless the key
is exempt. -/
structure Placed (M : Marking) (zone : Zone) (entry entry' : Item × Item) : Prop where
  key : M.Same entry.1 entry'.1
  value : M.document.tagOf entry.1 ≠ .merge → zone.exempt entry.1 ∨ M.Same entry.2 entry'.2
  brings : M.document.tagOf entry.1 = .merge → ∀ id, M.document.Brings entry.2 id → zone.among id

/-- Twin entries that are confined to some zones. -/
def Tracks (M : Marking) (zones : Zone → Prop) (entry entry' : Item × Item) : Prop :=
  EntryAlike (fun _ => True) M.changed entry entry' ∧ ∀ zone, zones zone → M.Placed zone entry entry'

/-- The zones of a mapping that confine the mark. -/
def ZoneOf (M : Marking) (id : Nat) (zone : Zone) : Prop :=
  M.document.Confines M.mark zone ∧ zone.among id

theorem Tracks.mono {zones' : Zone → Prop} {entry entry' : Item × Item}
    (h : M.Tracks zones entry entry') (hzones : ∀ zone, zones' zone → zones zone) :
    M.Tracks zones' entry entry' :=
  ⟨h.1, fun zone hzone => h.2 zone (hzones zone hzone)⟩

theorem tracks_of_alike {entry entry' entry'' : Item × Item}
    (h : EntryAlike (Item.Shows M.mark) M.changed entry entry')
    (h' : EntryAlike (Item.Shows M.mark) M.changed entry entry'')
    (hconfined : ∀ zone, zones zone → M.document.Confined M.mark zone entry) :
    M.Tracks zones entry' entry'' := by
  refine ⟨⟨h.1.twins h'.1, h.2.twins h'.2⟩, fun zone hzone => ?_⟩
  have hentry := hconfined zone hzone
  have hkey := hentry.key.eq h.1
  refine ⟨same_of_clean hentry.key h.1 h'.1, fun hmerge => ?_, fun hmerge id hid => ?_⟩
  · rw [hkey] at hmerge ⊢
    exact (hentry.value hmerge).imp_right fun hclean => same_of_clean hclean h.2 h'.2
  · rw [hkey] at hmerge
    exact hentry.brings hmerge id (.of_alike h.2 hid)

/-! ## Documents side by side -/

/-- What stays in a document while values are built from it: its sequences, the tags of its collections,
and that only equals signs become ordinary texts. -/
structure Stems (M : Marking) (a : Document) : Prop where
  sequences : ∀ id tag items, a.collection? id = some (.sequence tag items) →
    ∃ origin, M.document.collection? id = some (.sequence tag origin) ∧
      ItemsAlike (Item.Shows M.mark) M.changed origin items
  tags : ∀ id, (a.collection? id).map Collection.tag = (M.document.collection? id).map Collection.tag
  ordinary : ∀ id, .node id ∈ a.ordinary →
    (M.document.collection? id).map Collection.tag = some .value

/-- Twin documents in which the entries of every mapping are confined to its zones. -/
structure Agree (M : Marking) (a a' : Document) : Prop where
  stems : M.Stems a
  stems' : M.Stems a'
  twins : a.Twins M.changed a'
  tracks : ∀ id tag entries entries', a.collection? id = some (.mapping tag entries) →
    a'.collection? id = some (.mapping tag entries') →
    List.Forall₂ (M.Tracks (M.ZoneOf id)) entries entries'

/-- A collection is missing in both documents, or it is a twin. -/
theorem Agree.collection? (h : M.Agree a a') (id : Nat) :
    (a.collection? id = none ∧ a'.collection? id = none) ∨
      ∃ c c', a.collection? id = some c ∧ a'.collection? id = some c' ∧ c.Twins M.changed c' :=
  lookup_of_forall₂ h.twins.collections id

/-! ## Tags -/

theorem tagOf_equals (a : Document) (number : Nat) (text : String) :
    a.tagOf (.equals number text) = .value ∨ a.tagOf (.equals number text) = .str := by
  rw [Document.tagOf]
  split
  · exact .inr rfl
  · exact .inl rfl

theorem tagOf_node (a : Document) (id : Nat) :
    a.tagOf (.node id) = if .node id ∈ a.ordinary then .str
      else ((a.collection? id).map Collection.tag).getD .unknown := by
  rw [Document.tagOf]
  simp

/-- A key is a merge key as long as the document lasts. -/
theorem Stems.tagOf_eq_merge_iff (h : M.Stems a) (item : Item) :
    a.tagOf item = .merge ↔ M.document.tagOf item = .merge := by
  have hequals : ∀ (d : Document) number text, d.tagOf (.equals number text) ≠ .merge := by
    intro d number text
    rcases tagOf_equals d number text with htag | htag <;> simp [htag]
  cases item with
  | leaf s => exact Iff.rfl
  | equals number text => simp [hequals]
  | node id =>
      rw [tagOf_node, tagOf_node, h.tags id, M.written]
      by_cases hordinary : .node id ∈ a.ordinary
      · simp [hordinary, h.ordinary id hordinary]
      · simp [hordinary]

/-- The tag of a scalar that may differ is the one it is written with, or those of equals signs. -/
theorem tagOf_alike_written {item : Item} (h : item.IsLoose changed) (a : Document) :
    (a.tagOf item).Alike item.written := by
  cases item with
  | leaf s => exact .refl _
  | equals number text =>
      have hvalue : Tag.value.IsInner := ⟨by decide, rfl⟩
      have hstr : Tag.str.IsInner := ⟨by decide, rfl⟩
      rcases tagOf_equals a number text with htag | htag
      · rw [htag]
        exact .refl _
      · rw [htag]
        exact .inr ⟨hstr, hvalue⟩
  | node id => exact h.elim

theorem Agree.tagOf_eq (h : M.Agree a a') {item : Item} (hfixed : ¬item.IsLoose M.changed) :
    a'.tagOf item = a.tagOf item := by
  have hordinary : item ∈ a'.ordinary ↔ item ∈ a.ordinary := (h.twins.ordinary item hfixed).symm
  cases item with
  | leaf s => rfl
  | equals number text => simp [Document.tagOf, hordinary]
  | node id => rw [tagOf_node, tagOf_node, h.stems.tags, h.stems'.tags, if_congr hordinary rfl rfl]

theorem Agree.tagOf_eq_of_spotless (h : M.Agree a a') {item : Item} (hitem : M.Spotless item) :
    a'.tagOf item = a.tagOf item := by
  cases item with
  | leaf s => rfl
  | equals number text => exact h.tagOf_eq (hitem.fixed number text rfl)
  | node id => exact h.tagOf_eq not_false

theorem Agree.tagOf_alike (h : M.Agree a a') {item item' : Item} (hitem : item.Twins M.changed item') :
    (a.tagOf item).Alike (a'.tagOf item') := by
  cases hitem with
  | leaf s => exact .refl _
  | fixed hfixed => exact .inl (h.tagOf_eq hfixed).symm
  | scalar _ hloose hloose' htag =>
      exact (tagOf_alike_written hloose a).trans (htag.trans (tagOf_alike_written hloose' a').symm)

/-! ## Changes -/

theorem mem_ordinary_settle (a : Document) (key item : Item) :
    item ∈ (a.settle key).ordinary ↔ (a.tagOf key = .value ∧ item = key) ∨ item ∈ a.ordinary := by
  by_cases htag : a.tagOf key = .value <;> simp [Document.settle, htag]

theorem settle_eq (a : Document) (key : Item) :
    a.settle key = { a with ordinary := (a.settle key).ordinary } := by
  unfold Document.settle
  split <;> rfl

theorem Stems.settle (h : M.Stems a) (key : Item) : M.Stems (a.settle key) where
  sequences id tag items hid := h.sequences id tag items (Document.collection?_settle a key id ▸ hid)
  tags id := by rw [Document.collection?_settle, h.tags]
  ordinary id hid := by
    rcases (mem_ordinary_settle a key _).mp hid with ⟨htag, rfl⟩ | hid
    · rw [tagOf_node, h.tags] at htag
      split at htag
      · cases htag
      · revert htag
        cases (M.document.collection? id).map Collection.tag <;> simp
    · exact h.ordinary id hid

theorem Agree.settle (h : M.Agree a a') {key key' : Item} (hkey : key.Twins M.changed key') :
    M.Agree (a.settle key) (a'.settle key') where
  stems := h.stems.settle key
  stems' := h.stems'.settle key'
  twins :=
    { root := by rw [settle_eq a, settle_eq a']; exact h.twins.root
      collections := by rw [settle_eq a, settle_eq a']; exact h.twins.collections
      ordinary := fun item hfixed => by
        rw [mem_ordinary_settle, mem_ordinary_settle, h.twins.ordinary item hfixed]
        cases hkey with
        | leaf s => rfl
        | fixed hsame => rw [h.tagOf_eq hsame]
        | scalar _ hloose hloose' =>
            have hne : item ≠ key := fun heq => hfixed (heq ▸ hloose)
            have hne' : item ≠ key' := fun heq => hfixed (heq ▸ hloose')
            simp [hne, hne'] }
  tracks id tag entries entries' hid hid' :=
    h.tracks id tag entries entries' (Document.collection?_settle a key id ▸ hid) (Document.collection?_settle a' key' id ▸ hid')

theorem Stems.setEntries (h : M.Stems a) {id : Nat} {tag : Tag} {old : List (Item × Item)}
    (hid : a.collection? id = some (.mapping tag old)) (entries : List (Item × Item)) :
    M.Stems (a.setEntries id tag entries) where
  sequences other tag items hother := by
    rw [Document.collection?_setEntries] at hother
    split at hother
    · cases hother
    · exact h.sequences other tag items hother
  tags other := by
    rw [Document.collection?_setEntries]
    split
    · next heq => rw [heq, ← h.tags id, hid]; rfl
    · exact h.tags other
  ordinary := h.ordinary

theorem Agree.setEntries (h : M.Agree a a') {id : Nat} {tag : Tag} {old old' entries entries' : List (Item × Item)}
    (hid : a.collection? id = some (.mapping tag old)) (hid' : a'.collection? id = some (.mapping tag old'))
    (hentries : List.Forall₂ (M.Tracks (M.ZoneOf id)) entries entries') :
    M.Agree (a.setEntries id tag entries) (a'.setEntries id tag entries') where
  stems := h.stems.setEntries hid entries
  stems' := h.stems'.setEntries hid' entries'
  twins := { h.twins with
    collections := .cons ⟨rfl, .mapping (hentries.imp fun _ _ htracks => htracks.1)⟩ h.twins.collections }
  tracks other tag' first first' hother hother' := by
    rw [Document.collection?_setEntries] at hother hother'
    split at hother
    · next heq =>
        rw [if_pos heq] at hother'
        cases hother
        cases hother'
        exact heq ▸ hentries
    · next hne =>
        rw [if_neg hne] at hother'
        exact h.tracks other tag' first first' hother hother'

theorem lockstep_settle {key key' : Item} (h : key.Twins M.changed key') :
    Lockstep M.Agree Eq (modify (·.settle key) : Merging Unit) (modify (·.settle key')) :=
  Lockstep.modify fun _ _ ha => ha.settle h

end Marking

/-! ## Merging -/

namespace Lockstep

open Merging (Entries)

variable {M : Marking} {zones : Document.Zone → Prop}

/-- The entries of two mappings, confined to some zones. -/
abbrev EntriesTrack (M : Marking) (zones : Document.Zone → Prop) : Entries → Entries → Prop :=
  List.Forall₂ (M.Tracks zones)

theorem coupled_mapping (id : Nat) :
    Coupled M.Agree (Merging.mapping id) (Merging.mapping id) fun r r' a a' =>
      (r.1 = r'.1 ∧ EntriesTrack M (M.ZoneOf id) r.2 r'.2) ∧
        a.collection? id = some (.mapping r.1 r.2) ∧ a'.collection? id = some (.mapping r'.1 r'.2) ∧
        M.Agree a a' := by
  refine Coupled.get_bind fun a a' h => ?_
  rcases h.collection? id with ⟨hid, hid'⟩ | ⟨c, c', hid, hid', htwins⟩
  · rw [hid, hid']
    exact fun _ _ _ => trivial
  · rw [hid, hid']
    cases htwins with
    | sequence _ => exact fun _ _ _ => trivial
    | mapping _ => exact .pure_at ⟨⟨rfl, h.tracks _ _ _ _ hid hid'⟩, hid, hid', h⟩

theorem entriesOf (id : Nat) :
    Lockstep M.Agree (EntriesTrack M (M.ZoneOf id)) (Merging.entriesOf id) (Merging.entriesOf id) := by
  refine Coupled.bind (coupled_mapping id) fun r r' => .assume fun hr => ?_
  exact Coupled.mono (pure hr.2) (fun _ _ h => h.2.2) fun _ _ _ _ h => h

theorem setEntries {id : Nat} {entries entries' : Entries}
    (h : EntriesTrack M (M.ZoneOf id) entries entries') :
    Lockstep M.Agree Eq (Merging.setEntries id entries) (Merging.setEntries id entries') := by
  refine Coupled.bind (coupled_mapping id) fun r r' => .assume fun hr => ?_
  obtain ⟨tag, old⟩ := r
  obtain ⟨tag', old'⟩ := r'
  obtain ⟨rfl, -⟩ := hr
  exact fun a a' ha => ⟨rfl, ha.2.2.setEntries ha.1 ha.2.1 h⟩

section Brought

variable {flatten : Nat → Merging Unit}

theorem bring (hflatten : ∀ id, Lockstep M.Agree Eq (flatten id) (flatten id)) {items items' : List Item}
    (h : List.Forall₂ (Item.Twins M.changed) items items')
    (hzones : ∀ id, .node id ∈ items → ∀ zone, zones zone → M.ZoneOf id zone) :
    Lockstep M.Agree (EntriesTrack M zones) (Merging.bring flatten items) (Merging.bring flatten items') := by
  induction h with
  | nil => exact pure .nil
  | @cons item item' items items' hitem _ ih =>
      have hmore := ih fun id hid => hzones id (List.mem_cons_of_mem _ hid)
      cases hitem with
      | leaf s => exact throw _ _
      | fixed _ =>
          cases item with
          | leaf s => exact throw _ _
          | equals number text => exact throw _ _
          | node id =>
              refine bindEq (hflatten id) fun _ => bind (entriesOf id) fun first first' hfirst => ?_
              refine bind hmore fun others others' hothers => pure ?_
              refine List.rel_append hothers (hfirst.imp fun _ _ htracks => ?_)
              exact htracks.mono (hzones id List.mem_cons_self)
      | scalar _ hloose hloose' =>
          cases item with
          | leaf s => exact throw _ _
          | equals number text => exact throw _ _
          | node id => exact hloose.elim

theorem mem_of_alike {shows : Item → Prop} {changed : Nat → Prop} {items items' : List Item} {id : Nat}
    (h : ItemsAlike shows changed items items') (hid : .node id ∈ items') : .node id ∈ items := by
  induction h with
  | nil => cases hid
  | cons hitem _ ih =>
      rcases List.mem_cons.mp hid with rfl | hid
      · cases hitem with
        | fixed _ => exact List.mem_cons_self
        | scalar _ _ hloose' => exact hloose'.elim
      · exact List.mem_cons_of_mem _ (ih hid)

theorem bringValue (hflatten : ∀ id, Lockstep M.Agree Eq (flatten id) (flatten id)) {value value' : Item}
    (h : value.Twins M.changed value')
    (hzones : ∀ id, M.document.Brings value id → ∀ zone, zones zone → M.ZoneOf id zone) :
    Lockstep M.Agree (EntriesTrack M zones) (Merging.bringValue flatten value)
      (Merging.bringValue flatten value') := by
  cases value with
  | leaf s => exact throw _ _
  | equals number text => exact throw _ _
  | node id =>
      cases h with
      | scalar _ hloose => exact hloose.elim
      | fixed hfixed =>
          have hself : Lockstep M.Agree (EntriesTrack M zones) (Merging.bring flatten [.node id])
              (Merging.bring flatten [.node id]) := by
            refine bring hflatten (.cons (.fixed hfixed) .nil) fun other hother => ?_
            cases List.mem_singleton.mp hother
            exact hzones id (.node id)
          refine bind get fun a a' ha => ?_
          rcases ha.collection? id with ⟨hid, hid'⟩ | ⟨c, c', hid, hid', htwins⟩
          · rw [hid, hid']
            exact hself
          · rw [hid, hid']
            cases htwins with
            | mapping _ => exact hself
            | sequence hitems =>
                obtain ⟨origin, horigin, halike⟩ := ha.stems.sequences _ _ _ hid
                refine bring hflatten hitems fun other hother => ?_
                exact hzones other (.item horigin (mem_of_alike halike hother))

theorem gather (hflatten : ∀ id, Lockstep M.Agree Eq (flatten id) (flatten id)) (id steps index : Nat) :
    Lockstep M.Agree (EntriesTrack M (M.ZoneOf id)) (Merging.gather flatten id steps index)
      (Merging.gather flatten id steps index) := by
  induction steps generalizing index with
  | zero => exact pure .nil
  | succ steps ih =>
      refine bind (entriesOf id) fun entries entries' hentries => ?_
      rcases forall₂_getElem? hentries index with ⟨hnone, hnone'⟩ | ⟨entry, entry', hsome, hsome', htracks⟩
      · rw [hnone, hnone']
        exact pure .nil
      · rw [hsome, hsome']
        refine bind get fun a a' ha => ?_
        have htag := ha.tagOf_alike htracks.1.1
        by_cases hmerge : a.tagOf entry.1 = .merge
        · rw [if_pos hmerge, if_pos (htag.eq_merge_iff.mp hmerge)]
          have hbrings : ∀ other, M.document.Brings entry.2 other →
              ∀ zone, M.ZoneOf id zone → M.ZoneOf other zone := by
            intro other hother zone hzone
            have hplaced := htracks.2 zone hzone
            exact ⟨hzone.1, hplaced.brings ((ha.stems.tagOf_eq_merge_iff _).mp hmerge) other hother⟩
          refine bind (entriesOf id) fun own own' hown => ?_
          refine bindEq (setEntries (forall₂_eraseIdx hown index)) fun _ => ?_
          refine bind (bringValue hflatten htracks.1.2 hbrings) fun first first' hfirst => ?_
          exact bind (ih index) fun others others' hothers => pure (List.rel_append hfirst hothers)
        · rw [if_neg hmerge, if_neg fun hmerge' => hmerge (htag.eq_merge_iff.mpr hmerge')]
          exact bindEq (Marking.lockstep_settle htracks.1.1) fun _ => ih (index + 1)

end Brought

/-- Two runs of merging go side by side. -/
theorem flatten (depth id : Nat) :
    Lockstep M.Agree Eq (Merging.flatten depth id) (Merging.flatten depth id) := by
  induction depth generalizing id with
  | zero => exact throw _ _
  | succ depth ih =>
      refine bind (entriesOf id) fun entries entries' hentries => ?_
      rw [hentries.length_eq]
      refine bind (gather ih id entries'.length 0) fun merged merged' hmerged => ?_
      have hempty : merged.isEmpty = merged'.isEmpty := by cases hmerged <;> rfl
      rw [hempty]
      refine ite (pure rfl) (bind (entriesOf id) fun own own' hown => ?_)
      exact setEntries (List.rel_append hmerged hown)

end Lockstep

end ImageTrust.Yaml
