import ImageTrust.Proofs.Record.Complaints
import ImageTrust.Proofs.Record.Shapes

/-! # Readers and shapes

What it means that a reader validates data of a shape, and that the readers of texts, names, lists and
values that may be absent do so, if those of their parts do.
-/

namespace ImageTrust

namespace Record

variable {α β γ : Type}

/-! ## Complaints -/

theorem complaints_within (step : Step) (r : Checked α) :
    (within step r).complaints = r.complaints.map fun c => { c with place := step :: c.place } := by
  cases r <;> rfl

theorem within_eq_ok_iff {step : Step} {r : Checked α} {a : α} : within step r = .ok a ↔ r = .ok a := by
  cases r <;> simp [within]

theorem within_ne_nil {step : Step} {r : Checked α} (h : r ≠ .error []) : within step r ≠ .error [] := by
  cases r with
  | ok a => exact nofun
  | error cs => simpa [within] using h

theorem both_ne_nil {f : α → β → γ} {a : Checked α} {b : Checked β} (ha : a ≠ .error [])
    (hb : b ≠ .error []) : both f a b ≠ .error [] := by
  cases a <;> cases b <;> simp_all [both]

/-! ## Readers of one shape -/

/-- A reader tells data of a shape from other data, keeps what is to be kept of it and reads back what is
written. -/
structure Validates (shape : Shape) (read : Datum → Checked α) (write : α → Datum) : Prop where
  restricts {d : Datum} {a : α} : read d = .ok a → Restricts shape d (write a)
  nonempty (d : Datum) : read d ≠ .error []
  mem_complaints {d : Datum} {c : Complaint} :
    c ∈ (read d).complaints ↔ Offends shape d c.place c.defect
  ordered (d : Datum) : (read d).complaints.Pairwise fun c c' => Precedes shape c.place c'.place
  reread (a : α) : read (write a) = .ok a
  ignores {d d' : Datum} : Adds shape d d' → read d = read d'

theorem mem_complaints_complain {defect : Defect} {c : Complaint} :
    c ∈ (complain defect : Checked α).complaints ↔ c = ⟨[], defect⟩ := by
  simp [complain, Checked.complaints]

theorem ordered_complain (shape : Shape) (defect : Defect) :
    (complain defect : Checked α).complaints.Pairwise fun c c' => Precedes shape c.place c'.place := by
  simp [complain, Checked.complaints]

/-! ### Texts -/

theorem spells_of_text_eq_ok {d : Datum} {s : String} (h : text d = .ok s) : Spells d s := by
  cases d with
  | text s' =>
      cases h
      exact .text s
  | bytes bs =>
      rw [text] at h
      split at h
      · next cs hcs =>
          cases h
          exact .bytes hcs
      · cases h
  | _ => cases h

theorem Spells.text_eq_ok {d : Datum} {s : String} (h : Spells d s) : Record.text d = .ok s := by
  cases h with
  | text s => rfl
  | bytes h => simp [Record.text, h]

theorem mem_complaints_text {d : Datum} {c : Complaint} :
    c ∈ (text d).complaints ↔ Offends .text d c.place c.defect := by
  constructor
  · intro h
    cases d with
    | text s => cases h
    | bytes bs =>
        cases hread : text (.bytes bs) with
        | ok s =>
            rw [hread] at h
            cases h
        | error cs =>
            have hspells : ∀ s, ¬ Spells (.bytes bs) s := fun s hs => by cases hread ▸ hs.text_eq_ok
            rw [text] at h
            split at h
            · cases h
            · cases mem_complaints_complain.mp h
              exact .notUtf8 hspells
    | _ =>
        cases mem_complaints_complain.mp h
        exact .notText nofun nofun
  · obtain ⟨place, defect⟩ := c
    rintro (⟨htext, hbytes⟩ | hspells)
    · cases d with
      | text s => exact absurd rfl (htext s)
      | bytes bs => exact absurd rfl (hbytes bs)
      | _ => exact List.mem_cons_self
    · next bs =>
        rw [text]
        split
        · next cs hcs => exact absurd (.bytes hcs) (hspells _)
        · exact List.mem_cons_self

theorem text_validates : Validates .text text Datum.text where
  restricts h := .text (spells_of_text_eq_ok h)
  nonempty d := by
    cases d with
    | bytes bs =>
        rw [text]
        split <;> exact nofun
    | _ => exact nofun
  mem_complaints := mem_complaints_text
  ordered d := by
    cases d with
    | text s => exact .nil
    | bytes bs =>
        rw [text]
        split
        · exact .nil
        · exact ordered_complain _ _
    | _ => exact ordered_complain _ _
  reread _ := rfl
  ignores h := nomatch h

/-! ### Values that may be absent -/

theorem optional_of_ne_null {read : Datum → Checked α} {d : Datum} (h : d ≠ .null) :
    optional read d = (read d).map some := by
  cases d with
  | null => exact absurd rfl h
  | _ => rfl

theorem complaints_map (f : α → β) (r : Checked α) :
    Checked.complaints (Except.map f r) = r.complaints := by
  cases r <;> rfl

theorem Validates.optional {shape : Shape} {read : Datum → Checked α} {write : α → Datum}
    {writeOption : Option α → Datum} (h : Validates shape read write) (hnull : ∀ a, write a ≠ .null)
    (hnone : writeOption none = .null) (hsome : ∀ a, writeOption (some a) = write a) :
    Validates (.optional shape) (Record.optional read) writeOption where
  restricts {d o} hread := by
    by_cases hd : d = .null
    · subst hd
      cases hread
      rw [hnone]
      exact .null shape
    · rw [optional_of_ne_null hd] at hread
      cases hr : read d with
      | error cs => cases hr ▸ hread
      | ok a =>
          cases hr ▸ hread
          rw [hsome]
          exact .optional hd (h.restricts hr)
  nonempty d := by
    by_cases hd : d = .null
    · subst hd
      exact nofun
    · rw [optional_of_ne_null hd]
      cases hr : read d with
      | ok a => exact nofun
      | error cs => simpa [Except.map, hr] using h.nonempty d
  mem_complaints {d c} := by
    by_cases hd : d = .null
    · subst hd
      refine iff_of_false nofun fun hoffends => ?_
      cases hoffends with
      | optional hd _ => exact hd rfl
    · rw [optional_of_ne_null hd, complaints_map, h.mem_complaints]
      refine ⟨.optional hd, fun hoffends => ?_⟩
      cases hoffends with
      | optional _ hinner => exact hinner
  ordered d := by
    by_cases hd : d = .null
    · subst hd
      exact .nil
    · rw [optional_of_ne_null hd, complaints_map]
      exact (h.ordered d).imp .optional
  reread o := by
    cases o with
    | none =>
        rw [hnone]
        rfl
    | some a =>
        rw [hsome, optional_of_ne_null (hnull a), h.reread]
        rfl
  ignores {d d'} hadds := by
    cases hadds with
    | optional hadds =>
        obtain ⟨hd, hd'⟩ := hadds.ne_null
        rw [optional_of_ne_null hd, optional_of_ne_null hd', h.ignores hadds]

/-! ### Names -/

section Names

variable {ofName? : String → Option α} {name : α → String} {all : List α}

theorem ofName?_eq_some_iff (hfirst : ∀ s, ofName? s = all.find? fun a => name a = s)
    (hfind : ∀ a, ofName? (name a) = some a) {s : String} {a : α} : ofName? s = some a ↔ name a = s := by
  constructor
  · intro h
    rw [hfirst] at h
    simpa using List.find?_some h
  · rintro rfl
    exact hfind a

theorem mem_map_name_iff (hfirst : ∀ s, ofName? s = all.find? fun a => name a = s)
    (hfind : ∀ a, ofName? (name a) = some a) {s : String} : s ∈ all.map name ↔ ∃ a, name a = s := by
  constructor
  · intro h
    obtain ⟨a, -, ha⟩ := List.mem_map.mp h
    exact ⟨a, ha⟩
  · rintro ⟨a, rfl⟩
    have hfound := hfind a
    rw [hfirst] at hfound
    exact List.mem_map_of_mem (List.mem_of_find?_eq_some hfound)

/-- The first value of a name is read, if every value is the first one of its name. -/
theorem named_validates (hfirst : ∀ s, ofName? s = all.find? fun a => name a = s)
    (hfind : ∀ a, ofName? (name a) = some a) :
    Validates (.oneOf (all.map name)) (named ofName?) (fun a => .text (name a)) where
  restricts {d a} h := by
    cases d with
    | text s =>
        rw [named] at h
        split at h
        · next a' ha =>
            cases h
            have hname := (ofName?_eq_some_iff hfirst hfind).mp ha
            rw [hname]
            exact .oneOf ((mem_map_name_iff hfirst hfind).mpr ⟨a, hname⟩)
        · cases h
    | _ => cases h
  nonempty d := by
    cases d with
    | text s =>
        rw [named]
        split <;> exact nofun
    | _ => exact nofun
  mem_complaints {d c} := by
    constructor
    · intro h
      cases d with
      | text s =>
          rw [named] at h
          split at h
          · cases h
          · next hs =>
              cases mem_complaints_complain.mp h
              refine .notAllowed fun s' hs' heq => ?_
              obtain ⟨a, rfl⟩ := (mem_map_name_iff hfirst hfind).mp hs'
              cases heq
              cases hs ▸ hfind a
      | _ =>
          cases mem_complaints_complain.mp h
          exact .notAllowed nofun
    · obtain ⟨place, defect⟩ := c
      intro hoffends
      cases hoffends with
      | notAllowed h =>
          cases d with
          | text s =>
              rw [named]
              split
              · next a ha =>
                  have hname := (ofName?_eq_some_iff hfirst hfind).mp ha
                  exact absurd rfl (h s ((mem_map_name_iff hfirst hfind).mpr ⟨a, hname⟩))
              · exact List.mem_cons_self
          | _ => exact List.mem_cons_self
  ordered d := by
    cases d with
    | text s =>
        rw [named]
        split
        · exact .nil
        · exact ordered_complain _ _
    | _ => exact ordered_complain _ _
  reread a := by simp [named, hfind a]
  ignores h := nomatch h

end Names

/-! ### Lists -/

theorem itemsFrom_eq_ok {read : Datum → Checked α} {i : ℕ} {ds : List Datum} {as : List α}
    (h : itemsFrom read i ds = .ok as) : List.Forall₂ (fun d a => read d = .ok a) ds as := by
  induction ds generalizing i as with
  | nil =>
      cases h
      exact .nil
  | cons d ds ih =>
      obtain ⟨a, as, ha, has, rfl⟩ := both_eq_ok_iff.mp h
      exact .cons (within_eq_ok_iff.mp ha) (ih has)

theorem mem_complaints_itemsFrom {read : Datum → Checked α} {i : ℕ} {ds : List Datum} {c : Complaint} :
    c ∈ (itemsFrom read i ds).complaints ↔ ∃ j d inner, ds[j]? = some d ∧ inner ∈ (read d).complaints ∧
      c = ⟨.index (i + j) :: inner.place, inner.defect⟩ := by
  induction ds generalizing i with
  | nil => simp [itemsFrom, Checked.complaints]
  | cons d ds ih =>
      rw [itemsFrom, complaints_both, complaints_within, List.mem_append, List.mem_map, ih]
      constructor
      · rintro (⟨inner, hinner, rfl⟩ | ⟨j, d', inner, hd, hinner, rfl⟩)
        · exact ⟨0, d, inner, rfl, hinner, rfl⟩
        · exact ⟨j + 1, d', inner, hd, hinner, by rw [Nat.add_right_comm, Nat.add_assoc]⟩
      · rintro ⟨j, d', inner, hd, hinner, rfl⟩
        cases j with
        | zero =>
            cases hd
            exact .inl ⟨inner, hinner, rfl⟩
        | succ j => exact .inr ⟨j, d', inner, hd, hinner, by rw [Nat.add_right_comm, Nat.add_assoc]⟩

theorem itemsFrom_ne_nil {read : Datum → Checked α} (hread : ∀ d, read d ≠ .error []) (i : ℕ)
    (ds : List Datum) : itemsFrom read i ds ≠ .error [] := by
  induction ds generalizing i with
  | nil => exact nofun
  | cons d ds ih => exact both_ne_nil (within_ne_nil (hread d)) (ih (i + 1))

theorem itemsFrom_congr {read : Datum → Checked α} {d d' : Datum} (h : read d = read d')
    (front back : List Datum) (i : ℕ) :
    itemsFrom read i (front ++ d :: back) = itemsFrom read i (front ++ d' :: back) := by
  induction front generalizing i with
  | nil => simp only [List.nil_append, itemsFrom, h]
  | cons first front ih => simp only [List.cons_append, itemsFrom, ih]

section Lists

variable {item : Shape} {read : Datum → Checked α} {write : α → Datum}

theorem Validates.ordered_itemsFrom (h : Validates item read write) (i : ℕ) (ds : List Datum) :
    (itemsFrom read i ds).complaints.Pairwise fun c c' => Precedes (.list item) c.place c'.place := by
  induction ds generalizing i with
  | nil => exact .nil
  | cons d ds ih =>
      rw [itemsFrom, complaints_both, complaints_within, List.pairwise_append, List.pairwise_map]
      refine ⟨(h.ordered d).imp .item, ih (i + 1), fun c hc c' hc' => ?_⟩
      obtain ⟨inner, _, rfl⟩ := List.mem_map.mp hc
      obtain ⟨j, d', inner', _, _, rfl⟩ := mem_complaints_itemsFrom.mp hc'
      exact .index (by omega)

theorem Validates.reread_itemsFrom (h : Validates item read write) (i : ℕ) (as : List α) :
    itemsFrom read i (as.map write) = .ok as := by
  induction as generalizing i with
  | nil => rfl
  | cons a as ih => exact both_eq_ok_iff.mpr ⟨a, as, within_eq_ok_iff.mpr (h.reread a), ih (i + 1), rfl⟩

theorem Validates.list (h : Validates item read write) :
    Validates (.list item) (Record.list read) (fun as => .list (as.map write)) where
  restricts {d as} hread := by
    cases d with
    | list ds =>
        have hitems := itemsFrom_eq_ok hread
        refine .list (by rw [List.length_map, hitems.length_eq]) fun i d d' hd hd' => ?_
        rw [List.getElem?_map, Option.map_eq_some_iff] at hd'
        obtain ⟨a, ha, rfl⟩ := hd'
        obtain ⟨hi, rfl⟩ := List.getElem?_eq_some_iff.mp hd
        obtain ⟨hi', rfl⟩ := List.getElem?_eq_some_iff.mp ha
        exact h.restricts (hitems.get hi hi')
    | _ => cases hread
  nonempty d := by
    cases d with
    | list ds => exact itemsFrom_ne_nil h.nonempty 0 ds
    | _ => exact nofun
  mem_complaints {d c} := by
    obtain ⟨place, defect⟩ := c
    constructor
    · intro hc
      cases d with
      | list ds =>
          obtain ⟨j, d, inner, hd, hinner, heq⟩ := mem_complaints_itemsFrom.mp hc
          rw [Nat.zero_add] at heq
          cases heq
          exact .item hd (h.mem_complaints.mp hinner)
      | _ =>
          cases mem_complaints_complain.mp hc
          exact .notList nofun
    · intro hoffends
      cases hoffends with
      | notList hd =>
          cases d with
          | list ds => exact absurd rfl (hd ds)
          | _ => exact List.mem_cons_self
      | @item _ ds i d place _ hd hinner =>
          exact mem_complaints_itemsFrom.mpr
            ⟨i, d, ⟨place, defect⟩, hd, h.mem_complaints.mpr hinner, by rw [Nat.zero_add]⟩
  ordered d := by
    cases d with
    | list ds => exact h.ordered_itemsFrom 0 ds
    | _ => exact ordered_complain _ _
  reread as := h.reread_itemsFrom 0 as
  ignores hadds := by
    cases hadds with
    | item hadds => exact itemsFrom_congr (h.ignores hadds) _ _ 0

end Lists

end Record

end ImageTrust
