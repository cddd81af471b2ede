import ImageTrust.Proofs.Lookup
import ImageTrust.Proofs.Record.Values

/-! # Fields and shapes

What it means that a reader of some fields validates them. Such readers are made of readers of one field,
and a record is read by one of them.
-/

namespace ImageTrust

namespace Record

variable {α β γ : Type}

/-! ## Readers of fields -/

/-- What two records hold in a field is the same, up to a field that is added inside it. -/
def Alike (shape : Shape) (o o' : Option Datum) : Prop :=
  o = o' ∨ ∃ d d', o = some d ∧ o' = some d' ∧ Adds shape d d'

/-- A reader of some fields of a record does with them what is to be done with a record that knows no
others. -/
structure ValidatesFields (known : List (Field Shape)) (read : List (String × Datum) → Checked α)
    (write : α → List (String × Datum)) : Prop where
  names (a : α) : (write a).map Prod.fst = known.map Field.name
  restricts {fields : List (String × Datum)} {a : α} : read fields = .ok a →
    Restricts (.record known) (.record fields) (.record (write a))
  nonempty (fields : List (String × Datum)) : read fields ≠ .error []
  mem_complaints {fields : List (String × Datum)} {c : Complaint} :
    c ∈ (read fields).complaints ↔ Offends (.record known) (.record fields) c.place c.defect
  ordered (fields : List (String × Datum)) :
    (read fields).complaints.Pairwise fun c c' => Precedes (.record known) c.place c'.place
  reread {fields : List (String × Datum)} {a : α} :
    (∀ f ∈ known, Datum.field? fields f.name = Datum.field? (write a) f.name) → read fields = .ok a
  ignores {fields fields' : List (String × Datum)} :
    (∀ f ∈ known, Alike f.shape (Datum.field? fields f.name) (Datum.field? fields' f.name)) →
      read fields = read fields'

/-! ### One field -/

theorem field?_singleton (name : String) (d : Datum) : Datum.field? [(name, d)] name = some d := by
  simp [Datum.field?]

section Fields

variable {name : String} {default : Option Datum} {shape : Shape} {read : Datum → Checked α}
  {write : α → Datum} {fields : List (String × Datum)}

/-- The record of one field that holds something. -/
theorem Restricts.singleton {d d' : Datum} (hd : Datum.field? fields name = some d)
    (h : Restricts shape d d') :
    Restricts (.record [⟨name, default, shape⟩]) (.record fields) (.record [(name, d')]) := by
  refine .record rfl (fun f hf hnone => ?_) fun f hf d₁ d₂ h₁ h₂ => ?_
  · rw [List.mem_singleton.mp hf, hd] at hnone
    cases hnone
  · rw [List.mem_singleton.mp hf] at h₁ h₂ ⊢
    cases hd.symm.trans h₁
    cases (field?_singleton name d').symm.trans h₂
    exact h

theorem Validates.mem_complaints_within (h : Validates shape read write) {d : Datum}
    (hd : Datum.field? fields name = some d) {c : Complaint} :
    c ∈ (within (.field name) (read d)).complaints ↔
      Offends (.record [⟨name, default, shape⟩]) (.record fields) c.place c.defect := by
  obtain ⟨place, defect⟩ := c
  rw [complaints_within, List.mem_map]
  constructor
  · rintro ⟨inner, hinner, heq⟩
    cases heq
    exact .field (List.mem_singleton_self _) hd (h.mem_complaints.mp hinner)
  · intro hoffends
    cases hoffends with
    | notRecord hd => exact absurd rfl (hd fields)
    | missing hf _ hnone =>
        rw [List.mem_singleton.mp hf, hd] at hnone
        cases hnone
    | @field _ _ f d' place _ hf hd' hinner =>
        cases List.mem_singleton.mp hf
        cases hd.symm.trans hd'
        exact ⟨⟨place, defect⟩, h.mem_complaints.mpr hinner, rfl⟩

theorem Validates.ordered_within (h : Validates shape read write) (d : Datum) :
    (within (.field name) (read d)).complaints.Pairwise fun c c' =>
      Precedes (.record [⟨name, default, shape⟩]) c.place c'.place := by
  rw [complaints_within, List.pairwise_map]
  exact (h.ordered d).imp (.field (List.mem_singleton_self (⟨name, default, shape⟩ : Field Shape)))

/-- What a reader of a field gives if the field is not there. -/
inductive Absent (name : String) (write : α → Datum) : Option Datum → Checked α → Prop
  | missing : Absent name write none (.error [⟨[.field name], .missing⟩])
  | filled (a : α) : Absent name write (some (write a)) (.ok a)

theorem Absent.mem_complaints {absent : Checked α} (h : Absent name write default absent)
    (hd : Datum.field? fields name = none) {c : Complaint} : c ∈ absent.complaints ↔
      Offends (.record [⟨name, default, shape⟩]) (.record fields) c.place c.defect := by
  obtain ⟨place, defect⟩ := c
  constructor
  · intro hc
    cases h with
    | missing =>
        cases List.mem_singleton.mp hc
        exact .missing (List.mem_singleton_self (⟨name, none, shape⟩ : Field Shape)) rfl hd
    | filled a => cases hc
  · intro hoffends
    cases hoffends with
    | notRecord hd => exact absurd rfl (hd fields)
    | missing hf hdefault _ =>
        cases List.mem_singleton.mp hf
        cases hdefault
        cases h
        exact List.mem_singleton_self _
    | field hf hd' _ =>
        rw [List.mem_singleton.mp hf, hd] at hd'
        cases hd'

theorem Absent.restricts {a : α} (h : Absent name write default (.ok a))
    (hd : Datum.field? fields name = none) :
    Restricts (.record [⟨name, default, shape⟩]) (.record fields) (.record [(name, write a)]) := by
  cases h
  refine .record rfl (fun f hf _ => ?_) fun f hf d d' hsome _ => ?_
  · rw [List.mem_singleton.mp hf]
    exact field?_singleton name (write a)
  · rw [List.mem_singleton.mp hf, hd] at hsome
    cases hsome

/-- A reader of one field, by what it does with a field that is there and without one. -/
theorem Validates.field {reader : List (String × Datum) → Checked α} {absent : Checked α}
    (h : Validates shape read write) (habsent : Absent name write default absent)
    (hnone : ∀ fields, Datum.field? fields name = none → reader fields = absent)
    (hsome : ∀ fields d, Datum.field? fields name = some d →
      reader fields = within (.field name) (read d)) :
    ValidatesFields [⟨name, default, shape⟩] reader (fun a => [(name, write a)]) where
  names a := rfl
  restricts {fields a} hread := by
    cases hd : Datum.field? fields name with
    | none =>
        rw [hnone fields hd] at hread
        exact (hread ▸ habsent).restricts hd
    | some d =>
        rw [hsome fields d hd, within_eq_ok_iff] at hread
        exact .singleton hd (h.restricts hread)
  nonempty fields := by
    cases hd : Datum.field? fields name with
    | none =>
        rw [hnone fields hd]
        cases habsent <;> exact nofun
    | some d =>
        rw [hsome fields d hd]
        exact within_ne_nil (h.nonempty d)
  mem_complaints {fields c} := by
    cases hd : Datum.field? fields name with
    | none =>
        rw [hnone fields hd]
        exact habsent.mem_complaints hd
    | some d =>
        rw [hsome fields d hd]
        exact h.mem_complaints_within hd
  ordered fields := by
    cases hd : Datum.field? fields name with
    | none =>
        rw [hnone fields hd]
        cases habsent <;> simp [Checked.complaints]
    | some d =>
        rw [hsome fields d hd]
        exact h.ordered_within d
  reread {fields a} hfields := by
    have hd := (hfields _ (List.mem_singleton_self _)).trans (field?_singleton name (write a))
    rw [hsome fields _ hd]
    exact within_eq_ok_iff.mpr (h.reread a)
  ignores {fields fields'} hfields := by
    obtain heq | ⟨d, d', hd, hd', hadds⟩ := hfields _ (List.mem_singleton_self _)
    · cases hd : Datum.field? fields name with
      | none => rw [hnone fields hd, hnone fields' (heq.symm.trans hd)]
      | some d => rw [hsome fields d hd, hsome fields' d (heq.symm.trans hd)]
    · rw [hsome fields d hd, hsome fields' d' hd', h.ignores hadds]

theorem Validates.required (h : Validates shape read write) (name : String) :
    ValidatesFields [⟨name, none, shape⟩] (fun fields => Record.required read fields name)
      (fun a => [(name, write a)]) := by
  refine h.field .missing (fun fields hd => ?_) fun fields d hd => ?_
  · rw [Record.required, hd]
    rfl
  · rw [Record.required, hd]

theorem Validates.withDefault (h : Validates shape read write) (a : α) (name : String) :
    ValidatesFields [⟨name, some (write a), shape⟩] (fun fields => Record.withDefault a read fields name)
      (fun a => [(name, write a)]) := by
  refine h.field (.filled a) (fun fields hd => ?_) fun fields d hd => ?_
  · rw [Record.withDefault, hd]
  · rw [Record.withDefault, hd]

end Fields

/-! ### Several fields -/

theorem field?_eq_none_iff {fields : List (String × Datum)} {name : String} :
    Datum.field? fields name = none ↔ name ∉ fields.map Prod.fst := by
  rw [Datum.field?, lookup_eq_none_iff_key, List.map_reverse, List.mem_reverse]

theorem field?_append_of_not_mem {fields others : List (String × Datum)} {name : String}
    (h : name ∉ others.map Prod.fst) :
    Datum.field? (fields ++ others) name = Datum.field? fields name := by
  rw [field?_append, field?_eq_none_iff.mpr h, Option.none_or]

theorem field?_append_of_mem {fields others : List (String × Datum)} {name : String}
    (h : name ∈ others.map Prod.fst) :
    Datum.field? (fields ++ others) name = Datum.field? others name := by
  have hsome : Datum.field? others name ≠ none := fun hnone => field?_eq_none_iff.mp hnone h
  rw [field?_append, Option.or_of_isSome (Option.isSome_iff_ne_none.mpr hsome)]

section Append

variable {known known' : List (Field Shape)} {fields : List (String × Datum)}

theorem offends_append_iff {place : List Step} {defect : Defect} :
    Offends (.record (known ++ known')) (.record fields) place defect ↔
      Offends (.record known) (.record fields) place defect ∨
        Offends (.record known') (.record fields) place defect := by
  constructor
  · intro h
    cases h with
    | notRecord h => exact absurd rfl (h fields)
    | missing hf hdefault hd =>
        exact (List.mem_append.mp hf).imp (.missing · hdefault hd) (.missing · hdefault hd)
    | field hf hd h => exact (List.mem_append.mp hf).imp (.field · hd h) (.field · hd h)
  · rintro (h | h)
    · cases h with
      | notRecord h => exact absurd rfl (h fields)
      | missing hf hdefault hd => exact .missing (List.mem_append_left _ hf) hdefault hd
      | field hf hd h => exact .field (List.mem_append_left _ hf) hd h
    · cases h with
      | notRecord h => exact absurd rfl (h fields)
      | missing hf hdefault hd => exact .missing (List.mem_append_right _ hf) hdefault hd
      | field hf hd h => exact .field (List.mem_append_right _ hf) hd h

/-- Each place in which a record differs is in a field that is known. -/
theorem Offends.exists_field {place : List Step} {defect : Defect}
    (h : Offends (.record known) (.record fields) place defect) :
    ∃ f ∈ known, ∃ rest, place = .field f.name :: rest := by
  cases h with
  | notRecord h => exact absurd rfl (h fields)
  | missing hf _ _ => exact ⟨_, hf, _, rfl⟩
  | field hf _ _ => exact ⟨_, hf, _, rfl⟩

theorem Precedes.of_sublist {p q : List Step} (h : Precedes (.record known) p q)
    (hknown : known.Sublist known') : Precedes (.record known') p q := by
  cases h with
  | fields hne h => exact .fields hne (h.trans (hknown.map _))
  | field hf h => exact .field (hknown.mem hf) h

theorem Restricts.append {out out' : List (String × Datum)}
    (hnodup : ((known ++ known').map Field.name).Nodup)
    (h : Restricts (.record known) (.record fields) (.record out))
    (h' : Restricts (.record known') (.record fields) (.record out')) :
    Restricts (.record (known ++ known')) (.record fields) (.record (out ++ out')) := by
  cases h with
  | record hnames hdefault hfield =>
  cases h' with
  | record hnames' hdefault' hfield' =>
  rw [List.map_append, List.nodup_append] at hnodup
  have hleft : ∀ f ∈ known, Datum.field? (out ++ out') f.name = Datum.field? out f.name := fun f hf =>
    field?_append_of_not_mem (hnames' ▸ fun hmem => hnodup.2.2 _ (List.mem_map_of_mem hf) _ hmem rfl)
  have hright : ∀ f ∈ known', Datum.field? (out ++ out') f.name = Datum.field? out' f.name := fun f hf =>
    field?_append_of_mem (hnames' ▸ List.mem_map_of_mem hf)
  refine .record (by rw [List.map_append, List.map_append, hnames, hnames']) (fun f hf hd => ?_)
    fun f hf d d' hd hd' => ?_
  · obtain hf | hf := List.mem_append.mp hf
    · rw [hleft f hf]
      exact hdefault f hf hd
    · rw [hright f hf]
      exact hdefault' f hf hd
  · obtain hf | hf := List.mem_append.mp hf
    · rw [hleft f hf] at hd'
      exact hfield f hf d d' hd hd'
    · rw [hright f hf] at hd'
      exact hfield' f hf d d' hd hd'

end Append

/-- A reader of some fields and one of others behind them. -/
theorem ValidatesFields.both {known known' : List (Field Shape)}
    {read : List (String × Datum) → Checked α} {read' : List (String × Datum) → Checked β}
    {write : α → List (String × Datum)} {write' : β → List (String × Datum)} {make : α → β → γ}
    {writeBoth : γ → List (String × Datum)} (h : ValidatesFields known read write)
    (h' : ValidatesFields known' read' write') (hnodup : ((known ++ known').map Field.name).Nodup)
    (hmake : ∀ c, ∃ a b, make a b = c) (hwrite : ∀ a b, writeBoth (make a b) = write a ++ write' b) :
    ValidatesFields (known ++ known') (fun fields => Record.both make (read fields) (read' fields))
      writeBoth where
  names c := by
    obtain ⟨a, b, rfl⟩ := hmake c
    rw [hwrite, List.map_append, List.map_append, h.names, h'.names]
  restricts {fields c} hread := by
    obtain ⟨a, b, ha, hb, rfl⟩ := both_eq_ok_iff.mp hread
    rw [hwrite]
    exact (h.restricts ha).append hnodup (h'.restricts hb)
  nonempty fields := both_ne_nil (h.nonempty fields) (h'.nonempty fields)
  mem_complaints {fields c} := by
    rw [complaints_both, List.mem_append, h.mem_complaints, h'.mem_complaints, offends_append_iff]
  ordered fields := by
    rw [complaints_both, List.pairwise_append]
    refine ⟨(h.ordered fields).imp (·.of_sublist (List.sublist_append_left _ _)),
      (h'.ordered fields).imp (·.of_sublist (List.sublist_append_right _ _)), fun c hc c' hc' => ?_⟩
    -- what the first reader complains about is in a field that comes before those of the second
    obtain ⟨f, hf, rest, hplace⟩ := (h.mem_complaints.mp hc).exists_field
    obtain ⟨f', hf', rest', hplace'⟩ := (h'.mem_complaints.mp hc').exists_field
    rw [hplace, hplace']
    rw [List.map_append, List.nodup_append] at hnodup
    have hne := hnodup.2.2 _ (List.mem_map_of_mem hf) _ (List.mem_map_of_mem hf')
    refine .fields hne ?_
    rw [List.map_append]
    exact (List.singleton_sublist.mpr (List.mem_map_of_mem hf)).append
      (List.singleton_sublist.mpr (List.mem_map_of_mem hf'))
  reread {fields c} hfields := by
    obtain ⟨a, b, rfl⟩ := hmake c
    rw [List.map_append, List.nodup_append] at hnodup
    have hleft : ∀ f ∈ known, Datum.field? fields f.name = Datum.field? (write a) f.name := by
      intro f hf
      rw [hfields f (List.mem_append_left _ hf), hwrite]
      refine field?_append_of_not_mem ?_
      rw [h'.names]
      exact fun hmem => hnodup.2.2 _ (List.mem_map_of_mem hf) _ hmem rfl
    have hright : ∀ f ∈ known', Datum.field? fields f.name = Datum.field? (write' b) f.name := by
      intro f hf
      rw [hfields f (List.mem_append_right _ hf), hwrite]
      exact field?_append_of_mem (h'.names b ▸ List.mem_map_of_mem hf)
    exact both_eq_ok_iff.mpr ⟨a, b, h.reread hleft, h'.reread hright, rfl⟩
  ignores {fields fields'} hfields := by
    rw [h.ignores fun f hf => hfields f (List.mem_append_left _ hf),
      h'.ignores fun f hf => hfields f (List.mem_append_right _ hf)]

theorem ValidatesFields.pair {known known' : List (Field Shape)}
    {read : List (String × Datum) → Checked α} {read' : List (String × Datum) → Checked β}
    {write : α → List (String × Datum)} {write' : β → List (String × Datum)}
    (h : ValidatesFields known read write) (h' : ValidatesFields known' read' write')
    (hnodup : ((known ++ known').map Field.name).Nodup) :
    ValidatesFields (known ++ known') (fun fields => Record.both Prod.mk (read fields) (read' fields))
      (fun p => write p.1 ++ write' p.2) :=
  h.both h' hnodup (fun p => ⟨p.1, p.2, rfl⟩) fun _ _ => rfl

/-! ### Records -/

theorem field?_middle (front back : List (String × Datum)) (entry : String × Datum) (name : String) :
    Datum.field? (front ++ entry :: back) name =
      ((Datum.field? back name).or (Datum.field? [entry] name)).or (Datum.field? front name) := by
  rw [field?_append, ← List.singleton_append, field?_append]

theorem field?_singleton_of_ne {name other : String} (d : Datum) (h : name ≠ other) :
    Datum.field? [(other, d)] name = none :=
  field?_eq_none_iff.mpr (by simpa using h)

theorem Adds.alike {known : List (Field Shape)} {fields fields' : List (String × Datum)}
    (h : Adds (.record known) (.record fields) (.record fields'))
    (hnodup : (known.map Field.name).Nodup) {f : Field Shape} (hf : f ∈ known) :
    Alike f.shape (Datum.field? fields f.name) (Datum.field? fields' f.name) := by
  cases h with
  | @here _ front back name d hname =>
      have hne : f.name ≠ name := fun heq => hname (heq ▸ List.mem_map_of_mem hf)
      rw [field?_append, field?_middle, field?_singleton_of_ne d hne, Option.or_none]
      exact .inl rfl
  | @field _ front back f' d d' hf' hadds =>
      rw [field?_middle, field?_middle]
      by_cases heq : f = f'
      · subst heq
        rw [field?_singleton, field?_singleton]
        -- a field of the same name further back hides the one that changes
        cases Datum.field? back f.name with
        | some inner => exact .inl rfl
        | none => exact .inr ⟨d, d', rfl, rfl, hadds⟩
      · have hne : f.name ≠ f'.name := fun hname => heq (List.inj_on_of_nodup_map hnodup hf hf' hname)
        rw [field?_singleton_of_ne d hne, field?_singleton_of_ne d' hne]
        exact .inl rfl

theorem ValidatesFields.record {known : List (Field Shape)} {read : List (String × Datum) → Checked α}
    {write : α → List (String × Datum)} (h : ValidatesFields known read write)
    (hnodup : (known.map Field.name).Nodup) :
    Validates (.record known) (ofFields read) (fun a => .record (write a)) where
  restricts {d a} hread := by
    cases d with
    | record fields => exact h.restricts hread
    | _ => cases hread
  nonempty d := by
    cases d with
    | record fields => exact h.nonempty fields
    | _ => exact nofun
  mem_complaints {d c} := by
    constructor
    · intro hc
      cases d with
      | record fields => exact h.mem_complaints.mp hc
      | _ =>
          cases mem_complaints_complain.mp hc
          exact .notRecord nofun
    · intro hoffends
      cases d with
      | record fields => exact h.mem_complaints.mpr hoffends
      | _ =>
          obtain ⟨place, defect⟩ := c
          cases hoffends
          exact List.mem_cons_self
  ordered d := by
    cases d with
    | record fields => exact h.ordered fields
    | _ => exact ordered_complain _ _
  reread a := h.reread fun _ _ => rfl
  ignores {d d'} hadds := by
    cases d with
    | record fields =>
        cases d' with
        | record fields' => exact h.ignores fun f hf => hadds.alike hnodup hf
        | _ => cases hadds
    | _ => cases hadds

end Record

end ImageTrust
