import ImageTrust.Proofs.Record.Complaints
import Mathlib.Data.List.Nodup

/-! # Shapes of data

The shape that data should have, what fits it, what of it is kept, and every place where other data
differs from it. The rules do not invoke the readers.
-/

namespace ImageTrust

/-! ## Places -/

/-- The value that some steps lead to. -/
def Datum.at? (d : Datum) : List Step → Option Datum
  | [] => some d
  | .field name :: place =>
    match d with
    | .record fields => (Datum.field? fields name).bind fun inner => inner.at? place
    | _ => none
  | .index i :: place =>
    match d with
    | .list items => items[i]?.bind fun inner => inner.at? place
    | _ => none

/-- The steps lead to a value, or to a record that lacks the field of the last step. -/
def Datum.LeadsTo (d : Datum) (place : List Step) : Defect → Prop
  | .missing => ∃ front name fields, place = front ++ [.field name] ∧
      d.at? front = some (.record fields) ∧ Datum.field? fields name = none
  | _ => (d.at? place).isSome

namespace Record

/-! ## Shapes -/

/-- A field of a record. It may be left out if there is a default for it. -/
structure Field (σ : Type) where
  name : String
  default : Option Datum
  shape : σ

inductive Shape
  | text
  /-- The shape, or null. -/
  | optional (shape : Shape)
  | oneOf (names : List String)
  | list (item : Shape)
  | record (fields : List (Field Shape))

/-- Data that spells a text. Bytes do if they are valid; JSON has none. -/
inductive Spells : Datum → String → Prop
  | text (s : String) : Spells (.text s) s
  | bytes {bs : List UInt8} {cs : List Char} (h : Text.decodeFrom 0 bs = .ok cs) :
      Spells (.bytes bs) (String.ofList cs)

/-- Data of a shape: what a record knows is of its shape, and nothing that it requires is missing. -/
inductive Fits : Shape → Datum → Prop
  | text {d : Datum} {s : String} (h : Spells d s) : Fits .text d
  | null (shape : Shape) : Fits (.optional shape) .null
  | optional {shape : Shape} {d : Datum} (h : Fits shape d) : Fits (.optional shape) d
  | oneOf {names : List String} {name : String} (h : name ∈ names) : Fits (.oneOf names) (.text name)
  | list {item : Shape} {items : List Datum} (h : ∀ d ∈ items, Fits item d) :
      Fits (.list item) (.list items)
  | record {known : List (Field Shape)} {fields : List (String × Datum)}
      (hrequired : ∀ f ∈ known, f.default = none → Datum.field? fields f.name ≠ none)
      (hfield : ∀ f ∈ known, ∀ d, Datum.field? fields f.name = some d → Fits f.shape d) :
      Fits (.record known) (.record fields)

/-- What is kept of data of a shape: a record is restricted to the fields it knows, in their order, and
defaults are filled in. -/
inductive Restricts : Shape → Datum → Datum → Prop
  | text {d : Datum} {s : String} (h : Spells d s) : Restricts .text d (.text s)
  | null (shape : Shape) : Restricts (.optional shape) .null .null
  | optional {shape : Shape} {d d' : Datum} (hd : d ≠ .null) (h : Restricts shape d d') :
      Restricts (.optional shape) d d'
  | oneOf {names : List String} {name : String} (h : name ∈ names) :
      Restricts (.oneOf names) (.text name) (.text name)
  | list {item : Shape} {items items' : List Datum} (hlength : items'.length = items.length)
      (h : ∀ (i : ℕ) (d d' : Datum), items[i]? = some d → items'[i]? = some d' → Restricts item d d') :
      Restricts (.list item) (.list items) (.list items')
  | record {known : List (Field Shape)} {fields fields' : List (String × Datum)}
      (hnames : fields'.map Prod.fst = known.map Field.name)
      (hdefault : ∀ f ∈ known, Datum.field? fields f.name = none →
        Datum.field? fields' f.name = f.default)
      (hfield : ∀ f ∈ known, ∀ d d', Datum.field? fields f.name = some d →
        Datum.field? fields' f.name = some d' → Restricts f.shape d d') :
      Restricts (.record known) (.record fields) (.record fields')

/-- A place in which data differs from a shape, and how. Only innermost places count: a list or a record
that is one does not differ itself, whatever is inside it. -/
inductive Offends : Shape → Datum → List Step → Defect → Prop
  | notText {d : Datum} (htext : ∀ s, d ≠ .text s) (hbytes : ∀ bs, d ≠ .bytes bs) :
      Offends .text d [] .notText
  | notUtf8 {bs : List UInt8} (h : ∀ s, ¬ Spells (.bytes bs) s) : Offends .text (.bytes bs) [] .notUtf8
  | notAllowed {names : List String} {d : Datum} (h : ∀ name ∈ names, d ≠ .text name) :
      Offends (.oneOf names) d [] .notAllowed
  | notList {item : Shape} {d : Datum} (h : ∀ items, d ≠ .list items) : Offends (.list item) d [] .notList
  | notRecord {known : List (Field Shape)} {d : Datum} (h : ∀ fields, d ≠ .record fields) :
      Offends (.record known) d [] .notRecord
  | optional {shape : Shape} {d : Datum} {place : List Step} {defect : Defect} (hd : d ≠ .null)
      (h : Offends shape d place defect) : Offends (.optional shape) d place defect
  | item {item : Shape} {items : List Datum} {i : ℕ} {d : Datum} {place : List Step} {defect : Defect}
      (hd : items[i]? = some d) (h : Offends item d place defect) :
      Offends (.list item) (.list items) (.index i :: place) defect
  | missing {known : List (Field Shape)} {fields : List (String × Datum)} {f : Field Shape}
      (hf : f ∈ known) (hdefault : f.default = none) (hd : Datum.field? fields f.name = none) :
      Offends (.record known) (.record fields) [.field f.name] .missing
  | field {known : List (Field Shape)} {fields : List (String × Datum)} {f : Field Shape} {d : Datum}
      {place : List Step} {defect : Defect} (hf : f ∈ known) (hd : Datum.field? fields f.name = some d)
      (h : Offends f.shape d place defect) :
      Offends (.record known) (.record fields) (.field f.name :: place) defect

/-- One place comes before another one: in the order of the fields of a record and of the items of a
list. -/
inductive Precedes : Shape → List Step → List Step → Prop
  | index {item : Shape} {i j : ℕ} {p q : List Step} (h : i < j) :
      Precedes (.list item) (.index i :: p) (.index j :: q)
  | item {item : Shape} {i : ℕ} {p q : List Step} (h : Precedes item p q) :
      Precedes (.list item) (.index i :: p) (.index i :: q)
  | fields {known : List (Field Shape)} {name name' : String} {p q : List Step} (hne : name ≠ name')
      (h : [name, name'].Sublist (known.map Field.name)) :
      Precedes (.record known) (.field name :: p) (.field name' :: q)
  | field {known : List (Field Shape)} {f : Field Shape} {p q : List Step} (hf : f ∈ known)
      (h : Precedes f.shape p q) : Precedes (.record known) (.field f.name :: p) (.field f.name :: q)
  | optional {shape : Shape} {p q : List Step} (h : Precedes shape p q) : Precedes (.optional shape) p q

/-- A field that a record does not know is added, in the data or somewhere inside it. -/
inductive Adds : Shape → Datum → Datum → Prop
  | here {known : List (Field Shape)} {front back : List (String × Datum)} {name : String} (d : Datum)
      (h : name ∉ known.map Field.name) :
      Adds (.record known) (.record (front ++ back)) (.record (front ++ (name, d) :: back))
  | field {known : List (Field Shape)} {front back : List (String × Datum)} {f : Field Shape}
      {d d' : Datum} (hf : f ∈ known) (h : Adds f.shape d d') :
      Adds (.record known) (.record (front ++ (f.name, d) :: back))
        (.record (front ++ (f.name, d') :: back))
  | item {item : Shape} {front back : List Datum} {d d' : Datum} (h : Adds item d d') :
      Adds (.list item) (.list (front ++ d :: back)) (.list (front ++ d' :: back))
  | optional {shape : Shape} {d d' : Datum} (h : Adds shape d d') : Adds (.optional shape) d d'

/-! ## Facts about shapes -/

theorem Offends.leadsTo {shape : Shape} {d : Datum} {place : List Step} {defect : Defect}
    (h : Offends shape d place defect) : d.LeadsTo place defect := by
  induction h with
  | notText => rfl
  | notUtf8 => rfl
  | notAllowed => rfl
  | notList => rfl
  | notRecord => rfl
  | optional _ _ ih => exact ih
  | @item _ items i d place defect hd _ ih =>
      cases defect with
      | missing =>
          obtain ⟨front, name, fields, rfl, hat, hnone⟩ := ih
          exact ⟨.index i :: front, name, fields, rfl, by simp [Datum.at?, hd, hat], hnone⟩
      | _ => simpa [Datum.LeadsTo, Datum.at?, hd] using ih
  | @missing _ fields f _ _ hd => exact ⟨[], f.name, fields, rfl, rfl, hd⟩
  | @field _ fields f d place defect _ hd _ ih =>
      cases defect with
      | missing =>
          obtain ⟨front, name, inner, rfl, hat, hnone⟩ := ih
          exact ⟨.field f.name :: front, name, inner, rfl, by simp [Datum.at?, hd, hat], hnone⟩
      | _ => simpa [Datum.LeadsTo, Datum.at?, hd] using ih

/-- No place comes before itself. -/
theorem Precedes.ne {shape : Shape} {p q : List Step} (h : Precedes shape p q) : p ≠ q := by
  induction h with
  | index h =>
      intro heq
      simp only [List.cons.injEq, Step.index.injEq] at heq
      omega
  | item _ ih => simpa using ih
  | fields hne _ =>
      intro heq
      simp only [List.cons.injEq, Step.field.injEq] at heq
      exact hne heq.1
  | field _ _ ih => simpa using ih
  | optional _ ih => exact ih

theorem Adds.ne_null {shape : Shape} {d d' : Datum} (h : Adds shape d d') : d ≠ .null ∧ d' ≠ .null := by
  induction h with
  | optional _ ih => exact ih
  | _ => exact ⟨nofun, nofun⟩

end Record

end ImageTrust
