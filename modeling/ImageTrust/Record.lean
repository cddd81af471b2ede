import ImageTrust.Datum
import ImageTrust.Text.Utf8

/-! # Reading records

Reading typed values out of data. All complaints about a value are collected, each with the place it
concerns, in the order of the fields and items.
-/

namespace ImageTrust

/-- A step from a value to a value inside it. -/
inductive Step
  | field (name : String)
  | index (i : Nat)
  deriving DecidableEq, Repr

/-- What is wrong in one place. -/
inductive Defect
  | missing
  | notText
  | notUtf8
  | notList
  /-- The value is none of those that are allowed. -/
  | notAllowed
  | notRecord
  deriving DecidableEq, Repr

/-- A defect and the way to it. -/
structure Complaint where
  place : List Step
  defect : Defect
  deriving DecidableEq, Repr

/-- A value, or everything that is wrong with the data it was to be read from. -/
abbrev Checked (α : Type) := Except (List Complaint) α

namespace Record

/-- A complaint about a value as a whole. -/
def complain {α : Type} (defect : Defect) : Checked α :=
  .error [⟨[], defect⟩]

/-- What was read at the end of a step. -/
def within {α : Type} (step : Step) : Checked α → Checked α
  | .ok a => .ok a
  | .error complaints => .error (complaints.map fun c => { c with place := step :: c.place })

/-- Both of two values, or the complaints about either. -/
def both {α β γ : Type} (f : α → β → γ) : Checked α → Checked β → Checked γ
  | .ok a, .ok b => .ok (f a b)
  | .ok _, .error cs => .error cs
  | .error cs, .ok _ => .error cs
  | .error cs, .error ds => .error (cs ++ ds)

/-! ## Values -/

/-- A text, or bytes that spell one. -/
def text : Datum → Checked String
  | .text s => .ok s
  | .bytes bs =>
    match Text.decodeFrom 0 bs with
    | .ok cs => .ok (String.ofList cs)
    | .error _ => complain .notUtf8
  | _ => complain .notText

/-- A value that may be absent. -/
def optional {α : Type} (read : Datum → Checked α) : Datum → Checked (Option α)
  | .null => .ok none
  | d => (read d).map some

/-- One of the values that have a name. -/
def named {α : Type} (ofName? : String → Option α) : Datum → Checked α
  | .text s =>
    match ofName? s with
    | some a => .ok a
    | none => complain .notAllowed
  | _ => complain .notAllowed

/-- Items from an index on. -/
def itemsFrom {α : Type} (read : Datum → Checked α) (i : Nat) : List Datum → Checked (List α)
  | [] => .ok []
  | d :: ds => both (· :: ·) (within (.index i) (read d)) (itemsFrom read (i + 1) ds)

def list {α : Type} (read : Datum → Checked α) : Datum → Checked (List α)
  | .list ds => itemsFrom read 0 ds
  | _ => complain .notList

/-! ## Fields -/

/-- A field that has to be there. -/
def required {α : Type} (read : Datum → Checked α) (fields : List (String × Datum))
    (name : String) : Checked α :=
  within (.field name) <|
    match Datum.field? fields name with
    | some d => read d
    | none => complain .missing

/-- A field with a value for the case that it is not there. -/
def withDefault {α : Type} (default : α) (read : Datum → Checked α)
    (fields : List (String × Datum)) (name : String) : Checked α :=
  match Datum.field? fields name with
  | some d => within (.field name) (read d)
  | none => .ok default

/-- A record, of which `read` reads the fields it knows. -/
def ofFields {α : Type} (read : List (String × Datum) → Checked α) : Datum → Checked α
  | .record fields => read fields
  | _ => complain .notRecord

end Record

end ImageTrust
