/-! # Data

Data without a schema, as far as configurations and plans tell them apart: numbers, truth values and
dates are all alike.
-/

namespace ImageTrust

inductive Datum
  | null
  | text (s : String)
  | bytes (bs : List UInt8)
  | list (items : List Datum)
  /-- Named fields. Of several fields with one name the last one counts. -/
  | record (fields : List (String × Datum))
  | other
  deriving Inhabited

/-- A field of a record. -/
def Datum.field? (fields : List (String × Datum)) (name : String) : Option Datum :=
  fields.reverse.lookup name

end ImageTrust
