import ImageTrust.Datum
import ImageTrust.Text.Base64
import ImageTrust.Yaml.Numeral

/-! # Scalars

A text together with the kind of value it stands for.
-/

namespace ImageTrust.Yaml

structure Scalar where
  tag : Tag
  text : String
  deriving DecidableEq, Repr

/-- Whether a text is one of the truth values, letters of either case alike. -/
def isBoolWord (text : String) : Bool :=
  Tag.boolWords.contains (String.ofList (text.toList.map Char.toLower))

/-- The bytes that a text in base 64 stands for. -/
def readBinary (text : String) : Except Fault (List UInt8) :=
  if text.toList.all (·.toNat < 0x80) then
    match Text.base64? text.toList with
    | some bytes => .ok bytes
    | none => .error .malformed
  else .error .malformed

/-- A fault of a text that is tagged as a point in time, if it has one. -/
def checkTimestamp (text : String) : Except Fault Unit :=
  match Timestamp.read? (Tag.dropFinalBreak text.toList) with
  | none => .error .notTimestamp
  | some t => t.check.mapError .badDate

/-- The value of a scalar. The kinds of collections and unknown kinds have no scalars. -/
def Scalar.read (s : Scalar) : Except Fault Datum :=
  match s.tag with
  | .null => .ok .null
  | .str => .ok (.text s.text)
  | .binary => (readBinary s.text).map .bytes
  | .bool => if isBoolWord s.text then .ok .other else .error (.notBool s.text)
  | .int => (checkInteger s.text).map fun _ => .other
  | .float => (checkFloat s.text).map fun _ => .other
  | .timestamp => (checkTimestamp s.text).map fun _ => .other
  | _ => .error .malformed

end ImageTrust.Yaml
