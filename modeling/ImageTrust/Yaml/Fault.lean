import ImageTrust.Text.Decimal
import ImageTrust.Text.Quoted

/-! # Faults of a YAML document

Everything that can be wrong with a document. Most faults concern its form and are reported alike; the
others concern values that have the form of a number, a date, a truth value or a character and are none.
-/

namespace ImageTrust.Yaml

/-- What is wrong with a date or a time of day. -/
inductive DateFault
  | year (year : Nat)
  | month
  | day
  | hour
  | minute
  | second
  /-- The distance to universal time, in minutes, is a day or more. -/
  | offset (minutes : Int)
  deriving DecidableEq, Repr

inductive Fault
  /-- The text is no YAML document, or a node does not fit its tag. -/
  | malformed
  | notInteger (base : Nat) (text : String)
  /-- A decimal integer of more digits than are read. -/
  | longInteger (digits : Nat)
  | notFloat (text : String)
  /-- A number without any character besides its sign. -/
  | emptyNumber
  /-- A sexagesimal number with more places than a floating-point number can weigh. -/
  | floatRange
  | notBool (text : String)
  | badDate (fault : DateFault)
  /-- A text tagged as a point in time that does not have the form of one. -/
  | notTimestamp
  /-- A mapping tagged as a point in time. -/
  | timestampOfMapping
  /-- An escape past the last code point. -/
  | codePoint (number : Nat)
  /-- A text that is defined as itself. -/
  | endlessText
  deriving DecidableEq, Repr

/-- The distance from universal time as days and seconds. -/
def offsetText (minutes : Int) : String :=
  let days := minutes.fdiv 1440
  let seconds := (minutes - days * 1440) * 60
  let rest := if seconds = 0 then "" else ", seconds=" ++ toString seconds
  "datetime.timedelta(days=" ++ toString days ++ rest ++ ")"

def DateFault.message : DateFault → String
  | .year y => "year " ++ toString y ++ " is out of range"
  | .month => "month must be in 1..12"
  | .day => "day is out of range for month"
  | .hour => "hour must be in 0..23"
  | .minute => "minute must be in 0..59"
  | .second => "second must be in 0..59"
  | .offset minutes =>
    "offset must be a timedelta strictly between -timedelta(hours=24) and timedelta(hours=24), not " ++
      offsetText minutes ++ "."

/-- The explanation of a fault; the quotation of a text that is no integer is cut at 200 characters. -/
def Fault.message : Fault → String
  | .malformed => "Invalid YAML"
  | .notInteger base text =>
    "invalid literal for int() with base " ++ toString base ++ ": " ++
      String.ofList ((Text.quoted text).toList.take 200)
  | .longInteger digits =>
    "Exceeds the limit (" ++ toString Text.longestInteger ++ " digits) for integer string conversion: " ++
      "value has " ++ toString digits ++
      " digits; use sys.set_int_max_str_digits() to increase the limit"
  | .notFloat text => "could not convert string to float: " ++ Text.quoted text
  | .emptyNumber => "string index out of range"
  | .floatRange => "int too large to convert to float"
  | .notBool text => Text.quoted text
  | .badDate fault => fault.message
  | .notTimestamp => "no timestamp"
  | .timestampOfMapping => "no timestamp"
  | .codePoint _ => "chr() arg not in range(0x110000)"
  | .endlessText => "endless text"

end ImageTrust.Yaml
