import ImageTrust.Text.Blank
import ImageTrust.Text.Decimal
import ImageTrust.Text.Lower
import ImageTrust.Yaml.Fault
import ImageTrust.Yaml.Tag

/-! # Numerals

Whether a text tagged as a number spells one. Low lines between digits do not count, digits of all
scripts do, and colons separate the places of a sexagesimal number.
-/

namespace ImageTrust.Yaml

/-- White space that may surround a numeral. -/
def isNumeralSpace (c : Char) : Bool :=
  (0x09 ≤ c.toNat && c.toNat ≤ 0x0D) || c = ' ' || (0x80 ≤ c.toNat && Text.isBlank c)

/-- The value of a digit in bases up to 16. -/
def digitValue? (c : Char) : Option Nat :=
  (Text.decimalDigit? c).or (Text.hexDigit? c)

/-- A text without the prefix that may announce its base. -/
def dropBase (base : Nat) (cs : List Char) : List Char :=
  match cs with
  | '0' :: c :: rest =>
    if (base = 16 && (c = 'x' || c = 'X')) || (base = 8 && (c = 'o' || c = 'O')) ||
        (base = 2 && (c = 'b' || c = 'B')) then rest
    else cs
  | _ => cs

/-- Whether a character is a digit in a base. -/
def isDigitIn (base : Nat) (c : Char) : Bool :=
  (digitValue? c).any (· < base)

/-- The characters of an integer behind its sign and the prefix that may announce its base. -/
def integerDigits (base : Nat) (cs : List Char) : List Char :=
  dropBase base (Tag.unsigned (Text.dropAround isNumeralSpace cs))

/-- A fault of a text as an integer in a base, if it has one. The digits of an integer in base ten are
counted up to the first character that is none. -/
def checkIntegerIn (base : Nat) (cs : List Char) : Except Fault Unit :=
  let digits := integerDigits base cs
  let count := (digits.takeWhile (isDigitIn base)).length
  if base = 10 && Text.longestInteger < count then .error (.longInteger count)
  else if !digits.isEmpty && digits.all (isDigitIn base) then .ok ()
  else .error (.notInteger base (String.ofList cs))

/-- A fault of a text that is tagged as an integer, if it has one. -/
def checkInteger (text : String) : Except Fault Unit :=
  let cs := text.toList.filter (· ≠ '_')
  if cs.isEmpty then .error .emptyNumber
  else
    match Tag.unsigned cs with
    | [] => .error .emptyNumber
    | ['0'] => .ok ()
    | '0' :: 'b' :: rest => checkIntegerIn 2 rest
    | '0' :: 'x' :: rest => checkIntegerIn 16 rest
    | '0' :: rest => checkIntegerIn 8 ('0' :: rest)
    | rest =>
      if rest.contains ':' then (Text.splitAt ':' rest).forM (checkIntegerIn 10)
      else checkIntegerIn 10 rest

/-! ## Floating-point numbers -/

def isDecimalDigit (c : Char) : Bool :=
  (Text.decimalDigit? c).isSome

/-- An exponent with or without a sign, or nothing. -/
def isExponent (cs : List Char) : Bool :=
  match cs with
  | [] => true
  | e :: rest =>
    let digits := Tag.unsigned rest
    (e = 'e' || e = 'E') && !digits.isEmpty && digits.all isDecimalDigit

/-- Digits with at most one point among them, and an exponent. -/
def isDecimal (cs : List Char) : Bool :=
  let whole := cs.takeWhile isDecimalDigit
  match cs.dropWhile isDecimalDigit with
  | '.' :: rest =>
    let fraction := rest.takeWhile isDecimalDigit
    !(whole.isEmpty && fraction.isEmpty) && isExponent (rest.dropWhile isDecimalDigit)
  | rest => !whole.isEmpty && isExponent rest

/-- Whether a text is a floating-point number. -/
def isFloat (cs : List Char) : Bool :=
  let number := Tag.unsigned (Text.dropAround isNumeralSpace cs)
  ["inf", "infinity", "nan"].contains (String.ofList (number.map Char.toLower)) || isDecimal number

def checkFloatText (cs : List Char) : Except Fault Unit :=
  if isFloat cs then .ok () else .error (.notFloat (String.ofList cs))

/-- How many places a sexagesimal number may have: sixty to a higher power than `mostPlaces - 1` is
past the range of floating-point numbers. -/
def mostPlaces : Nat :=
  174

/-- A fault of a text that is tagged as a floating-point number, if it has one. -/
def checkFloat (text : String) : Except Fault Unit :=
  let cs := Text.lower (text.toList.filter (· ≠ '_'))
  if cs.isEmpty then .error .emptyNumber
  else
    let rest := Tag.unsigned cs
    if rest = ".inf".toList || rest = ".nan".toList then .ok ()
    else if rest.contains ':' then do
      let places := Text.splitAt ':' rest
      places.forM checkFloatText
      if mostPlaces < places.length then .error .floatRange else .ok ()
    else checkFloatText rest

end ImageTrust.Yaml
