import ImageTrust.Text.Blank
import ImageTrust.Yaml.Timestamp

/-! # Tags

The kinds of values a node may stand for. A scalar without quotes has the kind that its text looks like.
-/

namespace ImageTrust.Yaml

inductive Tag
  | null
  | bool
  | int
  | float
  | binary
  | timestamp
  | str
  | seq
  | map
  | set
  | omap
  | pairs
  /-- The key whose value is merged into a mapping. -/
  | merge
  /-- The key of the value that stands for a whole mapping. -/
  | value
  /-- Any other tag. -/
  | unknown
  deriving DecidableEq, Repr

namespace Tag

/-- The tags of the language by the last part of their names. -/
def known : List (String × Tag) :=
  [("null", null), ("bool", bool), ("int", int), ("float", float), ("binary", binary),
    ("timestamp", timestamp), ("str", str), ("seq", seq), ("map", map), ("set", set),
    ("omap", omap), ("pairs", pairs), ("merge", merge), ("value", value)]

/-- What the names of the language's tags start with. -/
def base : String :=
  "tag:yaml.org,2002:"

def ofName (name : String) : Tag :=
  ((known.find? fun (word, _) => base ++ word = name).map Prod.snd).getD unknown

/-- Whether a node of this kind is built from the nodes inside it. -/
def isCollection : Tag → Bool
  | seq | map | set | omap | pairs => true
  | _ => false

/-! ## The look of a plain scalar -/

/-- The truth values. -/
def boolWords : List String :=
  ["yes", "no", "true", "false", "on", "off"]

/-- A word in small letters, in capitals or with one capital. -/
def spellings (word : String) : List String :=
  match word.toList with
  | [] => [""]
  | c :: cs => [word, String.ofList (c.toUpper :: cs), String.ofList (c.toUpper :: cs.map Char.toUpper)]

def looksBool (cs : List Char) : Bool :=
  (boolWords.flatMap spellings).contains (String.ofList cs)

def looksNull (cs : List Char) : Bool :=
  ("" :: "~" :: spellings "null").contains (String.ofList cs)

def isDigitOrLine (c : Char) : Bool :=
  c.isDigit || c = '_'

/-- A text without the sign it may start with. -/
def unsigned (cs : List Char) : List Char :=
  match cs with
  | '+' :: rest => rest
  | '-' :: rest => rest
  | _ => cs

/-- A place of a sexagesimal number after the first one. -/
def isSixty (cs : List Char) : Bool :=
  match cs with
  | [d] => d.isDigit
  | [c, d] => '0' ≤ c && c ≤ '5' && d.isDigit
  | _ => false

/-- A sexagesimal number of at least two places whose first one satisfies `first`. -/
def looksSexagesimal (first : List Char → Bool) (cs : List Char) : Bool :=
  match Text.splitAt ':' cs with
  | [] => false
  | [_] => false
  | piece :: pieces => first piece && pieces.all isSixty

/-- Digits and low lines that start with a digit satisfying `lead`. -/
def startsWithDigit (lead : Char → Bool) (cs : List Char) : Bool :=
  match cs with
  | [] => false
  | c :: rest => c.isDigit && lead c && rest.all isDigitOrLine

def looksInt (cs : List Char) : Bool :=
  match unsigned cs with
  | ['0'] => true
  | '0' :: 'b' :: rest => !rest.isEmpty && rest.all fun c => c = '0' || c = '1' || c = '_'
  | '0' :: 'x' :: rest => !rest.isEmpty && rest.all fun c => (Text.hexDigit? c).isSome || c = '_'
  | '0' :: rest => !rest.isEmpty && rest.all fun c => ('0' ≤ c && c ≤ '7') || c = '_'
  | rest =>
    startsWithDigit (· ≠ '0') rest || looksSexagesimal (startsWithDigit (· ≠ '0')) rest

/-- The exponent of a number, or nothing. -/
def looksExponent (cs : List Char) : Bool :=
  match cs with
  | [] => true
  | e :: sign :: digits =>
    (e = 'e' || e = 'E') && (sign = '+' || sign = '-') && !digits.isEmpty && digits.all Char.isDigit
  | _ => false

/-- Digits, a point, digits and an exponent, or a sexagesimal number with a point. -/
def looksDecimal (cs : List Char) : Bool :=
  let whole := cs.takeWhile (· ≠ '.')
  match cs.dropWhile (· ≠ '.') with
  | [] => false
  | _ :: fraction =>
    (startsWithDigit (fun _ => true) whole && looksExponent (fraction.dropWhile isDigitOrLine)) ||
      (looksSexagesimal (startsWithDigit fun _ => true) whole && fraction.all isDigitOrLine)

def looksFloat (cs : List Char) : Bool :=
  looksDecimal (unsigned cs) ||
    (match cs with
      | '.' :: d :: rest => d.isDigit && looksExponent (rest.dropWhile isDigitOrLine)
      | _ => false) ||
    (spellings "inf").contains (String.ofList ((unsigned cs).drop 1)) && (unsigned cs).head? = some '.' ||
    [".nan", ".NaN", ".NAN"].contains (String.ofList cs)

def looksTimestamp (cs : List Char) : Bool :=
  match Timestamp.read? cs with
  | some t => t.clock.isSome || t.padded
  | none => false

/-- A text without a line feed at its end, which a pattern does not see. -/
def dropFinalBreak (cs : List Char) : List Char :=
  if cs.getLast? = some '\n' then cs.dropLast else cs

/-- The kind that a plain scalar looks like. -/
def ofPlain (text : String) : Tag :=
  let cs := dropFinalBreak text.toList
  if cs.isEmpty then if text.isEmpty then null else str
  else if looksBool cs then bool
  else if looksFloat cs then float
  else if looksInt cs then int
  else if cs = "<<".toList then merge
  else if looksNull cs then null
  else if looksTimestamp cs then timestamp
  else if cs = "=".toList then value
  else if cs = "!".toList || cs = "&".toList || cs = "*".toList then unknown
  else str

end Tag

end ImageTrust.Yaml
