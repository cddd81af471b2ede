import ImageTrust.Text.Hexadecimal

/-! # JSON

Reading a JSON text. The words `NaN`, `Infinity` and `-Infinity` are read as numbers; a control character
has to be escaped inside a string. A reader may have limits: then it gives up at the first integer that is
too long and at the first array or object that is too deep, unless the text is malformed before it.
-/

namespace ImageTrust

/-- A JSON value. Numbers keep their spelling. -/
inductive Json
  | null
  | bool (b : Bool)
  | number (spelling : List Char)
  | text (cs : List Char)
  | array (items : List Json)
  | object (members : List (List Char × Json))

namespace Json

/-! ## Limits -/

/-- What a reader can take. -/
structure Limits where
  /-- The most digits of an integer. -/
  digits : Nat
  /-- The deepest nesting of arrays and objects. -/
  nesting : Nat
  deriving DecidableEq, Repr

/-- What a reader gives up at. -/
inductive Excess
  | digits (count : Nat)
  | nesting
  deriving DecidableEq, Repr

/-- Why a text is not read. -/
inductive Stop
  | malformed
  | excess (e : Excess)
  deriving DecidableEq, Repr

/-- The limits inside an array or object, if it is not too deep. -/
def Limits.descend : Option Limits → Except Stop (Option Limits)
  | none => .ok none
  | some ⟨_, 0⟩ => .error (.excess .nesting)
  | some ⟨digits, nesting + 1⟩ => .ok (some ⟨digits, nesting⟩)

/-- Whether an integer may have so many digits. -/
def Limits.allow (limits : Option Limits) (count : Nat) : Bool :=
  limits.all fun l => count ≤ l.digits

/-! ## White space -/

def isSpace (c : Char) : Bool :=
  c = ' ' || c = '\t' || c = '\n' || c = '\r'

def skipSpace (cs : List Char) : List Char :=
  cs.dropWhile isSpace

/-! ## Strings -/

def escaped? : Char → Option Char
  | '"' => some '"'
  | '\\' => some '\\'
  | '/' => some '/'
  | 'b' => some '\x08'
  | 'f' => some '\x0c'
  | 'n' => some '\n'
  | 'r' => some '\r'
  | 't' => some '\t'
  | _ => none

/-- The code points and surrogates of a string whose opening quote has been read, and the rest after
its closing quote. -/
def readUnits? : List Char → Option (List Nat × List Char)
  | [] => none
  | '"' :: rest => some ([], rest)
  | '\\' :: 'u' :: a :: b :: c :: d :: rest =>
    match Text.hexNumber? [a, b, c, d], readUnits? rest with
    | some n, some (units, rest) => some (n :: units, rest)
    | _, _ => none
  | '\\' :: e :: rest =>
    match escaped? e, readUnits? rest with
    | some c, some (units, rest) => some (c.toNat :: units, rest)
    | _, _ => none
  | c :: rest =>
    if c = '\\' || c.toNat < 0x20 then none
    else (readUnits? rest).map fun (units, rest) => (c.toNat :: units, rest)

/-- The character of a code point; a surrogate on its own is no character. -/
def unitChar (n : Nat) : Char :=
  if h : n.isValidChar then Char.ofNatAux n h else '\uFFFD'

/-- The characters of a sequence of code points in which pairs of surrogates stand for one each. -/
def joinSurrogates : List Nat → List Char
  | [] => []
  | [n] => [unitChar n]
  | high :: low :: rest =>
    if 0xD800 ≤ high && high < 0xDC00 && 0xDC00 ≤ low && low < 0xE000 then
      unitChar (0x10000 + (high - 0xD800) * 0x400 + (low - 0xDC00)) :: joinSurrogates rest
    else unitChar high :: joinSurrogates (low :: rest)

def readString? (cs : List Char) : Option (List Char × List Char) :=
  (readUnits? cs).map fun (units, rest) => (joinSurrogates units, rest)

/-! ## Numbers and words -/

/-- What follows a word, if a text starts with it. -/
def after? (word cs : List Char) : Option (List Char) :=
  if word.isPrefixOf cs then some (cs.drop word.length) else none

/-- The digits of the integral part of a number: a single zero, or digits that start with another
one. -/
def integralDigits (cs : List Char) : List Char :=
  match cs with
  | '0' :: _ => ['0']
  | _ => cs.takeWhile Char.isDigit

/-- The fraction that a text starts with, empty if there is none. -/
def fraction (cs : List Char) : List Char :=
  match cs with
  | '.' :: rest =>
    let digits := rest.takeWhile Char.isDigit
    if digits.isEmpty then [] else '.' :: digits
  | _ => []

/-- The sign that a text starts with, empty if there is none. -/
def sign (cs : List Char) : List Char :=
  match cs with
  | '+' :: _ => ['+']
  | '-' :: _ => ['-']
  | _ => []

/-- The exponent that a text starts with, empty if there is none. -/
def exponent (cs : List Char) : List Char :=
  match cs with
  | e :: rest =>
    if e = 'e' || e = 'E' then
      let s := sign rest
      let digits := (rest.drop s.length).takeWhile Char.isDigit
      if digits.isEmpty then [] else e :: s ++ digits
    else []
  | [] => []

/-- The longest number that a text starts with. Only integers may be too long. -/
def readNumber (limits : Option Limits) (cs : List Char) : Except Stop (Json × List Char) :=
  let minus := if cs.head? = some '-' then ['-'] else []
  let digits := integralDigits (cs.drop minus.length)
  if digits.isEmpty then .error .malformed
  else
    let whole := minus ++ digits
    let decimal := whole ++ fraction (cs.drop whole.length)
    let spelling := decimal ++ exponent (cs.drop decimal.length)
    if spelling = whole && !Limits.allow limits digits.length then
      .error (.excess (.digits digits.length))
    else .ok (.number spelling, cs.drop spelling.length)

/-- The words of the format and the values they stand for. -/
def literals : List (String × Json) :=
  [("null", .null), ("true", .bool true), ("false", .bool false), ("NaN", .number "NaN".toList),
    ("Infinity", .number "Infinity".toList), ("-Infinity", .number "-Infinity".toList)]

def readLiteral? (cs : List Char) : Option (Json × List Char) :=
  literals.findSome? fun (word, value) => (after? word.toList cs).map (value, ·)

/-! ## Values -/

/-- The name of a member, and the rest where its value begins. -/
def readName (cs : List Char) : Except Stop (List Char × List Char) :=
  match cs with
  | '"' :: rest =>
    match readString? rest with
    | none => .error .malformed
    | some (name, rest) =>
      match skipSpace rest with
      | ':' :: rest => .ok (name, skipSpace rest)
      | _ => .error .malformed
  | _ => .error .malformed

mutual

/-- The value that a text starts with, no white space before it, and the rest after it. `depth` bounds
the nesting. -/
def readValue (limits : Option Limits) (depth : Nat) (cs : List Char) :
    Except Stop (Json × List Char) :=
  match depth with
  | 0 => .error .malformed
  | depth + 1 =>
    match cs with
    | '"' :: rest =>
      match readString? rest with
      | none => .error .malformed
      | some (s, rest) => .ok (.text s, rest)
    | '[' :: rest => do
      let limits ← Limits.descend limits
      match skipSpace rest with
      | ']' :: rest => return (.array [], rest)
      | rest =>
        let (items, rest) ← readItems limits depth rest
        return (.array items, rest)
    | '\x7b' :: rest => do
      let limits ← Limits.descend limits
      match skipSpace rest with
      | '\x7d' :: rest => return (.object [], rest)
      | rest =>
        let (members, rest) ← readMembers limits depth rest
        return (.object members, rest)
    | _ =>
      match readLiteral? cs with
      | some read => .ok read
      | none => readNumber limits cs

/-- The items of an array up to its closing bracket. -/
def readItems (limits : Option Limits) (depth : Nat) (cs : List Char) :
    Except Stop (List Json × List Char) :=
  match depth with
  | 0 => .error .malformed
  | depth + 1 => do
    let (item, rest) ← readValue limits depth cs
    match skipSpace rest with
    | ']' :: rest => return ([item], rest)
    | ',' :: rest =>
      let (items, rest) ← readItems limits depth (skipSpace rest)
      return (item :: items, rest)
    | _ => throw .malformed

/-- The members of an object up to its closing brace. -/
def readMembers (limits : Option Limits) (depth : Nat) (cs : List Char) :
    Except Stop (List (List Char × Json) × List Char) :=
  match depth with
  | 0 => .error .malformed
  | depth + 1 => do
    let (name, rest) ← readName cs
    let (value, rest) ← readValue limits depth rest
    match skipSpace rest with
    | '\x7d' :: rest => return ([(name, value)], rest)
    | ',' :: rest =>
      let (members, rest) ← readMembers limits depth (skipSpace rest)
      return ((name, value) :: members, rest)
    | _ => throw .malformed

end

/-- The value of a JSON text. -/
def read (limits : Option Limits) (cs : List Char) : Except Stop Json := do
  let (value, rest) ← readValue limits (2 * cs.length + 1) (skipSpace cs)
  if (skipSpace rest).isEmpty then return value else throw .malformed

/-- The value of a JSON text, whatever its size. -/
def read? (cs : List Char) : Option Json :=
  (read none cs).toOption

/-- What a reader with limits gives up at, if it does. -/
def excess? (limits : Limits) (cs : List Char) : Option Excess :=
  match read (some limits) cs with
  | .error (.excess e) => some e
  | _ => none

/-- The texts of an array that holds nothing else. -/
def texts? : Json → Option (List (List Char))
  | .array items => items.mapM fun
    | .text cs => some cs
    | _ => none
  | _ => none

end Json

end ImageTrust
