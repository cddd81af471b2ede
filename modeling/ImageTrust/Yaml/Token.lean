import ImageTrust.Yaml.Fault
import ImageTrust.Yaml.Source
import ImageTrust.Text.Utf8

/-! # Tokens of a YAML document

The tokens a document consists of, and the reading of those that are words behind an indicator:
directives, anchors, aliases and tags.
-/

namespace ImageTrust.Yaml

inductive Directive
  /-- The major version of the language. -/
  | version (major : Nat)
  /-- What a tag handle stands for. -/
  | handle (handle expansion : String)
  | unknown
  deriving DecidableEq, Repr

inductive Token
  | directive (d : Directive)
  | documentStart
  | documentEnd
  | blockSequenceStart
  | blockMappingStart
  | blockEnd
  | flowSequenceStart
  | flowSequenceEnd
  | flowMappingStart
  | flowMappingEnd
  | blockEntry
  | flowEntry
  | key
  | value
  | aliasOf (name : String)
  | anchor (name : String)
  | tag (handle : Option String) (suffix : String)
  | scalar (text : String) (plain : Bool)
  | streamEnd
  /-- The text after the tokens before cannot be cut into tokens. -/
  | fault (f : Fault)
  deriving DecidableEq, Repr

/-! ## Anchors and aliases -/

/-- What may follow the name of an anchor. -/
def endsAnchor (c : Char) : Bool :=
  isGap c || "?:,]\x7d%@\x60".toList.contains c

/-- The name behind the indicator of an anchor or alias. -/
def readAnchor (cs : List Char) : Except Fault (String × List Char) :=
  let name := cs.takeWhile isWordChar
  let rest := cs.dropWhile isWordChar
  if name.isEmpty || !endsOr endsAnchor rest then .error .malformed
  else .ok (String.ofList name, rest)

/-! ## Tags -/

def isUriChar (c : Char) : Bool :=
  c.isAlphanum || "-;/?:@&=+$,_.!~*'()[]".toList.contains c

/-- The bytes of consecutive escapes such as `%C3%A9`, and the rest after them. -/
def readUriEscapes (bound : Nat) (cs : List Char) : Except Fault (List UInt8 × List Char) :=
  match bound with
  | 0 => .ok ([], cs)
  | bound + 1 =>
    match cs with
    | '%' :: rest =>
      match hexNumber? 2 rest with
      | none => .error .malformed
      | some (byte, rest) =>
        (readUriEscapes bound rest).map fun (bytes, rest) => (UInt8.ofNat byte :: bytes, rest)
    | _ => .ok ([], cs)

/-- The characters of a URI, escapes decoded, and the rest after them. -/
def readUriChars (bound : Nat) (cs : List Char) : Except Fault (List Char × List Char) :=
  match bound with
  | 0 => .ok ([], cs)
  | bound + 1 =>
    match cs with
    | [] => .ok ([], [])
    | c :: rest =>
      if c = '%' then
        match readUriEscapes (cs.length + 1) cs with
        | .error fault => .error fault
        | .ok (bytes, rest) =>
          match Text.decodeFrom 0 bytes with
          | .error _ => .error .malformed
          | .ok chars => (readUriChars bound rest).map fun (more, rest) => (chars ++ more, rest)
      else if isUriChar c then (readUriChars bound rest).map fun (more, rest) => (c :: more, rest)
      else .ok ([], cs)

/-- A URI of at least one character. -/
def readUri (cs : List Char) : Except Fault (String × List Char) :=
  match cs with
  | [] => .error .malformed
  | c :: _ =>
    if c = '%' || isUriChar c then
      (readUriChars (cs.length + 1) cs).map fun (uri, rest) => (String.ofList uri, rest)
    else .error .malformed

/-- A tag handle: `!`, `!!` or `!name!`. -/
def readHandle (cs : List Char) : Except Fault (String × List Char) :=
  match cs with
  | '!' :: rest =>
    if rest.head? = some ' ' then .ok ("!", rest)
    else
      let name := rest.takeWhile isWordChar
      match rest.dropWhile isWordChar with
      | '!' :: rest => .ok (String.ofList ('!' :: name ++ ['!']), rest)
      | _ => .error .malformed
  | _ => .error .malformed

/-- Whether a second exclamation mark comes before the next space or break. -/
def hasHandle (cs : List Char) : Bool :=
  (cs.takeWhile fun c => !isSpaceOrBreak c).contains '!'

/-- The tag whose exclamation mark has been read. -/
def readTag (cs : List Char) : Except Fault (Token × List Char) := do
  let (tag, rest) ←
    match cs with
    | '<' :: rest =>
      match ← readUri rest with
      | (uri, '>' :: rest) => pure (Token.tag none uri, rest)
      | _ => throw .malformed
    | _ =>
      if endsOr isGap cs then pure (Token.tag none "!", cs)
      else
        let (handle, rest) ← if hasHandle cs then readHandle ('!' :: cs) else pure ("!", cs)
        let (suffix, rest) ← readUri rest
        pure (Token.tag (some handle) suffix, rest)
  if endsOr isSpaceOrBreak rest then pure (tag, rest) else throw .malformed

/-! ## Directives -/

/-- The number that a text starts with. -/
def readNumber (cs : List Char) : Except Fault (Nat × List Char) :=
  let digits := cs.takeWhile Char.isDigit
  if digits.isEmpty then .error .malformed
  else
    .ok (digits.foldl (fun n c => n * 10 + (c.toNat - '0'.toNat)) 0, cs.dropWhile Char.isDigit)

def readVersion (cs : List Char) : Except Fault (Directive × List Char) := do
  let (major, rest) ← readNumber (cs.dropWhile (· = ' '))
  match rest with
  | '.' :: rest =>
    let (_, rest) ← readNumber rest
    if endsOr isSpaceOrBreak rest then pure (.version major, rest) else throw .malformed
  | _ => throw .malformed

def readHandleExpansion (cs : List Char) : Except Fault (Directive × List Char) := do
  let (handle, rest) ← readHandle (cs.dropWhile (· = ' '))
  if rest.head? ≠ some ' ' then throw .malformed
  let (expansion, rest) ← readUri (rest.dropWhile (· = ' '))
  if endsOr isSpaceOrBreak rest then pure (.handle handle expansion, rest) else throw .malformed

/-- The text of the next line: the rest of a line may hold nothing but spaces and a comment. -/
def skipRestOfLine (cs : List Char) : Except Fault (List Char) :=
  let rest := cs.dropWhile (· = ' ')
  let rest := if rest.head? = some '#' then rest.dropWhile (!isBreak ·) else rest
  match lineBreak? rest with
  | some (_, rest) => .ok rest
  | none => if rest.isEmpty then .ok [] else .error .malformed

/-- The directive whose percent sign has been read, and the line after it. -/
def readDirective (cs : List Char) : Except Fault (Token × List Char) := do
  let name := cs.takeWhile isWordChar
  let rest := cs.dropWhile isWordChar
  if name.isEmpty || !endsOr isSpaceOrBreak rest then throw .malformed
  let (directive, rest) ←
    if name = "YAML".toList then readVersion rest
    else if name = "TAG".toList then readHandleExpansion rest
    else pure (.unknown, rest.dropWhile (!isBreak ·))
  let rest ← skipRestOfLine rest
  return (.directive directive, rest)

end ImageTrust.Yaml
