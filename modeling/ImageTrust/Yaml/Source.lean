import ImageTrust.Text.Hexadecimal

/-! # Characters and places of a YAML text

The characters a document may consist of, its line breaks, and the places in it.
-/

namespace ImageTrust.Yaml

/-- A character that a document may hold. -/
def isAllowed (c : Char) : Bool :=
  let n := c.toNat
  n == 0x09 || n == 0x0A || n == 0x0D || (0x20 ≤ n && n ≤ 0x7E) || n == 0x85 ||
    (0xA0 ≤ n && n ≤ 0xFFFD) || 0x10000 ≤ n

def isBreak (c : Char) : Bool :=
  c = '\n' || c = '\r' || c = '\u0085' || c = '\u2028' || c = '\u2029'

/-- A space or a line break. A tab does not separate tokens. -/
def isSpaceOrBreak (c : Char) : Bool :=
  c = ' ' || isBreak c

/-- A space, a tab or a line break. -/
def isGap (c : Char) : Bool :=
  c = '\t' || isSpaceOrBreak c

/-- Whether a text ends or goes on with a character that satisfies `p`. -/
def endsOr (p : Char → Bool) : List Char → Bool
  | [] => true
  | c :: _ => p c

/-- The line break that a text starts with, and the rest after it. The separators of lines and
paragraphs are kept; the other breaks are line feeds. -/
def lineBreak? : List Char → Option (Char × List Char)
  | '\r' :: '\n' :: rest => some ('\n', rest)
  | c :: rest =>
    if c = '\u2028' || c = '\u2029' then some (c, rest)
    else if isBreak c then some ('\n', rest)
    else none
  | [] => none

/-- The text that a line break followed by the breaks of empty lines stands for. -/
def foldBreaks (first : Char) (breaks : List Char) : List Char :=
  if first ≠ '\n' then first :: breaks
  else if breaks.isEmpty then [' ']
  else breaks

/-- Whether a line starts with a mark between documents, `---` or `...`. -/
def startsWithMark (cs : List Char) : Bool :=
  match cs with
  | '-' :: '-' :: '-' :: rest => endsOr isGap rest
  | '.' :: '.' :: '.' :: rest => endsOr isGap rest
  | _ => false

/-- A letter or digit of ASCII, a hyphen or a low line. -/
def isWordChar (c : Char) : Bool :=
  c.isAlphanum || c = '-' || c = '_'

/-- The number that the first `count` characters of a text are the hexadecimal digits of, and the rest
after them. -/
def hexNumber? (count : Nat) (cs : List Char) : Option (Nat × List Char) :=
  if cs.length < count then none
  else (Text.hexNumber? (cs.take count)).map (·, cs.drop count)

/-! ## Places -/

/-- A place in a text. A byte order mark takes no column. -/
structure Mark where
  index : Nat
  line : Nat
  column : Nat
  deriving DecidableEq, Repr

def Mark.start : Mark :=
  ⟨0, 0, 0⟩

/-- The place after a character that is followed by `next`. -/
def Mark.after (m : Mark) (c : Char) (next : Option Char) : Mark :=
  if isBreak c && !(c = '\r' && next = some '\n') then ⟨m.index + 1, m.line + 1, 0⟩
  else if c = '\uFEFF' then { m with index := m.index + 1 }
  else { m with index := m.index + 1, column := m.column + 1 }

/-- The place after the first `count` characters of a text. -/
def Mark.advance (m : Mark) : Nat → List Char → Mark
  | 0, _ => m
  | _ + 1, [] => m
  | count + 1, c :: cs => (m.after c cs.head?).advance count cs

end ImageTrust.Yaml
