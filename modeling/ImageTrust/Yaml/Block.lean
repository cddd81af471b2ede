import ImageTrust.Yaml.Token

/-! # Block scalars

Scalars made of whole indented lines, kept as they are or folded into paragraphs. A header tells what
becomes of the breaks at the end, and may give the indentation.
-/

namespace ImageTrust.Yaml

/-- What becomes of the line breaks at the end of a block scalar. -/
inductive Chomping
  | strip
  | clip
  | keep
  deriving DecidableEq, Repr

structure BlockHeader where
  chomping : Chomping
  /-- How much further the lines are indented than what the scalar belongs to, if it is said. -/
  increment : Option Nat
  deriving DecidableEq, Repr

def chomping? : Char → Option Chomping
  | '+' => some .keep
  | '-' => some .strip
  | _ => none

/-- The indicators after `|` or `>`, in either order, and the rest after them. -/
def readIndicators (cs : List Char) : Except Fault (BlockHeader × List Char) :=
  let digit? (cs : List Char) : Option Nat × List Char :=
    match cs with
    | c :: rest => if c.isDigit then (some (c.toNat - '0'.toNat), rest) else (none, cs)
    | [] => (none, cs)
  let sign? (cs : List Char) : Option Chomping × List Char :=
    match cs with
    | c :: rest => if (chomping? c).isSome then (chomping? c, rest) else (none, cs)
    | [] => (none, cs)
  let (early, cs) := sign? cs
  let (increment, cs) := digit? cs
  let (late, cs) := if early.isNone && increment.isSome then sign? cs else (none, cs)
  if increment = some 0 then .error .malformed
  else if endsOr isSpaceOrBreak cs then .ok (⟨(early.or late).getD .clip, increment⟩, cs)
  else .error .malformed

/-- Lines that hold nothing but spaces: their breaks, the widest indentation up to the next text, the
column of that text and the rest at it. -/
def measureLines (bound : Nat) (widest column : Nat) (cs : List Char) :
    List Char × Nat × Nat × List Char :=
  match bound with
  | 0 => ([], widest, column, cs)
  | bound + 1 =>
    match cs with
    | ' ' :: rest => measureLines bound (max widest (column + 1)) (column + 1) rest
    | _ =>
      match lineBreak? cs with
      | none => ([], widest, column, cs)
      | some (c, rest) =>
        let (breaks, widest, column, rest) := measureLines bound widest 0 rest
        (c :: breaks, widest, column, rest)

/-- Lines that hold nothing but spaces, at most `indent` of them: their breaks, the column of the next
text and the rest at it. -/
def blankLines (bound : Nat) (indent column : Nat) (cs : List Char) :
    List Char × Nat × List Char :=
  match bound with
  | 0 => ([], column, cs)
  | bound + 1 =>
    match cs with
    | ' ' :: rest =>
      if column < indent then blankLines bound indent (column + 1) rest else ([], column, cs)
    | _ =>
      match lineBreak? cs with
      | none => ([], column, cs)
      | some (c, rest) =>
        let (breaks, column, rest) := blankLines bound indent 0 rest
        (c :: breaks, column, rest)

def startsWithBlank : List Char → Bool
  | c :: _ => c = ' ' || c = '\t'
  | [] => false

/-- The text between two lines of a block scalar. -/
def lineJoint (folded : Bool) (first second : List Char) (next : Option Char) (later : List Char) :
    List Char :=
  if folded && next = some '\n' && !startsWithBlank first && !startsWithBlank second then
    if later.isEmpty then [' '] else []
  else next.toList

/-- The lines of a block scalar. -/
structure BlockLines where
  text : List Char
  /-- The break of the last line. -/
  last : Option Char
  /-- The breaks of the empty lines after the last line. -/
  trailing : List Char
  rest : List Char
  deriving Repr

/-- The lines of a block scalar that are indented by `indent` columns, from a text on that starts after
the indentation of the first one. -/
def blockLines (bound : Nat) (folded : Bool) (indent : Nat) (cs : List Char) : BlockLines :=
  match bound with
  | 0 => ⟨[], none, [], cs⟩
  | bound + 1 =>
    let line := cs.takeWhile (!isBreak ·)
    let rest := cs.dropWhile (!isBreak ·)
    match lineBreak? rest with
    | none => ⟨line, none, [], rest⟩
    | some (next, rest) =>
      let (later, column, rest) := blankLines (rest.length + 1) indent 0 rest
      if column = indent && !rest.isEmpty then
        let lines := blockLines bound folded indent rest
        { lines with text := line ++ lineJoint folded cs rest (some next) later ++ later ++ lines.text }
      else ⟨line, some next, later, rest⟩

/-- What is left of the breaks at the end of a block scalar. -/
def Chomping.ending (chomping : Chomping) (last : Option Char) (trailing : List Char) : List Char :=
  match chomping with
  | .strip => []
  | .clip => last.toList
  | .keep => last.toList ++ trailing

/-- The block scalar whose `|` or `>` has been read, inside a collection that is indented by `parent`
columns, and the rest after it. -/
def blockScalar (folded : Bool) (parent : Int) (cs : List Char) :
    Except Fault (List Char × List Char) := do
  let (header, cs) ← readIndicators cs
  let cs ← skipRestOfLine cs
  let least := (max 1 (parent + 1)).toNat
  let bound := cs.length + 1
  let (breaks, indent, column, rest) :=
    match header.increment with
    | none =>
      let (breaks, widest, column, rest) := measureLines bound 0 0 cs
      (breaks, max least widest, column, rest)
    | some increment =>
      let indent := least + increment - 1
      let (breaks, column, rest) := blankLines bound indent 0 cs
      (breaks, indent, column, rest)
  if column = indent && !rest.isEmpty then
    let lines := blockLines bound folded indent rest
    return (breaks ++ lines.text ++ header.chomping.ending lines.last lines.trailing, lines.rest)
  else return (header.chomping.ending none breaks, rest)

end ImageTrust.Yaml
