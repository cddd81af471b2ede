import ImageTrust.Yaml.Source

/-! # Plain scalars

Scalars without quotes. They end at a comment, at an indicator or at a line that is indented less than
what they belong to.
-/

namespace ImageTrust.Yaml

/-- Indicators that end a plain scalar inside brackets. -/
def isFlowIndicator (c : Char) : Bool :=
  c = ',' || c = '?' || c = '[' || c = ']' || c = '\x7b' || c = '\x7d'

/-- What, besides a gap, turns the colon before it into an indicator inside brackets. -/
def isFlowPunctuation (c : Char) : Bool :=
  c = ',' || c = '[' || c = ']' || c = '\x7b' || c = '\x7d'

/-- Whether a plain scalar ends before a character that is followed by `rest`. -/
def endsPlain (flow : Bool) (c : Char) (rest : List Char) : Bool :=
  isGap c || (c = ':' && endsOr (fun d => isGap d || (flow && isFlowPunctuation d)) rest) ||
    (flow && isFlowIndicator c)

/-- The characters up to the next gap or indicator, and the rest. -/
def plainRun (flow : Bool) : List Char → List Char × List Char
  | [] => ([], [])
  | c :: rest =>
    if endsPlain flow c rest then ([], c :: rest)
    else
      let (run, after) := plainRun flow rest
      (c :: run, after)

/-- What lies between two runs of a plain scalar. -/
structure PlainGap where
  /-- The text it stands for. -/
  text : List Char
  rest : List Char
  /-- Whether it holds a line break. -/
  broken : Bool
  /-- The column after it, if it holds a line break. -/
  column : Nat
  deriving Repr

/-- The breaks of the empty lines that a text starts with, the indentation of the line after them, the
rest at its first character, and whether that is a mark between documents. -/
def plainLines (bound : Nat) (column : Nat) (cs : List Char) :
    List Char × Nat × List Char × Bool :=
  match bound with
  | 0 => ([], column, cs, false)
  | bound + 1 =>
    match cs with
    | ' ' :: rest => plainLines bound (column + 1) rest
    | _ =>
      match lineBreak? cs with
      | none => ([], column, cs, false)
      | some (c, rest) =>
        if startsWithMark rest then ([], 0, rest, true)
        else
          let (breaks, column, rest, marked) := plainLines bound 0 rest
          (c :: breaks, column, rest, marked)

/-- The gap that a text starts with. It stands for nothing if a mark between documents follows. -/
def plainGap (cs : List Char) : PlainGap :=
  let spaces := cs.takeWhile (· = ' ')
  match lineBreak? (cs.dropWhile (· = ' ')) with
  | none => ⟨spaces, cs.dropWhile (· = ' '), false, 0⟩
  | some (first, rest) =>
    if startsWithMark rest then ⟨[], rest, true, 0⟩
    else
      let (breaks, column, rest, marked) := plainLines (rest.length + 1) 0 rest
      ⟨if marked then [] else foldBreaks first breaks, rest, true, column⟩

/-- A plain scalar, the rest after it, and whether a line break was passed at its end. -/
structure PlainScalar where
  text : List Char
  rest : List Char
  broken : Bool
  deriving Repr

/-- The plain scalar that a text starts with, in lines indented by at least `indent`. None if the text
does not go on with one. -/
def plainScalar? (bound : Nat) (flow : Bool) (indent : Int) (cs : List Char) : Option PlainScalar :=
  match bound with
  | 0 => none
  | bound + 1 =>
    let (run, rest) := plainRun flow cs
    if cs.head? = some '#' || run.isEmpty then none
    else
      let gap := plainGap rest
      if gap.text.isEmpty || (!flow && gap.broken && gap.column < indent) then
        some ⟨run, gap.rest, gap.broken⟩
      else
        match plainScalar? bound flow indent gap.rest with
        | none => some ⟨run, gap.rest, gap.broken⟩
        | some scalar => some ⟨run ++ gap.text ++ scalar.text, scalar.rest, scalar.broken⟩

end ImageTrust.Yaml
