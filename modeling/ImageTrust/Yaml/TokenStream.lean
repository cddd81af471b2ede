import ImageTrust.Yaml.Block
import ImageTrust.Yaml.Plain
import ImageTrust.Yaml.Quoted

/-! # The tokens of a text

A text is cut into tokens from left to right. Outside brackets the indentation opens and closes
collections. Whether a token is the key of a mapping shows only at the colon after it: until then its
place in the token stream is remembered.
-/

namespace ImageTrust.Yaml

/-- A token that may turn out to be a key. -/
structure PossibleKey where
  /-- How many tokens precede it. -/
  position : Nat
  /-- Whether it is the first token of a line at the indentation of the collection, where nothing but
  a key may stand. -/
  required : Bool
  mark : Mark
  deriving Repr

/-- The state between two tokens. -/
structure Scan where
  rest : List Char
  mark : Mark
  /-- The tokens so far, the last one first. -/
  tokens : List Token
  /-- The number of open brackets. -/
  flow : Nat
  /-- The indentation of the innermost block collection, and of those around it. -/
  indent : Int
  outer : List Int
  /-- Whether a key may start here. -/
  keyAllowed : Bool
  /-- The possible keys by the number of brackets open around them, at most one for each. -/
  keys : List (Nat × PossibleKey)
  finished : Bool
  deriving Repr

namespace Scan

def start (cs : List Char) : Scan where
  rest := cs
  mark := .start
  tokens := []
  flow := 0
  indent := -1
  outer := []
  keyAllowed := true
  keys := []
  finished := false

/-! ## Moving on -/

/-- Go on to a rest of the text. -/
def goTo (s : Scan) (rest : List Char) : Scan :=
  { s with rest, mark := s.mark.advance (s.rest.length - rest.length) s.rest }

def add (s : Scan) (t : Token) : Scan :=
  { s with tokens := t :: s.tokens }

/-- Add a token that is `count` characters long. -/
def take (s : Scan) (count : Nat) (t : Token) : Scan :=
  (s.goTo (s.rest.drop count)).add t

/-- Put a token in the place of the one that `position` tokens precede. -/
def insert (s : Scan) (position : Nat) (t : Token) : Scan :=
  { s with tokens := s.tokens.insertIdx (s.tokens.length - position) t }

/-- The spaces, comments and line breaks that a text starts with are skipped; whether there was a line
break is told. -/
def skipGap (bound : Nat) (cs : List Char) : List Char × Bool :=
  match bound with
  | 0 => (cs, false)
  | bound + 1 =>
    let rest := cs.dropWhile (· = ' ')
    let rest := if rest.head? = some '#' then rest.dropWhile (!isBreak ·) else rest
    match lineBreak? rest with
    | some (_, rest) => ((skipGap bound rest).1, true)
    | none => (rest, false)

/-- Go on to the next token. After a line break outside brackets a key may start. -/
def skipToToken (s : Scan) : Scan :=
  let cs := if s.mark.index = 0 && s.rest.head? = some '\uFEFF' then s.rest.drop 1 else s.rest
  let (rest, broken) := skipGap (cs.length + 1) cs
  { s.goTo rest with keyAllowed := s.keyAllowed || (broken && s.flow = 0) }

/-! ## Possible keys -/

/-- Whether a possible key can no longer be one: a key has to end on its line and within 1024
characters. -/
def isStale (s : Scan) (k : PossibleKey) : Bool :=
  k.mark.line ≠ s.mark.line || s.mark.index - k.mark.index > 1024

/-- Forget the possible keys that can no longer be one. -/
def dropStaleKeys (s : Scan) : Except Fault Scan :=
  if s.keys.any fun (_, k) => s.isStale k && k.required then .error .malformed
  else .ok { s with keys := s.keys.filter fun (_, k) => !s.isStale k }

/-- Forget the possible key inside the innermost brackets. -/
def dropKey (s : Scan) : Except Fault Scan :=
  if s.keys.any fun (level, k) => level = s.flow && k.required then .error .malformed
  else .ok { s with keys := s.keys.filter fun (level, _) => level ≠ s.flow }

/-- Remember the next token as a possible key. -/
def markKey (s : Scan) : Except Fault Scan :=
  if s.keyAllowed then do
    let s ← s.dropKey
    let required := s.flow = 0 && s.indent = s.mark.column
    return { s with keys := (s.flow, ⟨s.tokens.length, required, s.mark⟩) :: s.keys }
  else .ok s

/-! ## Indentation -/

/-- Close the block collections that are indented by more than `column`. -/
def unwind (s : Scan) (column : Int) : Scan :=
  if s.flow ≠ 0 then s
  else go s.outer s.indent s.tokens
where
  go (outer : List Int) (indent : Int) (tokens : List Token) : Scan :=
    if indent > column then
      match outer with
      | [] => { s with outer := [], indent := -1, tokens }
      | next :: outer => go outer next (.blockEnd :: tokens)
    else { s with outer, indent, tokens }

/-- Whether a block collection starts in a column. -/
def opensAt (s : Scan) (column : Nat) : Bool :=
  s.indent < column

/-- Make a column the indentation. -/
def openAt (s : Scan) (column : Nat) : Scan :=
  { s with indent := column, outer := s.indent :: s.outer }

/-! ## Kinds of tokens -/

def streamEnd (s : Scan) : Except Fault Scan := do
  let s ← (s.unwind (-1)).dropKey
  return { s.add .streamEnd with keyAllowed := false, keys := [], finished := true }

def directive (s : Scan) : Except Fault Scan := do
  let s ← (s.unwind (-1)).dropKey
  let (token, rest) ← readDirective (s.rest.drop 1)
  return { (s.goTo rest).add token with keyAllowed := false }

def documentMark (s : Scan) (token : Token) : Except Fault Scan := do
  let s ← (s.unwind (-1)).dropKey
  return { s.take 3 token with keyAllowed := false }

def flowStart (s : Scan) (token : Token) : Except Fault Scan := do
  let s ← s.markKey
  return { s.take 1 token with keyAllowed := true, flow := s.flow + 1 }

def flowEnd (s : Scan) (token : Token) : Except Fault Scan := do
  let s ← s.dropKey
  return { s.take 1 token with keyAllowed := false, flow := s.flow - 1 }

def flowEntry (s : Scan) : Except Fault Scan := do
  let s ← s.dropKey
  return { s.take 1 .flowEntry with keyAllowed := true }

/-- Open a block collection in this column, unless it is open or brackets are. -/
def openBlock (s : Scan) (token : Token) : Except Fault Scan :=
  if s.flow ≠ 0 then .ok s
  else if !s.keyAllowed then .error .malformed
  else if s.opensAt s.mark.column then .ok ((s.openAt s.mark.column).add token)
  else .ok s

def blockEntry (s : Scan) : Except Fault Scan := do
  let s ← s.openBlock .blockSequenceStart
  let s ← s.dropKey
  return { s.take 1 .blockEntry with keyAllowed := true }

def explicitKey (s : Scan) : Except Fault Scan := do
  let s ← s.openBlock .blockMappingStart
  let s ← s.dropKey
  return { s.take 1 .key with keyAllowed := s.flow = 0 }

/-- A colon makes a key of the possible key before it; without one it is a value after an explicit or
empty key. -/
def value (s : Scan) : Except Fault Scan :=
  match s.keys.lookup s.flow with
  | some k =>
    let s := { s with keys := s.keys.filter fun (level, _) => level ≠ s.flow }
    let s := s.insert k.position .key
    let s :=
      if s.flow = 0 && s.opensAt k.mark.column then
        (s.openAt k.mark.column).insert k.position .blockMappingStart
      else s
    .ok { s.take 1 .value with keyAllowed := false }
  | none => do
    let s ← s.openBlock .blockMappingStart
    let s ← s.dropKey
    return { s.take 1 .value with keyAllowed := s.flow = 0 }

/-- A token that may be a key and that `read` reads from the second character on. -/
def node (s : Scan) (read : List Char → Except Fault (Token × List Char)) : Except Fault Scan := do
  let s ← s.markKey
  let (token, rest) ← read (s.rest.drop 1)
  return { (s.goTo rest).add token with keyAllowed := false }

def blockScalar (s : Scan) (folded : Bool) : Except Fault Scan := do
  let s ← s.dropKey
  let (text, rest) ← Yaml.blockScalar folded s.indent (s.rest.drop 1)
  return { (s.goTo rest).add (.scalar (String.ofList text) false) with keyAllowed := true }

def plain (s : Scan) : Except Fault Scan := do
  let s ← s.markKey
  match plainScalar? (s.rest.length + 1) (s.flow ≠ 0) (s.indent + 1) s.rest with
  | none => .error .malformed
  | some scalar =>
    let s := (s.goTo scalar.rest).add (.scalar (String.ofList scalar.text) true)
    return { s with keyAllowed := scalar.broken }

def readAlias (cs : List Char) : Except Fault (Token × List Char) :=
  (readAnchor cs).map fun (name, rest) => (.aliasOf name, rest)

def readAnchorToken (cs : List Char) : Except Fault (Token × List Char) :=
  (readAnchor cs).map fun (name, rest) => (.anchor name, rest)

def readSingle (cs : List Char) : Except Fault (Token × List Char) :=
  (singleQuoted (cs.length + 1) cs).map fun (text, rest) => (.scalar (String.ofList text) false, rest)

def readDouble (cs : List Char) : Except Fault (Token × List Char) :=
  (doubleQuoted (cs.length + 1) cs).map fun (text, rest) => (.scalar (String.ofList text) false, rest)

/-! ## One token -/

/-- Characters that a plain scalar does not start with. -/
def isIndicator (c : Char) : Bool :=
  "-?:,[]\x7b\x7d#&*!|>'\"%@\x60".toList.contains c

/-- Whether a plain scalar starts with a character that is followed by `rest`. -/
def startsPlain (flow : Bool) (c : Char) (rest : List Char) : Bool :=
  !(isGap c || isIndicator c) ||
    (!endsOr isGap rest && (c = '-' || (!flow && (c = '?' || c = ':'))))

/-- Read the token that the rest of the text starts with. -/
def token (s : Scan) : Except Fault Scan :=
  match s.rest with
  | [] => s.streamEnd
  | c :: rest =>
    let atStart := s.mark.column = 0
    let inFlow : Bool := s.flow ≠ 0
    let gapNext := endsOr isGap rest
    if c = '%' && atStart then s.directive
    else if atStart && c = '-' && startsWithMark s.rest then s.documentMark .documentStart
    else if atStart && c = '.' && startsWithMark s.rest then s.documentMark .documentEnd
    else if c = '[' then s.flowStart .flowSequenceStart
    else if c = '\x7b' then s.flowStart .flowMappingStart
    else if c = ']' then s.flowEnd .flowSequenceEnd
    else if c = '\x7d' then s.flowEnd .flowMappingEnd
    else if c = ',' then s.flowEntry
    else if c = '-' && gapNext then s.blockEntry
    else if c = '?' && (inFlow || gapNext) then s.explicitKey
    else if c = ':' && (inFlow || gapNext) then s.value
    else if c = '*' then s.node readAlias
    else if c = '&' then s.node readAnchorToken
    else if c = '!' then s.node readTag
    else if c = '|' && !inFlow then s.blockScalar false
    else if c = '>' && !inFlow then s.blockScalar true
    else if c = '\'' then s.node readSingle
    else if c = '"' then s.node readDouble
    else if startsPlain inFlow c rest then s.plain
    else .error .malformed

/-- Go on to the next token and read it. -/
def next (s : Scan) : Except Fault Scan := do
  let s ← s.skipToToken.dropStaleKeys
  (s.unwind s.mark.column).token

/-- The tokens that are certain: those before the first possible key. -/
def certain (s : Scan) : List Token :=
  let tokens := s.tokens.reverse
  let keys := s.keys.filter fun (_, k) => !s.isStale k
  tokens.take (keys.foldl (fun n (_, k) => min n k.position) tokens.length)

/-- The tokens of a text, up to its end or to the first fault. -/
def run (bound : Nat) (s : Scan) : List Token :=
  if s.finished then s.tokens.reverse
  else
    match bound with
    | 0 => [.fault .malformed]
    | bound + 1 =>
      match s.next with
      | .ok s => run bound s
      | .error fault => s.certain ++ [.fault fault]

end Scan

/-- The tokens of a document. -/
def tokens (cs : List Char) : List Token :=
  if cs.all isAllowed then Scan.run (2 * cs.length + 2) (.start cs) else [.fault .malformed]

end ImageTrust.Yaml
