import ImageTrust.Template
import ImageTrust.Text.Blank

/-! # Environment files

Files that set variables, a binding on each line. Values may be quoted and may refer to variables set
before. A line that is no binding is passed over; the number of the line where it starts is told.
-/

namespace ImageTrust

/-- The variables that a file sets. -/
structure EnvironmentFile where
  values : Variables
  /-- The lines where unreadable statements start. -/
  badLines : List Nat
  deriving Repr

namespace EnvironmentFile

open Text

/-- A name with its value, or without one. -/
structure Binding where
  name : String
  value : Option String
  deriving DecidableEq, Repr

/-- What the beginning of a text was read as. -/
inductive Statement
  /-- White space or a comment. -/
  | nothing
  | binding (b : Binding)
  | unreadable
  deriving DecidableEq, Repr

def isLineEnd (c : Char) : Bool :=
  c = '\n' || c = '\r'

/-- White space within a line. -/
def isInlineBlank (c : Char) : Bool :=
  isBlank c && !isLineEnd c

def skipBlanks (cs : List Char) : List Char :=
  cs.dropWhile isInlineBlank

/-! ## Lines -/

/-- The text after a line end, or the end of the text. -/
def afterLineEnd? : List Char → Option (List Char)
  | [] => some []
  | '\r' :: '\n' :: rest => some rest
  | c :: rest => if isLineEnd c then some rest else none

/-- The text after the rest of a line. A carriage return alone ends it. -/
def nextLine (cs : List Char) : List Char :=
  (cs.dropWhile (!isLineEnd ·)).drop 1

/-- The text after the end of a statement: blanks, a comment and a line end. -/
def endOfStatement? (cs : List Char) : Option (List Char) :=
  match skipBlanks cs with
  | '#' :: rest => afterLineEnd? (rest.dropWhile (!isLineEnd ·))
  | rest => afterLineEnd? rest

/-! ## Names -/

/-- The text after the word `export` and blanks, if it starts with them. -/
def skipExport (cs : List Char) : List Char :=
  let word := "export".toList
  let rest := cs.drop word.length
  if word.isPrefixOf cs && rest.head?.any isInlineBlank then skipBlanks rest else cs

def isNameChar (c : Char) : Bool :=
  c ≠ '=' && c ≠ '#' && !isBlank c

/-- The name of a binding, none before a comment, and the rest after it. -/
def readName? (cs : List Char) : Option (Option String × List Char) :=
  match cs with
  | '#' :: _ => some (none, cs)
  | '\'' :: rest =>
    let name := rest.takeWhile (· ≠ '\'')
    match rest.dropWhile (· ≠ '\'') with
    | [] => none
    | _ :: after => if name.isEmpty then none else some (some (String.ofList name), after)
  | _ =>
    let name := cs.takeWhile isNameChar
    if name.isEmpty then none
    else some (some (String.ofList name), cs.dropWhile isNameChar)

/-! ## Values -/

/-- The text up to a closing quote, and the rest after it. A character behind a backslash closes
nothing. -/
def readQuoted? (quote : Char) : List Char → Option (List Char × List Char)
  | [] => none
  | '\\' :: c :: rest =>
    (readQuoted? quote rest).map fun (text, after) => ('\\' :: c :: text, after)
  | c :: rest =>
    if c = quote then some ([], rest)
    else if c = '\\' then none
    else (readQuoted? quote rest).map fun (text, after) => (c :: text, after)

/-- What may be escaped between single quotes. -/
def singleEscape? : Char → Option Char
  | '\\' => some '\\'
  | '\'' => some '\''
  | _ => none

/-- What may be escaped between double quotes. -/
def doubleEscape? : Char → Option Char
  | '\\' => some '\\'
  | '\'' => some '\''
  | '"' => some '"'
  | 'a' => some '\x07'
  | 'b' => some '\x08'
  | 'f' => some '\x0c'
  | 'n' => some '\n'
  | 'r' => some '\r'
  | 't' => some '\t'
  | 'v' => some '\x0b'
  | _ => none

/-- A text with its escapes replaced. -/
def unescape (escape? : Char → Option Char) : List Char → List Char
  | [] => []
  | '\\' :: c :: rest =>
    match escape? c with
    | some e => e :: unescape escape? rest
    | none => '\\' :: unescape escape? (c :: rest)
  | c :: rest => c :: unescape escape? rest

/-- A text up to the first white space with a number sign behind it. -/
def cutComment : List Char → List Char
  | [] => []
  | c :: rest =>
    if isBlank c && (rest.dropWhile isBlank).head? = some '#' then [] else c :: cutComment rest

/-- The value behind an equals sign, and the rest after it. Blanks before a value do not count, but a
number sign behind them starts a comment. -/
def readValue? (cs : List Char) : Option (List Char × List Char) :=
  match skipBlanks cs with
  | '\'' :: rest =>
    (readQuoted? '\'' rest).map fun (text, after) => (unescape singleEscape? text, after)
  | '"' :: rest =>
    (readQuoted? '"' rest).map fun (text, after) => (unescape doubleEscape? text, after)
  | _ => some (trim (cutComment (cs.takeWhile (!isLineEnd ·))), cs.dropWhile (!isLineEnd ·))

/-! ## Statements -/

/-- The statement that a text starts with, and the rest after it. -/
def readStatement (cs : List Char) : Statement × List Char :=
  let start := skipExport (cs.dropWhile isBlank)
  if (cs.dropWhile isBlank).isEmpty then (.nothing, [])
  else
    match readName? start with
    | none => (.unreadable, nextLine start)
    | some (name, rest) =>
      let rest := skipBlanks rest
      match rest with
      | '=' :: rest =>
        match readValue? rest with
        | none => (.unreadable, nextLine rest)
        | some (value, rest) => finish name (some (String.ofList value)) rest
      | _ => finish name none rest
where
  /-- The statement of a name and a value, if the line ends after them. -/
  finish (name : Option String) (value : Option String) (rest : List Char) :
      Statement × List Char :=
    match endOfStatement? rest, name with
    | none, _ => (.unreadable, nextLine rest)
    | some rest, none => (.nothing, rest)
    | some rest, some name => (.binding ⟨name, value⟩, rest)

/-- The statements of a text with the numbers of the lines they start in. -/
def statements (bound line : Nat) (cs : List Char) : List (Nat × Statement) :=
  match bound with
  | 0 => []
  | bound + 1 =>
    if cs.isEmpty then []
    else
      let (statement, rest) := readStatement cs
      let lines := cs.count '\n' - rest.count '\n'
      (line, statement) :: statements bound (line + lines) rest

/-! ## Referring to variables -/

/-- The text of a reference `${name}` or `${name:-default}` whose opening has been read, and the rest
after it. -/
def readReference? (cs : List Char) : Option ((List Char × List Char) × List Char) :=
  let name := cs.takeWhile Template.isNameChar
  match cs.dropWhile Template.isNameChar with
  | '}' :: rest => some ((name, []), rest)
  | ':' :: '-' :: rest =>
    (Template.readAlternative? rest).map fun (default, rest) => ((name, default), rest)
  | _ => none

/-- A value with its references replaced. A variable without a binding has the default value, one bound
without a value is empty. -/
def resolve (bound : Nat) (env : String → Option (Option String)) (cs : List Char) : List Char :=
  match bound with
  | 0 => cs
  | bound + 1 =>
    match cs with
    | [] => []
    | '$' :: '\x7b' :: inner =>
      match readReference? inner with
      | none => '$' :: resolve bound env ('\x7b' :: inner)
      | some ((name, default), rest) =>
        let text :=
          match env (String.ofList name) with
          | some value => (value.getD "").toList
          | none => default
        text ++ resolve bound env rest
    | c :: rest => c :: resolve bound env rest

/-- Bindings with their references replaced, the last one first. Earlier bindings come before the
environment. -/
def resolveAll (environment : Variables) (done : List (String × Option String)) :
    List Binding → List (String × Option String)
  | [] => done
  | b :: bs =>
    let env (name : String) : Option (Option String) :=
      match done.lookup name with
      | some value => some value
      | none => (environment.lookup name).map some
    let value := b.value.map fun v =>
      String.ofList (resolve (v.toList.length + 1) env v.toList)
    resolveAll environment ((b.name, value) :: done) bs

/-- The first binding of each name. -/
def firstOfEach (seen : List String) : List (String × Option String) → List (String × Option String)
  | [] => []
  | (name, value) :: rest =>
    if seen.contains name then firstOfEach seen rest
    else (name, value) :: firstOfEach (name :: seen) rest

/-! ## Files -/

/-- The variables that a text sets. A byte order mark at its beginning does not count. -/
def ofText (environment : Variables) (text : String) : EnvironmentFile :=
  let cs := match text.toList with
    | '\uFEFF' :: rest => rest
    | cs => cs
  let all := statements (cs.length + 1) 1 cs
  let bindings := all.filterMap fun
    | (_, .binding b) => some b
    | _ => none
  let resolved := firstOfEach [] (resolveAll environment [] bindings)
  { values := resolved.filterMap fun (name, value) => value.map (name, ·)
    badLines := all.filterMap fun
      | (line, .unreadable) => some line
      | _ => none }

end EnvironmentFile

end ImageTrust
