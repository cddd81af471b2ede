import ImageTrust.Yaml.Fault
import ImageTrust.Yaml.Source

/-! # Quoted scalars

Scalars between single or double quotes. Inside them a single line break is folded to a space, and of
several ones the first is dropped; double quotes know escapes as well.
-/

namespace ImageTrust.Yaml

/-- The breaks of the empty lines that a text starts with, and the rest at the first character that is
not blank. A mark between documents may not stand inside quotes. `bound` is at least the length of the
text. -/
def emptyLines (bound : Nat) (cs : List Char) : Except Fault (List Char × List Char) :=
  match bound with
  | 0 => .ok ([], cs)
  | bound + 1 =>
    if startsWithMark cs then .error .malformed
    else
      let rest := cs.dropWhile fun c => c = ' ' || c = '\t'
      match lineBreak? rest with
      | none => .ok ([], rest)
      | some (c, rest) => (emptyLines bound rest).map fun (breaks, rest) => (c :: breaks, rest)

/-- The blanks and breaks that a text starts with as they are read inside quotes, and the rest after
them. -/
def quotedGap (cs : List Char) : Except Fault (List Char × List Char) :=
  let blanks := cs.takeWhile fun c => c = ' ' || c = '\t'
  let rest := cs.dropWhile fun c => c = ' ' || c = '\t'
  if rest.isEmpty then .error .malformed
  else
    match lineBreak? rest with
    | none => .ok (blanks, rest)
    | some (first, rest) =>
      (emptyLines (rest.length + 1) rest).map fun (breaks, rest) => (foldBreaks first breaks, rest)

/-! ## Single quotes -/

/-- The rest of a scalar whose opening quote has been read, and the text after its closing quote. -/
def singleQuoted (bound : Nat) (cs : List Char) : Except Fault (List Char × List Char) :=
  match bound with
  | 0 => .error .malformed
  | bound + 1 =>
    match cs with
    | [] => .error .malformed
    | '\'' :: '\'' :: rest =>
      (singleQuoted bound rest).map fun (text, rest) => ('\'' :: text, rest)
    | '\'' :: rest => .ok ([], rest)
    | c :: rest =>
      if isGap c then
        match quotedGap cs with
        | .error fault => .error fault
        | .ok (gap, rest) => (singleQuoted bound rest).map fun (text, rest) => (gap ++ text, rest)
      else (singleQuoted bound rest).map fun (text, rest) => (c :: text, rest)

/-! ## Double quotes -/

/-- The character that an escape of one letter stands for. -/
def escape? : Char → Option Char
  | '0' => some '\x00'
  | 'a' => some '\x07'
  | 'b' => some '\x08'
  | 't' => some '\t'
  | '\t' => some '\t'
  | 'n' => some '\n'
  | 'v' => some '\x0b'
  | 'f' => some '\x0c'
  | 'r' => some '\r'
  | 'e' => some '\x1b'
  | ' ' => some ' '
  | '"' => some '"'
  | '\\' => some '\\'
  | '/' => some '/'
  | 'N' => some '\u0085'
  | '_' => some '\u00A0'
  | 'L' => some '\u2028'
  | 'P' => some '\u2029'
  | _ => none

/-- The number of hexadecimal digits after the letter of an escape. -/
def escapeDigits? : Char → Option Nat
  | 'x' => some 2
  | 'u' => some 4
  | 'U' => some 8
  | _ => none

/-- The character of a code point. Half a surrogate pair is replaced. -/
def charOf (number : Nat) : Except Fault Char :=
  if h : number.isValidChar then .ok (Char.ofNatAux number h)
  else if number < 0x110000 then .ok '\uFFFD'
  else .error (.codePoint number)

/-- The text of an escape whose backslash has been read, and the rest after it. -/
def readEscape (cs : List Char) : Except Fault (List Char × List Char) :=
  match cs with
  | [] => .error .malformed
  | c :: rest =>
    match escape? c, escapeDigits? c with
    | some e, _ => .ok ([e], rest)
    | none, some count =>
      match hexNumber? count rest with
      | none => .error .malformed
      | some (number, rest) => (charOf number).map fun e => ([e], rest)
    | none, none =>
      match lineBreak? cs with
      | none => .error .malformed
      | some (_, rest) => emptyLines (rest.length + 1) rest

/-- The rest of a scalar whose opening quote has been read, and the text after its closing quote. -/
def doubleQuoted (bound : Nat) (cs : List Char) : Except Fault (List Char × List Char) :=
  match bound with
  | 0 => .error .malformed
  | bound + 1 =>
    match cs with
    | [] => .error .malformed
    | '"' :: rest => .ok ([], rest)
    | '\\' :: rest =>
      match readEscape rest with
      | .error fault => .error fault
      | .ok (chars, rest) =>
        (doubleQuoted bound rest).map fun (text, rest) => (chars ++ text, rest)
    | c :: rest =>
      if isGap c then
        match quotedGap cs with
        | .error fault => .error fault
        | .ok (gap, rest) => (doubleQuoted bound rest).map fun (text, rest) => (gap ++ text, rest)
      else (doubleQuoted bound rest).map fun (text, rest) => (c :: text, rest)

end ImageTrust.Yaml
