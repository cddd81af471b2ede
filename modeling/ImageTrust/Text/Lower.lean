import ImageTrust.Text.CaseTable

/-! # Lower case

The lower case of a text. Two characters need more than a look in the table: the capital I with a dot
becomes two characters, and a capital sigma takes its final form at the end of a word.
-/

namespace ImageTrust.Text

/-- The lower case of a character on its own. -/
def lowerChar (c : Char) : Char :=
  match lowerRanges.find? fun r =>
      r.first ≤ c.toNat && c.toNat ≤ r.last && (c.toNat - r.first) % r.step == 0 with
  | some r => Char.ofNat (Int.toNat (c.toNat + r.shift))
  | none => c

/-- Whether the first character that a sigma does not look past is a cased one. -/
def meetsCased (cs : List Char) : Bool :=
  match cs.dropWhile isCaseIgnorable with
  | [] => false
  | c :: _ => isCased c

/-- The lower case of a character after the characters `before` (last first) and before `after`. -/
def lowerAmid (before : List Char) (c : Char) (after : List Char) : List Char :=
  if c = 'İ' then ['i', '\u0307']
  else if c = 'Σ' then
    if meetsCased before && !meetsCased after then ['ς'] else ['σ']
  else [lowerChar c]

/-- The lower case of a text of which `before`, last character first, has been read. -/
def lowerAfter (before : List Char) : List Char → List Char
  | [] => []
  | c :: cs => lowerAmid before c cs ++ lowerAfter (c :: before) cs

/-- The lower case of a text. -/
def lower (cs : List Char) : List Char :=
  lowerAfter [] cs

/-- The lower case of a string. -/
def lowercase (text : String) : String :=
  String.ofList (lower text.toList)

end ImageTrust.Text
