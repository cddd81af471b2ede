import ImageTrust.Json
import ImageTrust.Text.Blank

/-! # Instructions of a Dockerfile

A Dockerfile is read in three passes: comments are dropped, continued lines are joined, and the lines
that start with a word are taken as instructions. White space before a comment, after a continuing
backslash and around the word of an instruction may run over several lines. A reader whose arrays have
limits gives up at the first array that goes beyond them, and has no instructions at all.
-/

namespace ImageTrust

/-- An instruction: its word in capitals, its arguments and its text. -/
structure Instruction where
  keyword : String
  arguments : List String
  raw : String
  deriving DecidableEq, Repr

namespace Dockerfile

open Text

/-! ## Comments -/

/-- The text after the comment at the start of a line, blank lines before it included. The line end of
the comment is kept. -/
def afterComment? (cs : List Char) : Option (List Char) :=
  match cs.dropWhile isBlank with
  | '#' :: rest => some (rest.dropWhile (· ≠ '\n'))
  | _ => none

theorem afterComment?_length {cs rest : List Char} (h : afterComment? cs = some rest) :
    rest.length < cs.length := by
  have h₁ := length_dropWhile_le isBlank cs
  unfold afterComment? at h
  split at h
  · next tail heq =>
    have h₂ := length_dropWhile_le (fun c : Char => decide (c ≠ '\n')) tail
    simp only [Option.some.injEq] at h
    rw [heq, List.length_cons] at h₁
    rw [← h]
    omega
  · simp at h

/-- A text without its comments. `lineStart` tells whether it begins with a line. -/
def dropCommentsFrom (lineStart : Bool) (cs : List Char) : List Char :=
  match _h : if lineStart then afterComment? cs else none with
  | some rest => dropCommentsFrom false rest
  | none =>
    match cs with
    | [] => []
    | c :: rest => c :: dropCommentsFrom (c = '\n') rest
termination_by cs.length
decreasing_by
  · split at _h
    · exact afterComment?_length _h
    · simp at _h
  · simp

def dropComments (cs : List Char) : List Char :=
  dropCommentsFrom true cs

/-! ## Continued lines -/

/-- The text after the last line end of the white space that a text starts with, if there is one. -/
def afterLineEnds? (cs : List Char) : Option (List Char) :=
  let space := cs.takeWhile isBlank
  if space.contains '\n' then
    some ((space.reverse.takeWhile (· ≠ '\n')).reverse ++ cs.dropWhile isBlank)
  else none

theorem afterLineEnds?_length {cs rest : List Char} (h : afterLineEnds? cs = some rest) :
    rest.length ≤ cs.length := by
  have h₁ := (List.takeWhile_prefix (p := fun c : Char => decide (c ≠ '\n'))
    (l := (cs.takeWhile isBlank).reverse)).length_le
  have h₂ := congrArg List.length (List.takeWhile_append_dropWhile (p := isBlank) (l := cs))
  unfold afterLineEnds? at h
  dsimp only at h
  split at h
  · simp only [Option.some.injEq] at h
    rw [← h]
    simp only [List.length_append, List.length_reverse] at *
    omega
  · simp at h

/-- A text in which a backslash at the end of a line, and the blank lines after it, have become a
space. -/
def joinLines : List Char → List Char
  | [] => []
  | '\\' :: cs =>
    match _h : afterLineEnds? cs with
    | some rest => ' ' :: joinLines rest
    | none => '\\' :: joinLines cs
  | c :: cs => c :: joinLines cs
termination_by cs => cs.length
decreasing_by
  · have := afterLineEnds?_length _h
    simp only [List.length_cons]
    omega
  all_goals simp

/-! ## Instructions -/

/-- The parts of an instruction as written: its word, the white space after it and the rest of the
line. -/
structure Written where
  word : List Char
  gap : List Char
  argument : List Char
  deriving DecidableEq, Repr

/-- The instruction at the start of a line, and the text after it. -/
def readInstruction? (cs : List Char) : Option (Written × List Char) :=
  let start := cs.dropWhile isBlank
  let word := start.takeWhile Char.isAlpha
  let afterWord := start.dropWhile Char.isAlpha
  let gap := afterWord.takeWhile isBlank
  let afterGap := afterWord.dropWhile isBlank
  if word.isEmpty || gap.isEmpty then none
  else some (⟨word, gap, afterGap.takeWhile (· ≠ '\n')⟩, afterGap.dropWhile (· ≠ '\n'))

theorem readInstruction?_length {cs : List Char} {w : Written} {rest : List Char}
    (h : readInstruction? cs = some (w, rest)) : rest.length < cs.length := by
  have h₁ := length_dropWhile_le isBlank cs
  have h₂ := congrArg List.length
    (List.takeWhile_append_dropWhile (p := Char.isAlpha) (l := cs.dropWhile isBlank))
  have h₃ := length_dropWhile_le isBlank ((cs.dropWhile isBlank).dropWhile Char.isAlpha)
  have h₄ := length_dropWhile_le (fun c : Char => decide (c ≠ '\n'))
    (((cs.dropWhile isBlank).dropWhile Char.isAlpha).dropWhile isBlank)
  unfold readInstruction? at h
  dsimp only at h
  split at h
  · simp at h
  · next hne =>
    simp only [Option.some.injEq, Prod.mk.injEq] at h
    simp only [Bool.or_eq_true, List.isEmpty_iff, not_or] at hne
    have h₅ := List.length_pos_iff.2 hne.1
    rw [← h.2]
    simp only [List.length_append] at h₂
    omega

/-- The instructions of a text, as written. `lineStart` tells whether it begins with a line. -/
def scanFrom (lineStart : Bool) (cs : List Char) : List Written :=
  match _h : if lineStart then readInstruction? cs else none with
  | some (w, rest) => w :: scanFrom false rest
  | none =>
    match cs with
    | [] => []
    | c :: rest => scanFrom (c = '\n') rest
termination_by cs.length
decreasing_by
  · split at _h
    · exact readInstruction?_length _h
    · simp at _h
  · simp

/-- Whether the arguments of an instruction are written as an array. -/
def isArray (argument : List Char) : Bool :=
  argument.head? = some '[' && argument.getLast? = some ']'

theorem isArray_eq_false {argument : List Char} (h : argument.head? ≠ some '[') :
    isArray argument = false := by
  simp [isArray, h]

/-- The arguments of an instruction: the texts of a JSON array, the words after FROM, or else the whole
text. -/
def argumentsOf (keyword : String) (argument : List Char) : List String :=
  if isArray argument then
    match (Json.read? argument).bind Json.texts? with
    | some texts => texts.map String.ofList
    | none => [String.ofList argument]
  else if keyword = "FROM" then (words argument).map String.ofList
  else [String.ofList argument]

def Written.keyword (w : Written) : String :=
  String.ofList (w.word.map Char.toUpper)

def Written.instruction (w : Written) : Instruction where
  keyword := w.keyword
  arguments := argumentsOf w.keyword (trim w.argument)
  raw := String.ofList (trim (w.word ++ w.gap ++ w.argument))

/-- A text without comments and with its continued lines joined. -/
def preprocess (cs : List Char) : List Char :=
  joinLines (dropComments cs)

/-- The instructions of a Dockerfile. -/
def instructions (content : String) : List Instruction :=
  (scanFrom true (preprocess content.toList)).map Written.instruction

/-! ## Limits -/

/-- What a reader with limits gives up at in an instruction, if it does. -/
def Written.excess? (limits : Json.Limits) (w : Written) : Option Json.Excess :=
  if isArray (trim w.argument) then Json.excess? limits (trim w.argument) else none

/-- What a reader with limits gives up at in a Dockerfile, if it does. -/
def excess? (limits : Json.Limits) (content : String) : Option Json.Excess :=
  (scanFrom true (preprocess content.toList)).findSome? (Written.excess? limits)

end Dockerfile

end ImageTrust
