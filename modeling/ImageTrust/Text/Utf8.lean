import ImageTrust.Text.Quoted

/-! # UTF-8 texts

Reading the bytes of a file as a text. The first byte that breaks the encoding is reported with its
position and the reason; line ends of all three kinds become line feeds.
-/

namespace ImageTrust.Text

/-- What is wrong with a sequence of bytes. -/
inductive Utf8Reason
  | invalidStart
  | invalidContinuation
  | unexpectedEnd
  deriving DecidableEq, Repr

/-- The first fault of a text: `count` bytes from `position` on are no character. -/
structure Utf8Fault where
  reason : Utf8Reason
  position : Nat
  count : Nat
  first : UInt8
  deriving DecidableEq, Repr

def Utf8Reason.message : Utf8Reason → String
  | .invalidStart => "invalid start byte"
  | .invalidContinuation => "invalid continuation byte"
  | .unexpectedEnd => "unexpected end of data"

def Utf8Fault.message (fault : Utf8Fault) : String :=
  let place :=
    if fault.count = 1 then
      "byte 0x" ++ String.ofList (hexDigits 2 fault.first.toNat) ++
        " in position " ++ toString fault.position
    else
      "bytes in position " ++ toString fault.position ++ "-" ++
        toString (fault.position + fault.count - 1)
  "'utf-8' codec can't decode " ++ place ++ ": " ++ fault.reason.message

/-- What a first byte asks for: how many further bytes, and the bounds of the next one. Overlong
forms, surrogates and numbers past the last code point are excluded by the bounds. -/
def continuation? (b : UInt8) : Option (Nat × UInt8 × UInt8) :=
  if b < 0x80 then some (0, 0x80, 0xBF)
  else if b < 0xC2 then none
  else if b < 0xE0 then some (1, 0x80, 0xBF)
  else if b < 0xF0 then
    some (2, if b = 0xE0 then 0xA0 else 0x80, if b = 0xED then 0x9F else 0xBF)
  else if b < 0xF5 then
    some (3, if b = 0xF0 then 0x90 else 0x80, if b = 0xF4 then 0x8F else 0xBF)
  else none

/-- How many of the next `wanted` bytes continue a character whose next byte lies within the bounds,
and whether they are followed by a byte that does not (rather than by the end). -/
def countContinuation (low high : UInt8) : Nat → List UInt8 → Nat × Bool
  | 0, _ => (0, false)
  | _ + 1, [] => (0, false)
  | wanted + 1, b :: bs =>
    if low ≤ b && b ≤ high then
      let (n, refused) := countContinuation 0x80 0xBF wanted bs
      (n + 1, refused)
    else (0, true)

/-- The code point of a first byte and its `n` continuation bytes. -/
def codePoint (b : UInt8) (n : Nat) (bs : List UInt8) : Nat :=
  let lead := if n = 0 then b.toNat else b.toNat % Nat.pow 2 (6 - n)
  (bs.take n).foldl (fun v c => v * 64 + c.toNat % 64) lead

/-- Read bytes that start at `position` of a file. -/
def decodeFrom (position : Nat) (bytes : List UInt8) : Except Utf8Fault (List Char) :=
  match bytes with
  | [] => .ok []
  | b :: bs =>
    match continuation? b with
    | none => .error ⟨.invalidStart, position, 1, b⟩
    | some (wanted, low, high) =>
      let (found, refused) := countContinuation low high wanted bs
      if found < wanted then
        let reason := if refused then .invalidContinuation else .unexpectedEnd
        .error ⟨reason, position, found + 1, b⟩
      else
        match decodeFrom (position + wanted + 1) (bs.drop wanted) with
        | .error fault => .error fault
        | .ok cs => .ok (Char.ofNat (codePoint b wanted bs) :: cs)
termination_by bytes.length
decreasing_by
  simp only [List.length_drop, List.length_cons]
  omega

/-- Every carriage return, with the line feed after it if there is one, becomes a line feed. -/
def unifyLineEnds : List Char → List Char
  | [] => []
  | '\r' :: '\n' :: cs => '\n' :: unifyLineEnds cs
  | '\r' :: cs => '\n' :: unifyLineEnds cs
  | c :: cs => c :: unifyLineEnds cs

/-- The text of a file. -/
def ofBytes (bytes : List UInt8) : Except Utf8Fault String :=
  (decodeFrom 0 bytes).map fun cs => String.ofList (unifyLineEnds cs)

end ImageTrust.Text
