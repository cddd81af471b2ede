/-! # Base 64

Bytes written as letters, digits and two signs, four characters for three bytes. Other characters are
skipped; padding ends the text.
-/

namespace ImageTrust.Text

/-- The value of a character in base 64. -/
def base64Digit? (c : Char) : Option Nat :=
  if 'A' ≤ c && c ≤ 'Z' then some (c.toNat - 'A'.toNat)
  else if 'a' ≤ c && c ≤ 'z' then some (c.toNat - 'a'.toNat + 26)
  else if '0' ≤ c && c ≤ '9' then some (c.toNat - '0'.toNat + 52)
  else if c = '+' then some 62
  else if c = '/' then some 63
  else none

/-- The bytes of a text of which `place` characters of a group of four have been read; `carry` holds
their bits that are not yet part of a byte, `pads` counts the padding in the group. -/
def base64From (place carry pads : Nat) (cs : List Char) : Option (List UInt8) :=
  match cs with
  | [] => if place = 0 then some [] else none
  | c :: cs =>
    if c = '=' then
      if place < 2 then base64From place carry pads cs
      else if 4 ≤ place + pads + 1 then some []
      else base64From place carry (pads + 1) cs
    else
      match base64Digit? c with
      | none => base64From place carry pads cs
      | some v =>
        match place with
        | 0 => base64From 1 v 0 cs
        | 1 => (base64From 2 (v % 16) 0 cs).map (UInt8.ofNat (carry * 4 + v / 16) :: ·)
        | 2 => (base64From 3 (v % 4) 0 cs).map (UInt8.ofNat (carry * 16 + v / 4) :: ·)
        | _ => (base64From 0 0 0 cs).map (UInt8.ofNat (carry * 64 + v) :: ·)

/-- The bytes that a text stands for; none if its last group is incomplete. -/
def base64? (cs : List Char) : Option (List UInt8) :=
  base64From 0 0 0 cs

end ImageTrust.Text
