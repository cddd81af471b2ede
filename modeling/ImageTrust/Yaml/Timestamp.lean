import ImageTrust.Yaml.Fault
import ImageTrust.Yaml.Source

/-! # Points in time

Dates with or without a time of day, as a scalar may spell them, and the check that they exist.
-/

namespace ImageTrust.Yaml

structure Clock where
  hour : Nat
  minute : Nat
  second : Nat
  /-- The distance from universal time in minutes, if it is told as hours and minutes. -/
  offset : Option Int
  deriving DecidableEq, Repr

structure Timestamp where
  year : Nat
  month : Nat
  day : Nat
  /-- Whether month and day have two digits each. -/
  padded : Bool
  clock : Option Clock
  deriving DecidableEq, Repr

namespace Timestamp

/-! ## Reading -/

def digitsValue (digits : List Char) : Nat :=
  digits.foldl (fun n c => n * 10 + (c.toNat - '0'.toNat)) 0

/-- As many digits as there are, at least `least` and at most `most`: the number and how many digits it
has, and the rest. -/
def readDigits? (least most : Nat) (cs : List Char) : Option ((Nat × Nat) × List Char) :=
  let digits := (cs.take most).takeWhile Char.isDigit
  if digits.length < least then none
  else some ((digitsValue digits, digits.length), cs.drop digits.length)

/-- What follows a character. -/
def expect? (c : Char) (cs : List Char) : Option (List Char) :=
  match cs with
  | d :: rest => if d = c then some rest else none
  | [] => none

/-- The distance from universal time at the end of a time of day. -/
def readOffset? (cs : List Char) : Option (Option Int) :=
  let zone := cs.dropWhile fun c => c = ' ' || c = '\t'
  match zone with
  | [] => if cs.isEmpty then some none else none
  | ['Z'] => some none
  | sign :: rest => do
    if sign ≠ '+' && sign ≠ '-' then none
    let ((hours, _), rest) ← readDigits? 1 2 rest
    let minutes ←
      match rest with
      | [] => some 0
      | ':' :: rest =>
        match readDigits? 2 2 rest with
        | some ((minutes, _), []) => some minutes
        | _ => none
      | _ => none
    let distance : Int := hours * 60 + minutes
    return some (if sign = '-' then -distance else distance)

/-- The time of day after the separator from the date. -/
def readClock? (cs : List Char) : Option Clock := do
  let ((hour, _), rest) ← readDigits? 1 2 cs
  let ((minute, _), rest) ← readDigits? 2 2 (← expect? ':' rest)
  let ((second, _), rest) ← readDigits? 2 2 (← expect? ':' rest)
  let rest :=
    match rest with
    | '.' :: fraction => fraction.dropWhile Char.isDigit
    | _ => rest
  return ⟨hour, minute, second, ← readOffset? rest⟩

/-- The text after the separator between a date and a time of day: a T or blanks. -/
def afterSeparator? (cs : List Char) : Option (List Char) :=
  match cs with
  | [] => none
  | c :: rest =>
    if c = 'T' || c = 't' then some rest
    else if c = ' ' || c = '\t' then some (rest.dropWhile fun c => c = ' ' || c = '\t')
    else none

/-- A date, or a date and a time of day. -/
def read? (cs : List Char) : Option Timestamp := do
  let ((year, _), rest) ← readDigits? 4 4 cs
  let ((month, width), rest) ← readDigits? 1 2 (← expect? '-' rest)
  let ((day, width'), rest) ← readDigits? 1 2 (← expect? '-' rest)
  let padded := width = 2 && width' = 2
  match rest with
  | [] => return ⟨year, month, day, padded, none⟩
  | _ => return ⟨year, month, day, padded, some (← readClock? (← afterSeparator? rest))⟩

/-! ## Checking -/

def isLeapYear (year : Nat) : Bool :=
  year % 4 == 0 && (year % 100 != 0 || year % 400 == 0)

def daysIn (year month : Nat) : Nat :=
  if month = 2 then if isLeapYear year then 29 else 28
  else if month = 4 || month = 6 || month = 9 || month = 11 then 30
  else 31

def checkDate (t : Timestamp) : Except DateFault Unit :=
  if t.year = 0 then .error (.year t.year)
  else if t.month = 0 || 12 < t.month then .error .month
  else if t.day = 0 || daysIn t.year t.month < t.day then .error .day
  else .ok ()

def checkOffset (c : Clock) : Except DateFault Unit :=
  match c.offset with
  | some minutes => if 1440 ≤ minutes.natAbs then .error (.offset minutes) else .ok ()
  | none => .ok ()

def checkClock (c : Clock) : Except DateFault Unit :=
  if 23 < c.hour then .error .hour
  else if 59 < c.minute then .error .minute
  else if 59 < c.second then .error .second
  else .ok ()

/-- A fault of a point in time, if it has one. -/
def check (t : Timestamp) : Except DateFault Unit := do
  match t.clock with
  | none => t.checkDate
  | some c => do
    checkOffset c
    t.checkDate
    checkClock c

end Timestamp

end ImageTrust.Yaml
