/-! # Similar words

Which of some words a mistyped word may have been meant for. Two words are compared by the characters
that they share in the longest common stretch and, on both sides of it, in the same way.
-/

namespace ImageTrust.CommandLine

/-- How many characters two texts have in common at their beginning. -/
def commonStart : List Char → List Char → Nat
  | a :: as, b :: bs => if a = b then commonStart as bs + 1 else 0
  | _, _ => 0

/-- A stretch that two texts share. -/
structure Stretch where
  first : Nat
  second : Nat
  length : Nat
  deriving Repr

/-- The longest stretch that two texts share, the first one of several. -/
def longestStretch (a b : List Char) : Stretch :=
  let places := (List.range a.length).flatMap fun i => (List.range b.length).map fun j => (i, j)
  places.foldl (fun best (i, j) =>
    let n := commonStart (a.drop i) (b.drop j)
    if best.length < n then ⟨i, j, n⟩ else best) ⟨0, 0, 0⟩

/-- How many characters two texts share. -/
def shared (bound : Nat) (a b : List Char) : Nat :=
  match bound with
  | 0 => 0
  | bound + 1 =>
    let s := longestStretch a b
    if s.length = 0 then 0
    else
      shared bound (a.take s.first) (b.take s.second) + s.length +
        shared bound (a.drop (s.first + s.length)) (b.drop (s.second + s.length))

/-- Whether at least three fifths of the characters of two words are shared. -/
def isSimilar (a b : String) : Bool :=
  let as := a.toList
  let bs := b.toList
  let all := as.length + bs.length
  3 * all ≤ 10 * shared all as bs

end ImageTrust.CommandLine
