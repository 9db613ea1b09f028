import VirtualClock.Text.Digits

/-!
Whole numbers in a format with 53 significant bits: a number is rounded to the nearest one of the
format, and that is written with the most zeros at its end that still lead back to it.
-/

namespace VirtualClock.Text

/-- The distance between the numbers of the format that lie around `n`. -/
def spacing (n : Nat) : Nat := Nat.pow 2 (n.log2 - 52)

/-- The number of the format that is nearest to `n`. Half way between two, it is the one that is an
even multiple of their distance. -/
def nearest (n : Nat) : Nat :=
  let unit := spacing n
  let quotient := n / unit
  let rest := 2 * (n % unit)
  if rest < unit || (rest == unit && quotient % 2 == 0) then quotient * unit
  else (quotient + 1) * unit

/-- That of two numbers around `v` which is rounded to `v`; the nearer one if both are. -/
def between? (v below above : Nat) : Option Nat :=
  if nearest below = v ∧ (nearest above ≠ v ∨ v - below < above - v) then some below
  else if nearest above = v then some above
  else none

/-- The number that is rounded to `v` and ends in `k` zeros. -/
def coarser? (v k : Nat) : Option Nat :=
  let unit := Nat.pow 10 k
  between? v (v / unit * unit) (v / unit * unit + unit)

/-- The number that is rounded to `v` and ends in the most zeros, but in `k` at most. -/
def roundest (v : Nat) : (k : Nat) → Nat
  | 0 => v
  | k + 1 => (coarser? v (k + 1)).getD (roundest v k)

/-- What is written for the number of the format nearest to `n`. -/
def rounded (n : Int) : List Char :=
  let v := nearest n.natAbs
  let ds := decimal (roundest v (decimal v).length)
  if n < 0 then '-' :: ds else ds

example : rounded 9007199254740993 = decimal 9007199254740992 := by decide
example : rounded 9223372036854775807 = decimal 9223372036854776000 := by decide

end VirtualClock.Text
