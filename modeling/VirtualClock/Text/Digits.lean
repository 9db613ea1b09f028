/-!
Decimal digits: printing with a least number of digits, and reading off a run of digits.
-/

namespace VirtualClock.Text

/-- Whether `c` is one of the ten decimal digits of ASCII. -/
def isDigit (c : Char) : Bool := '0' ≤ c && c ≤ '9'

/-- The decimal digits of `n`. -/
def decimal (n : Nat) : List Char := Nat.toDigits 10 n

/-- The decimal digits of `n`, with zeros in front up to `width` digits. -/
def padded (width n : Nat) : List Char :=
  let ds := decimal n
  List.replicate (width - ds.length) '0' ++ ds

/-- The decimal digits of `n`, after a minus sign if it is negative. -/
def signed (n : Int) : List Char :=
  if n < 0 then '-' :: decimal n.natAbs else decimal n.natAbs

/-- The number that a run of digits denotes. -/
def ofDecimal (ds : List Char) : Nat := Nat.ofDigitChars 10 ds 0

theorem ofDecimal_decimal (n : Nat) : ofDecimal (decimal n) = n :=
  Nat.ofDigitChars_toDigits (by decide) (by decide)

/-- The digits that `cs` starts with, `most` of them if there are more, and the rest. -/
def spanDigits (most : Nat) (cs : List Char) : List Char × List Char :=
  let ds := (cs.takeWhile isDigit).take most
  (ds, cs.drop ds.length)

/-- An integer in decimal, with an optional sign, and nothing else. -/
def readInt? (cs : List Char) : Option Int :=
  let (negative, ds) :=
    match cs with
    | '-' :: ds => (true, ds)
    | '+' :: ds => (false, ds)
    | ds => (false, ds)
  if ds.isEmpty || !ds.all isDigit then none
  else some (if negative then -(ofDecimal ds : Int) else ofDecimal ds)

end VirtualClock.Text
