/-!
Whole numbers of 64 bits, with a sign and without.
-/

namespace VirtualClock.Word64

/-- How many numbers there are. -/
def count : Nat := 18446744073709551616

/-- Whether `n` is a number without a sign. -/
def isUnsigned (n : Int) : Bool := 0 ≤ n && n ≤ 18446744073709551615

/-- Whether `n` is a number with a sign. -/
def isSigned (n : Int) : Bool := -9223372036854775808 ≤ n && n ≤ 9223372036854775807

end VirtualClock.Word64
