import VirtualClock.Text.Digits
import VirtualClock.Yaml.Scalar

/-!
What the text of a plain scalar denotes: nothing, a truth value, a number, or itself.
-/

namespace VirtualClock.Yaml

/-- Whether a text denotes nothing. -/
def isNull (cs : List Char) : Bool :=
  cs == ['~'] || ["null".toList, "Null".toList, "NULL".toList].contains cs

/-- The truth value that a text denotes. -/
def truth? (cs : List Char) : Option Bool :=
  if ["true".toList, "True".toList, "TRUE".toList].contains cs then some true
  else if ["false".toList, "False".toList, "FALSE".toList].contains cs then some false
  else none

/-- Whether a text has a sign in front. -/
def hasSign (cs : List Char) : Bool := cs.head?.any fun x => x == '+' || x == '-'

/-- A text without a plus sign in front. -/
def dropPlus : List Char → List Char
  | '+' :: cs => cs
  | cs => cs

/-- Several digits after a zero, with or without a sign, are not a number. -/
def isZeroPadded (cs : List Char) : Bool :=
  let cs := if hasSign cs then cs.drop 1 else cs
  1 < cs.length && cs.head? == some '0' && cs.all Text.isDigit

/-- The number of digits to some base, if there are any. -/
def digits? (base : Nat) (cs : List Char) : Option Nat :=
  if cs.isEmpty then none
  else cs.foldlM (fun n x => do
    let d ← Json.hexValue? x
    if d < base then some (n * base + d) else none) 0

/-- A number to the base that the letter behind its zero tells: `0x`, `0o` or `0b`. -/
def based? : List Char → Option Nat
  | '0' :: 'x' :: cs => digits? 16 cs
  | '0' :: 'o' :: cs => digits? 8 cs
  | '0' :: 'b' :: cs => digits? 2 cs
  | _ => none

/-- A whole number without a minus sign. -/
def unsigned? (cs : List Char) : Option Nat :=
  (based? (dropPlus cs)).or (if isZeroPadded cs then none else digits? 10 (dropPlus cs))

/-- A whole number with a minus sign. -/
def negative? : List Char → Option Int
  | '-' :: cs =>
    ((based? cs).or (if isZeroPadded cs then none else digits? 10 cs)).map fun n => -(n : Int)
  | _ => none

/-- A whole number. -/
def whole? (cs : List Char) : Option Int :=
  ((unsigned? cs).map fun n => (n : Int)).or (negative? cs)

/-- The least number that is too large for a double-precision number. -/
def tooLarge : Nat := Nat.pow 2 1024 - Nat.pow 2 970

/-- Whether `digits` times that power of ten is too large for a double-precision number. -/
def overflows (digits : Nat) (exponent : Int) : Bool :=
  let size := (Text.decimal digits).length + exponent
  if digits == 0 || size < 300 then false
  else if 320 < size then true
  else if 0 ≤ exponent then tooLarge ≤ digits * Nat.pow 10 exponent.toNat
  else tooLarge * Nat.pow 10 exponent.natAbs ≤ digits

/-- The digits and the exponent of a decimal number, with a sign, a point and an exponent or
without. -/
def decimal? (cs : List Char) : Option (Nat × Int) :=
  let cs := if hasSign cs then cs.drop 1 else cs
  let (front, rest) := Text.spanDigits cs.length cs
  let (back, rest) := match rest with
    | '.' :: rest => Text.spanDigits rest.length rest
    | _ => ([], rest)
  if front.isEmpty && back.isEmpty then none
  else
    let exponent := match rest with
      | [] => some 0
      | 'e' :: e | 'E' :: e => Text.readInt? e
      | _ => none
    exponent.map fun e => (Text.ofDecimal (front ++ back), e - back.length)

/-- Whether a text denotes a finite decimal number. -/
def isDecimal (cs : List Char) : Bool :=
  (decimal? cs).any fun (digits, exponent) => !overflows digits exponent

/-- Whether a text denotes a number that need not be whole. -/
def isFloat (cs : List Char) : Bool :=
  let unsigned := dropPlus cs
  if unsigned != cs && hasSign unsigned then false
  else
    [".inf".toList, ".Inf".toList, ".INF".toList].contains unsigned ||
      ["-.inf".toList, "-.Inf".toList, "-.INF".toList, ".nan".toList, ".NaN".toList,
        ".NAN".toList].contains cs ||
      isDecimal unsigned

/-- What a plain scalar denotes. -/
inductive Denotation where
  | null
  | bool (b : Bool)
  | int (n : Int)
  | float
  | text
deriving DecidableEq

/-- Whole numbers up to 128 bits are kept apart from other numbers. -/
def denotation (cs : List Char) : Denotation :=
  if cs.isEmpty || isNull cs then .null
  else
    match truth? cs with
    | some b => .bool b
    | none =>
      match whole? cs with
      | some n =>
        if -170141183460469231731687303715884105728 ≤ n ∧
            n ≤ 340282366920938463463374607431768211455 then .int n
        else float cs
      | none => float cs
where
  /-- What is no whole number. -/
  float (cs : List Char) : Denotation := if !isZeroPadded cs && isFloat cs then .float else .text

end VirtualClock.Yaml
