import VirtualClock.Json
import VirtualClock.Word64

/-!
Reading JSON. Every reader takes the characters to read and gives back those it did not use.
-/

namespace VirtualClock.Json

open Text

/-- The text without the blanks of JSON it starts with. -/
def skipBlanks (cs : List Char) : List Char :=
  cs.dropWhile fun c => c = ' ' || c = '\n' || c = '\r' || c = '\t'

/-- The value of a hexadecimal digit. -/
def hexValue? (c : Char) : Option Nat :=
  if '0' ≤ c ∧ c ≤ '9' then some (c.toNat - '0'.toNat)
  else if 'a' ≤ c ∧ c ≤ 'f' then some (c.toNat - 'a'.toNat + 10)
  else if 'A' ≤ c ∧ c ≤ 'F' then some (c.toNat - 'A'.toNat + 10)
  else none

/-- The number of four hexadecimal digits. -/
def hex4? (a b c d : Char) : Option Nat := do
  return ((← hexValue? a) * 16 + (← hexValue? b)) * 256 + (← hexValue? c) * 16 + (← hexValue? d)

/-- The character that a letter stands for after a backslash. -/
def unescape? : Char → Option Char
  | '"' => some '"'
  | '\\' => some '\\'
  | '/' => some '/'
  | 'b' => some (Char.ofNat 8)
  | 'f' => some (Char.ofNat 12)
  | 'n' => some '\n'
  | 'r' => some '\r'
  | 't' => some '\t'
  | _ => none

/-- The characters of a string up to its closing quote. A character beyond 16 bits may be escaped
as a pair of surrogates; a surrogate alone is no character. -/
def stringBody : List Char → Option (List Char × List Char)
  | [] => none
  | '"' :: rest => some ([], rest)
  | '\\' :: 'u' :: a :: b :: c :: d :: rest =>
    match hex4? a b c d with
    | none => none
    | some n =>
      if n < 0xD800 || 0xDFFF < n then
        (stringBody rest).map fun (cs, r) => (Char.ofNat n :: cs, r)
      else if 0xDC00 ≤ n then none
      else
        match rest with
        | '\\' :: 'u' :: e :: f :: g :: h :: rest =>
          match hex4? e f g h with
          | none => none
          | some m =>
            if 0xDC00 ≤ m && m ≤ 0xDFFF then
              (stringBody rest).map fun (cs, r) =>
                (Char.ofNat (0x10000 + (n - 0xD800) * 0x400 + (m - 0xDC00)) :: cs, r)
            else none
        | _ => none
  | '\\' :: c :: rest =>
    match unescape? c with
    | none => none
    | some e => (stringBody rest).map fun (cs, r) => (e :: cs, r)
  | c :: rest =>
    if c = '\\' || c.toNat < 32 then none
    else (stringBody rest).map fun (cs, r) => (c :: cs, r)

/-- An optional point with at least one digit. -/
def fractionPart? (cs : List Char) : Option (List Char × List Char) :=
  match cs with
  | '.' :: rest =>
    let (ds, rest) := spanDigits rest.length rest
    if ds.isEmpty then none else some ('.' :: ds, rest)
  | _ => some ([], cs)

/-- An optional exponent with at least one digit. -/
def exponentPart? (cs : List Char) : Option (List Char × List Char) :=
  let digits (head rest : List Char) : Option (List Char × List Char) :=
    let (ds, rest) := spanDigits rest.length rest
    if ds.isEmpty then none else some (head ++ ds, rest)
  match cs with
  | 'e' :: '+' :: rest | 'E' :: '+' :: rest => digits ['e', '+'] rest
  | 'e' :: '-' :: rest | 'E' :: '-' :: rest => digits ['e', '-'] rest
  | 'e' :: rest | 'E' :: rest => digits ['e'] rest
  | _ => some ([], cs)

/-- A number. Zeros do not lead, and minus zero is not an integer. -/
def number? (cs : List Char) : Option (Json × List Char) := do
  let (negative, cs) := match cs with
    | '-' :: rest => (true, rest)
    | _ => (false, cs)
  let (ds, cs) := spanDigits cs.length cs
  if ds.isEmpty || (ds.head? == some '0' && 1 < ds.length) then none
  else
    let (fraction, cs) ← fractionPart? cs
    let (exponent, cs) ← exponentPart? cs
    let n := ofDecimal ds
    let whole := fraction.isEmpty && exponent.isEmpty
    if whole && !negative && Word64.isUnsigned n then some (int n, cs)
    else if whole && negative && 0 < n && Word64.isSigned (-n) then some (int (-n), cs)
    else some (real (.ofList ((if negative then ['-'] else []) ++ ds ++ fraction ++ exponent)), cs)

mutual

/-- A value after any blanks. -/
def value? : (fuel : Nat) → List Char → Option (Json × List Char)
  | 0, _ => none
  | fuel + 1, cs =>
    match skipBlanks cs with
    | 'n' :: 'u' :: 'l' :: 'l' :: rest => some (null, rest)
    | 't' :: 'r' :: 'u' :: 'e' :: rest => some (bool true, rest)
    | 'f' :: 'a' :: 'l' :: 's' :: 'e' :: rest => some (bool false, rest)
    | '"' :: rest => (stringBody rest).map fun (s, rest) => (str (.ofList s), rest)
    | '[' :: rest =>
      match skipBlanks rest with
      | ']' :: rest => some (arr [], rest)
      | rest => (elements? fuel rest).map fun (vs, rest) => (arr vs, rest)
    | '\x7b' :: rest =>
      match skipBlanks rest with
      | '\x7d' :: rest => some (obj [], rest)
      | rest => (members? fuel rest).map fun (ms, rest) => (obj ms, rest)
    | rest => number? rest

/-- One or more elements and the closing bracket. -/
def elements? : (fuel : Nat) → List Char → Option (List Json × List Char)
  | 0, _ => none
  | fuel + 1, cs =>
    match value? fuel cs with
    | none => none
    | some (v, rest) =>
      match skipBlanks rest with
      | ']' :: rest => some ([v], rest)
      | ',' :: rest => (elements? fuel rest).map fun (vs, rest) => (v :: vs, rest)
      | _ => none

/-- One or more members and the closing brace. -/
def members? : (fuel : Nat) → List Char → Option (List (String × Json) × List Char)
  | 0, _ => none
  | fuel + 1, cs =>
    match skipBlanks cs with
    | '"' :: rest =>
      match stringBody rest with
      | none => none
      | some (k, rest) =>
        match skipBlanks rest with
        | ':' :: rest =>
          match value? fuel rest with
          | none => none
          | some (v, rest) =>
            match skipBlanks rest with
            | '\x7d' :: rest => some ([(.ofList k, v)], rest)
            | ',' :: rest =>
              (members? fuel rest).map fun (ms, rest) => ((.ofList k, v) :: ms, rest)
            | _ => none
        | _ => none
    | _ => none

end

/-- The value that the whole of `cs` denotes. -/
def ofChars? (cs : List Char) : Option Json :=
  match value? (cs.length + 1) cs with
  | some (v, rest) => if (skipBlanks rest).isEmpty then some v else none
  | none => none

/-- The value that `s` denotes. -/
def parse? (s : String) : Option Json := ofChars? s.toList

end VirtualClock.Json
