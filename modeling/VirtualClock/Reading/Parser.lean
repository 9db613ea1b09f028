import VirtualClock.Reading
import VirtualClock.Text.Blank

/-!
Reading a date and a time. The form is that of RFC 3339 with some freedom: blanks may stand before
a number and before a separator, a number may have fewer digits, a space may stand for the `T` and
`UTC` for the `Z`, and the colon of the offset may be missing.
-/

namespace VirtualClock.Reading

open Text

/-- A number of at most `most` digits after any blanks, and the rest. -/
def number? (most : Nat) (cs : List Char) : Option (Nat × List Char) :=
  let (ds, rest) := spanDigits most (trimStart cs)
  if ds.isEmpty then none else some (ofDecimal ds, rest)

/-- A year: four digits at most, or any number of them after a sign. -/
def year? (cs : List Char) : Option (Int × List Char) :=
  match trimStart cs with
  | '-' :: rest =>
    let (ds, rest) := spanDigits rest.length rest
    if ds.isEmpty then none else some (-(ofDecimal ds : Int), rest)
  | '+' :: rest =>
    let (ds, rest) := spanDigits rest.length rest
    if ds.isEmpty then none else some ((ofDecimal ds : Int), rest)
  | rest => (number? 4 rest).map fun (n, rest) => (n, rest)

/-- The separator `c` after any blanks. -/
def separator? (c : Char) (cs : List Char) : Option (List Char) :=
  match trimStart cs with
  | d :: rest => if d = c then some rest else none
  | [] => none

/-- The nanoseconds of an optional fraction; digits after the ninth are dropped. -/
def fraction? (cs : List Char) : Option (Nat × List Char) :=
  match cs with
  | '.' :: rest =>
    let (ds, rest) := spanDigits 9 rest
    if ds.isEmpty then none
    else some (ofDecimal ds * Nat.pow 10 (9 - ds.length), rest.dropWhile isDigit)
  | _ => some (0, cs)

/-- Two digits. -/
def twoDigits? (cs : List Char) : Option (Nat × List Char) :=
  match cs with
  | a :: b :: rest => if isDigit a && isDigit b then some (ofDecimal [a, b], rest) else none
  | _ => none

/-- The seconds by which local time is ahead of UTC. -/
def offset? (cs : List Char) : Option (Int × List Char) :=
  match cs with
  | 'Z' :: rest | 'z' :: rest => some (0, rest)
  | [] => none
  | c :: rest =>
    if c.toLower = 'u' && (rest.take 2).map (·.toLower) = ['t', 'c'] then some (0, rest.drop 2)
    else do
      let negative ← if c = '+' then some false else if c = '-' || c = '−' then some true else none
      let (hours, rest) ← twoDigits? rest
      let (minutes, rest) ← twoDigits? (rest.dropWhile fun c => c = ':' || isBlank c)
      let seconds : Int := hours * 3600 + minutes * 60
      if minutes < 60 && hours < 24 then some (if negative then -seconds else seconds, rest)
      else none

/-- The reading that `year` to `nano` show, `offset` seconds ahead of UTC. Second 60 is a leap
second. The date must lie within the representable years in local time and in UTC. -/
def ofFields? (year : Int) (month day hour minute second nano : Nat) (offset : Int) :
    Option Reading := do
  let date ← Date.ofFields? year month day
  if hour < 24 ∧ minute < 60 ∧ second ≤ 60 then
    let leap := second == 60
    let ofDay := hour * 3600 + minute * 60 + (if leap then 59 else second)
    let _ ← Instant.ofNanos? (date.toDays * secondsPerDay * nanosPerSecond)
    let instant ← Instant.ofNanos?
      ((date.toDays * secondsPerDay + ofDay - offset) * nanosPerSecond + nano)
    some ⟨instant, leap⟩
  else none

/-- The reading that `cs` denotes. -/
def ofChars? (cs : List Char) : Option Reading := do
  let (year, cs) ← year? cs
  let cs ← separator? '-' cs
  let (month, cs) ← number? 2 cs
  let cs ← separator? '-' cs
  let (day, cs) ← number? 2 cs
  let cs ← match cs with
    | 't' :: rest | 'T' :: rest | ' ' :: rest => some rest
    | _ => none
  let (hour, cs) ← number? 2 cs
  let cs ← separator? ':' cs
  let (minute, cs) ← number? 2 cs
  let cs ← separator? ':' cs
  let (second, cs) ← number? 2 cs
  let (nano, cs) ← fraction? cs
  let (offset, cs) ← offset? (trimStart cs)
  if (trimStart cs).isEmpty then ofFields? year month day hour minute second nano offset else none

/-- The reading that `s` denotes. -/
def ofString? (s : String) : Option Reading := ofChars? s.toList

end VirtualClock.Reading
