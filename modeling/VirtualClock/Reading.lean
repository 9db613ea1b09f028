import VirtualClock.Calendar
import VirtualClock.Instant
import VirtualClock.Text.Digits

/-!
What a clock shows at an instant: a date and a time of day in UTC, and the three ways to write
them. A leap second is shown as second 60, and its instants are those of the second before it.
-/

namespace VirtualClock

/-- Nanoseconds in one second. -/
def nanosPerSecond : Nat := 1000000000

/-- Seconds in one day. -/
def secondsPerDay : Nat := 86400

namespace Instant

/-- Whole seconds since the start of 1970. -/
def second (t : Instant) : Int := t.nanos / nanosPerSecond

/-- Nanoseconds since the last full second. -/
def nanoOfSecond (t : Instant) : Nat := (t.nanos % nanosPerSecond).toNat

/-- Whole days since the start of 1970. -/
def day (t : Instant) : Int := t.second / secondsPerDay

/-- Seconds since midnight. -/
def secondOfDay (t : Instant) : Nat := (t.second % secondsPerDay).toNat

/-- An instant is made of its day, the seconds since midnight, and the nanoseconds since then. -/
theorem nanos_of_parts (t : Instant) :
    (t.day * secondsPerDay + t.secondOfDay) * nanosPerSecond + t.nanoOfSecond = t.nanos := by
  simp only [day, secondOfDay, nanoOfSecond, second, nanosPerSecond, secondsPerDay]
  omega

end Instant

/-- An instant as a clock shows it. -/
structure Reading where
  instant : Instant
  /-- The clock is in the leap second that follows the second of `instant`. -/
  leap : Bool := false
deriving DecidableEq

namespace Reading

instance : Inhabited Reading := ⟨{ instant := default }⟩

/-- Nanoseconds since the second that is counted from midnight; a leap second adds a full one. -/
def fraction (r : Reading) : Int := r.instant.nanoOfSecond + (if r.leap then nanosPerSecond else 0)

/-- The time from `s` to `r`. A leap second is counted if it lies between their times of day. -/
def since (r s : Reading) : Delay :=
  let days := r.instant.day - s.instant.day
  let seconds : Int := r.instant.secondOfDay - s.instant.secondOfDay
  let leap : Int :=
    if 0 < seconds && s.leap then 1 else if seconds < 0 && r.leap then -1 else 0
  ⟨(days * secondsPerDay + seconds + leap) * nanosPerSecond + (r.fraction - s.fraction)⟩

/-- What a clock shows at `t` that was set to `r` and has not been set since. -/
def carry (r : Reading) (t : Instant) : Reading := ⟨t, r.leap && t.second == r.instant.second⟩

/-- A clock that was set outside of a leap second shows the time that has passed. -/
theorem since_carry {r : Reading} (h : r.leap = false) (t : Instant) :
    (r.carry t).since r = t.since r.instant := by
  have hfraction (u : Instant) : (⟨u, false⟩ : Reading).fraction = u.nanoOfSecond :=
    Int.add_zero _
  obtain ⟨s, leap⟩ := r
  obtain rfl : leap = false := h
  have ht := t.nanos_of_parts
  have hs := s.nanos_of_parts
  unfold secondsPerDay nanosPerSecond at ht hs
  refine Delay.ext ?_
  rw [Instant.since, since, carry, Bool.false_and, hfraction, hfraction]
  simp only [Bool.and_false, Bool.false_eq_true, if_false, secondsPerDay, nanosPerSecond]
  omega

/-- How many digits of a second are written. -/
inductive Precision where
  /-- None, three, six or nine: the fewest that lose nothing. -/
  | fewest
  | nine
deriving DecidableEq

/-- A point and the digits of a second that `nano` nanoseconds make. -/
def fractionText : Precision → Nat → List Char
  | .nine, nano => '.' :: Text.padded 9 nano
  | .fewest, nano =>
    if nano = 0 then []
    else if nano % 1000000 = 0 then '.' :: Text.padded 3 (nano / 1000000)
    else if nano % 1000 = 0 then '.' :: Text.padded 6 (nano / 1000)
    else '.' :: Text.padded 9 nano

/-- A year in four digits, or with its sign if it is not one of 0 to 9999. -/
def yearText (year : Int) : List Char :=
  if 0 ≤ year ∧ year ≤ 9999 then Text.padded 4 year.toNat
  else (if year < 0 then '-' else '+') :: Text.padded 4 year.natAbs

/-- The date as `2009-02-19`. -/
def dateText (r : Reading) : List Char :=
  let date := Date.ofDays r.instant.day
  yearText date.year ++ '-' :: Text.padded 2 date.month ++ '-' :: Text.padded 2 date.day

/-- The time of day as `00:00:00.005`. -/
def timeText (p : Precision) (r : Reading) : List Char :=
  let s := r.instant.secondOfDay
  Text.padded 2 (s / 3600) ++ ':' :: Text.padded 2 (s / 60 % 60) ++
    ':' :: Text.padded 2 (s % 60 + (if r.leap then 1 else 0)) ++
    fractionText p r.instant.nanoOfSecond

/-- The form of RFC 3339, `2009-02-19T00:00:00.005Z`. -/
def rfc3339 (p : Precision) (r : Reading) : List Char :=
  r.dateText ++ 'T' :: (r.timeText p ++ ['Z'])

/-- The form of log messages, `2009-02-19 00:00:00.005 UTC`. -/
def plain (r : Reading) : List Char :=
  r.dateText ++ ' ' :: (r.timeText .fewest ++ [' ', 'U', 'T', 'C'])

end Reading

namespace Instant

/-- What a clock shows at `t` outside of a leap second. -/
def reading (t : Instant) : Reading := { instant := t }

/-- The form of RFC 3339 with the fewest digits. -/
def rfc3339 (t : Instant) : String := .ofList (t.reading.rfc3339 .fewest)

/-- The form of log messages. -/
def plain (t : Instant) : String := .ofList t.reading.plain

end Instant

namespace Delay

/-- The digits after the point, without the zeros at the end. -/
def fractionDigits (nano : Nat) : List Char :=
  ((Text.padded 9 nano).reverse.dropWhile (· == '0')).reverse

/-- A delay in the form of ISO 8601, in seconds: `PT0.005S`, or `P0D` for no time at all. A minus
sign goes in front of a negative one. -/
def chars (d : Delay) : List Char :=
  let n := d.nanos.natAbs
  (if d.nanos < 0 then ['-'] else []) ++
    if n = 0 then ['P', '0', 'D']
    else
      let fraction := fractionDigits (n % nanosPerSecond)
      'P' :: 'T' :: Text.decimal (n / nanosPerSecond) ++
        (if fraction.isEmpty then [] else '.' :: fraction) ++ ['S']

/-- A delay in the form of ISO 8601. -/
def text (d : Delay) : String := .ofList d.chars

end Delay

end VirtualClock
