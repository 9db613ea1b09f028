/-!
Instants and delays, both counted in nanoseconds. An instant lies between the first and the last
representable one, and `deadline` is the point a delay leads to, saturated at the last instant.
-/

namespace VirtualClock

/-- A signed span of time in nanoseconds. -/
structure Delay where
  nanos : Int
deriving DecidableEq

namespace Delay

instance : Inhabited Delay := ⟨⟨0⟩⟩
instance : LE Delay := ⟨fun c d => c.nanos ≤ d.nanos⟩
instance : LT Delay := ⟨fun c d => c.nanos < d.nanos⟩

instance (c d : Delay) : Decidable (c ≤ d) := inferInstanceAs (Decidable (c.nanos ≤ d.nanos))
instance (c d : Delay) : Decidable (c < d) := inferInstanceAs (Decidable (c.nanos < d.nanos))

theorem le_def {c d : Delay} : c ≤ d ↔ c.nanos ≤ d.nanos := Iff.rfl

theorem lt_def {c d : Delay} : c < d ↔ c.nanos < d.nanos := Iff.rfl

theorem ext {c d : Delay} (h : c.nanos = d.nanos) : c = d := by
  cases c; cases d; simp at h; subst h; rfl

/-- No time at all. -/
def zero : Delay := ⟨0⟩

/-- The longest delay: as many milliseconds as a signed 64-bit count holds. -/
def longest : Delay := ⟨9223372036854775807 * 1000000⟩

/-- The delay of `ms` milliseconds, if its count and its negation fit in 64 signed bits. -/
def ofMillis? (ms : Int) : Option Delay :=
  if ms.natAbs ≤ 9223372036854775807 then some ⟨ms * 1000000⟩ else none

/-- The delay of `ns` nanoseconds, if it is no longer than the longest one. -/
def ofNanos? (ns : Int) : Option Delay :=
  if ns.natAbs ≤ longest.nanos.natAbs then some ⟨ns⟩ else none

/-- Whole milliseconds of a delay; a fraction is dropped towards zero. -/
def toMillis (d : Delay) : Int := d.nanos.tdiv 1000000

/-- A delay with everything below zero raised to zero. -/
def clamp (d : Delay) : Delay := if d.nanos < 0 then zero else d

theorem nanos_clamp (d : Delay) : d.clamp.nanos = max d.nanos 0 := by
  unfold clamp zero
  split
  · simp only; omega
  · omega

end Delay

/-- A point in time, in nanoseconds since the start of 1970, between the first instant of the year
-262143 and the last one of the year 262142. -/
structure Instant where
  nanos : Int
  first_le : -8334601228800000000000 ≤ nanos
  le_last : nanos ≤ 8210266876799999999999
deriving DecidableEq

namespace Instant

/-- The first representable instant. -/
def first : Instant := ⟨-8334601228800000000000, by decide, by decide⟩

/-- The last representable instant. -/
def last : Instant := ⟨8210266876799999999999, by decide, by decide⟩

instance : Inhabited Instant := ⟨⟨0, by decide, by decide⟩⟩

/-- The instant `ns` nanoseconds after the start of 1970, if it is representable. -/
def ofNanos? (ns : Int) : Option Instant :=
  if h : -8334601228800000000000 ≤ ns ∧ ns ≤ 8210266876799999999999 then some ⟨ns, h.1, h.2⟩
  else none

/-- The instant `ms` milliseconds after the start of 1970, if it is representable. -/
def ofMillis? (ms : Int) : Option Instant := ofNanos? (ms * 1000000)

instance : LE Instant := ⟨fun s t => s.nanos ≤ t.nanos⟩
instance : LT Instant := ⟨fun s t => s.nanos < t.nanos⟩

instance (s t : Instant) : Decidable (s ≤ t) := inferInstanceAs (Decidable (s.nanos ≤ t.nanos))
instance (s t : Instant) : Decidable (s < t) := inferInstanceAs (Decidable (s.nanos < t.nanos))

theorem le_def {s t : Instant} : s ≤ t ↔ s.nanos ≤ t.nanos := Iff.rfl

theorem lt_def {s t : Instant} : s < t ↔ s.nanos < t.nanos := Iff.rfl

theorem ext {s t : Instant} (h : s.nanos = t.nanos) : s = t := by
  cases s; cases t; simp at h; subst h; rfl

/-- The later of two instants. -/
def later (s t : Instant) : Instant := if s.nanos ≤ t.nanos then t else s

theorem nanos_later (s t : Instant) : (s.later t).nanos = max s.nanos t.nanos := by
  unfold later
  split <;> omega

theorem le_later_left (s t : Instant) : s ≤ s.later t := by
  rw [le_def, nanos_later]
  omega

theorem later_of_le {s t : Instant} (h : s ≤ t) : s.later t = t := if_pos h

/-- The time from `s` to `t`; negative if `t` is the earlier one. -/
def since (t s : Instant) : Delay := ⟨t.nanos - s.nanos⟩

/-- The instant `d` after `t`, if it is representable. -/
def add? (t : Instant) (d : Delay) : Option Instant := ofNanos? (t.nanos + d.nanos)

theorem add?_eq_some {t u : Instant} {d : Delay} :
    t.add? d = some u ↔ u.nanos = t.nanos + d.nanos := by
  unfold add? ofNanos?
  constructor
  · intro h
    split at h
    · simp at h; rw [← h]
    · simp at h
  · intro h
    have hlo := u.first_le
    have hhi := u.le_last
    rw [dif_pos (by omega)]
    exact congrArg some (ext (by simp [h]))

/-- The instant `d` after `t`, or the last instant if there is no such instant. -/
def deadline (t : Instant) (d : Delay) : Instant := (t.add? d).getD last

/-- A deadline for a delay that is not negative is the sum, cut off at the last instant. -/
theorem nanos_deadline {t : Instant} {d : Delay} (h : 0 ≤ d.nanos) :
    (t.deadline d).nanos = min (t.nanos + d.nanos) last.nanos := by
  have hlo := t.first_le
  unfold deadline add? ofNanos?
  split <;> simp only [Option.getD_some, Option.getD_none, last] <;> omega

theorem nanos_deadline_clamp (t : Instant) (d : Delay) :
    (t.deadline d.clamp).nanos = min (t.nanos + max d.nanos 0) last.nanos := by
  rw [nanos_deadline (by rw [Delay.nanos_clamp]; omega), Delay.nanos_clamp]

theorem le_deadline (t : Instant) (d : Delay) : t ≤ t.deadline d.clamp := by
  have hlast : t.nanos ≤ last.nanos := t.le_last
  rw [le_def, nanos_deadline_clamp]
  omega

end Instant

end VirtualClock
