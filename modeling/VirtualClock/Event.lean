import VirtualClock.Instant

/-!
Events: one pending firing of a timer or ticker each, and what is handed out when one falls due.
The type `δ` says where a firing is delivered.
-/

namespace VirtualClock

/-- One pending firing of the timer or ticker `id`. -/
structure Event (δ : Type) where
  id : Nat
  target : Instant
  /-- Drawn afresh whenever the event is queued: the later of two events with one target is the one
  queued later. -/
  sequence : Nat
  /-- The period of a ticker; zero for a one-shot. -/
  interval : Delay
  deliver : δ
deriving DecidableEq

/-- A ticker is queued again whenever it fires. -/
def Event.isTicker {δ : Type} (e : Event δ) : Bool := 0 < e.interval.nanos

/-- An event taken off the queue to be delivered. -/
structure Firing (δ : Type) where
  id : Nat
  at_ : Instant
  deliver : δ
deriving DecidableEq

/-- The place of an event in the queue: by target, and by order of insertion within one target. -/
structure OrderKey where
  target : Instant
  sequence : Nat
deriving DecidableEq

namespace OrderKey

/-- The lexicographic order of target and sequence. -/
def order (a b : OrderKey) : Ordering :=
  compareLex (compareOn (·.target.nanos)) (compareOn (·.sequence)) a b

instance : Ord OrderKey := ⟨order⟩

instance : Std.TransOrd OrderKey :=
  inferInstanceAs (Std.TransCmp
    (compareLex (compareOn (fun k : OrderKey => k.target.nanos)) (compareOn (·.sequence))))

theorem compare_eq (a b : OrderKey) :
    compare a b = (compare a.target.nanos b.target.nanos).then (compare a.sequence b.sequence) :=
  rfl

instance : Std.LawfulEqOrd OrderKey where
  eq_of_compare {a b} h := by
    rw [compare_eq, Ordering.then_eq_eq] at h
    obtain ⟨h1, h2⟩ := h
    cases a; cases b
    simp only [Std.LawfulEqOrd.compare_eq_iff_eq] at h1 h2
    simp [Instant.ext h1, h2]

/-- The order in words: an earlier target comes first, and so does the earlier of two insertions
for one target. -/
theorem compare_lt_iff {a b : OrderKey} :
    compare a b = .lt ↔
      a.target < b.target ∨ a.target = b.target ∧ a.sequence < b.sequence := by
  rw [compare_eq, Ordering.then_eq_lt, Instant.lt_def, Int.compare_eq_lt, Nat.compare_eq_lt,
    Int.compare_eq_eq]
  constructor
  · rintro (h | ⟨h, h'⟩)
    · exact .inl h
    · exact .inr ⟨Instant.ext h, h'⟩
  · rintro (h | ⟨h, h'⟩)
    · exact .inl h
    · exact .inr ⟨by rw [h], h'⟩

end OrderKey

/-- The key an event is queued under. -/
def Event.key {δ : Type} (e : Event δ) : OrderKey := ⟨e.target, e.sequence⟩

end VirtualClock
