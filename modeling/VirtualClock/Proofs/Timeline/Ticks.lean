import Mathlib.Tactic.Linarith
import Mathlib.Tactic.Ring
import VirtualClock.Proofs.Queue.Events
import VirtualClock.Proofs.Timeline.Moves

/-! The firings that a pending event has before it up to a limit: one for a one-shot, and one every
period for a ticker. Popping the event takes off the first of them and leaves the others to its next
tick. So the number of all of them, the backlog of a queue, is what an advance has left to do, and
popping lowers it by one although a ticker goes back into the queue. -/

namespace VirtualClock

variable {δ : Type}

namespace Event

/-- How often an event fires up to `limit`, if only time passes. -/
def due (limit : Instant) (e : Event δ) : Nat :=
  if limit < e.target then 0
  else if e.isTicker then ((limit.nanos - e.target.nanos) / e.interval.nanos).toNat + 1
  else 1

/-- The instants of these firings, in nanoseconds. -/
def ticks (limit : Instant) (e : Event δ) : List Int :=
  (List.range (e.due limit)).map fun k : Nat => e.target.nanos + k * e.interval.nanos

/-- Whether an event is pending after its firings up to `limit`: it was not due, or it is a ticker
with a further tick before the end of time. -/
def Lasts (limit : Instant) (e : Event δ) : Prop :=
  limit < e.target ∨
    e.isTicker = true ∧ e.target.nanos + e.due limit * e.interval.nanos ≤ Instant.last.nanos

/-- After its firings up to `limit` the event `e` is pending as `x`: unchanged if it was not due,
and otherwise for the first of its ticks that is later than `limit`. -/
structure Left (limit : Instant) (e x : Event δ) : Prop where
  id_eq : x.id = e.id
  interval_eq : x.interval = e.interval
  deliver_eq : x.deliver = e.deliver
  target_eq : x.target.nanos = e.target.nanos + e.due limit * e.interval.nanos
  limit_lt : limit < x.target
  eq_of_lt : limit < e.target → x = e

variable {limit : Instant} {e e' x : Event δ}

@[simp] theorem due_withSequence (n : Nat) : (e.withSequence n).due limit = e.due limit := rfl

@[simp] theorem ticks_withSequence (n : Nat) : (e.withSequence n).ticks limit = e.ticks limit := rfl

theorem isTicker_iff : e.isTicker = true ↔ 0 < e.interval.nanos := by
  simp [isTicker]

theorem next?_eq_none_iff :
    e.next? = none ↔
      e.isTicker = true → Instant.last.nanos < e.target.nanos + e.interval.nanos := by
  unfold next?
  split
  · rename_i hticker
    have hpos := isTicker_iff.mp hticker
    have hfirst := e.target.first_le
    rw [Option.map_eq_none_iff]
    unfold Instant.add? Instant.ofNanos?
    simp only [Instant.last, hticker, true_implies]
    split
    · simp
      omega
    · simp
      omega
  · rename_i hticker
    simp [hticker]

theorem due_of_lt (h : limit < e.target) : e.due limit = 0 := if_pos h

/-- An event that is due fires, and then as often as its next tick. -/
theorem due_of_le (h : e.target ≤ limit) :
    e.due limit = e.next?.elim 0 (due limit) + 1 := by
  have hnot : ¬limit < e.target := by
    rw [Instant.le_def] at h
    rw [Instant.lt_def]
    omega
  rw [due, if_neg hnot]
  rw [Instant.le_def] at h
  cases hnext : e.next? with
  | none =>
    rw [next?_eq_none_iff] at hnext
    split
    · rename_i hticker
      -- The period leads beyond the last instant, and so beyond the limit.
      have hbeyond := hnext hticker
      have hlast : limit.nanos ≤ Instant.last.nanos := limit.le_last
      rw [Int.ediv_eq_zero_of_lt (by omega) (by omega)]
      rfl
    · rfl
  | some e' =>
    obtain ⟨-, hinterval, -, htarget, hpos⟩ := next?_eq_some hnext
    have hticker : e.isTicker = true := isTicker_iff.mpr hpos
    have hticker' : e'.isTicker = true := by rw [isTicker_iff, hinterval]; exact hpos
    rw [if_pos hticker, Option.elim_some, due, if_pos hticker', hinterval, htarget]
    split
    · rename_i hlt
      rw [Instant.lt_def, htarget] at hlt
      rw [Int.ediv_eq_zero_of_lt (by omega) (by omega)]
      rfl
    · rename_i hge
      rw [Instant.lt_def, htarget] at hge
      have hstep : (limit.nanos - e.target.nanos) / e.interval.nanos =
          (limit.nanos - (e.target.nanos + e.interval.nanos)) / e.interval.nanos + 1 := by
        rw [← Int.add_mul_ediv_right _ _ (show e.interval.nanos ≠ 0 by omega)]
        congr 1
        omega
      have hnonneg : 0 ≤ (limit.nanos - (e.target.nanos + e.interval.nanos)) / e.interval.nanos :=
        Int.ediv_nonneg (by omega) (by omega)
      omega

theorem ticks_of_lt (h : limit < e.target) : e.ticks limit = [] := by
  rw [ticks, due_of_lt h]
  rfl

theorem ticks_of_le (h : e.target ≤ limit) :
    e.ticks limit = e.target.nanos :: e.next?.elim [] (ticks limit) := by
  rw [ticks, due_of_le h, List.range_succ_eq_map, List.map_cons, List.map_map]
  congr 1
  · simp
  · cases hnext : e.next? with
    | none => rfl
    | some e' =>
      obtain ⟨-, hinterval, -, htarget, -⟩ := next?_eq_some hnext
      simp only [Option.elim_some, ticks]
      refine List.map_congr_left fun k _ => ?_
      simp only [Function.comp_apply, hinterval, htarget]
      push_cast
      ring

theorem target_le_of_mem_ticks {n : Int} (h : n ∈ e.ticks limit) : e.target.nanos ≤ n := by
  obtain ⟨k, hk, rfl⟩ := List.mem_map.mp h
  rw [List.mem_range] at hk
  by_cases hticker : e.isTicker = true
  · have hpos := isTicker_iff.mp hticker
    have := Int.mul_nonneg (Int.natCast_nonneg k) (Int.le_of_lt hpos)
    omega
  · have hone : e.due limit ≤ 1 := by
      rw [due, if_neg hticker]
      split <;> omega
    obtain rfl : k = 0 := by omega
    simp

theorem left_of_lt (h : limit < e.target) : Left limit e e where
  id_eq := rfl
  interval_eq := rfl
  deliver_eq := rfl
  target_eq := by simp [due_of_lt h]
  limit_lt := h
  eq_of_lt _ := rfl

/-- What is left of the next tick is what is left of the event. -/
theorem Left.of_next (h : e.target ≤ limit) (hnext : e.next? = some e') {n : Nat}
    (hx : Left limit (e'.withSequence n) x) : Left limit e x := by
  obtain ⟨hid, hinterval, hdeliver, htarget, -⟩ := next?_eq_some hnext
  constructor
  · exact hx.id_eq.trans hid
  · exact hx.interval_eq.trans hinterval
  · exact hx.deliver_eq.trans hdeliver
  · have hleft : x.target.nanos = e'.target.nanos + e'.due limit * e'.interval.nanos := hx.target_eq
    rw [hleft, due_of_le h, hnext, hinterval, htarget, Option.elim_some]
    push_cast
    ring
  · exact hx.limit_lt
  · intro hlt
    rw [Instant.le_def] at h
    rw [Instant.lt_def] at hlt
    omega

theorem lasts_of_le (h : e.target ≤ limit) (hlasts : e.Lasts limit) :
    ∃ e', e.next? = some e' ∧ e'.Lasts limit := by
  obtain hlt | ⟨hticker, hfits⟩ := hlasts
  · rw [Instant.le_def] at h
    rw [Instant.lt_def] at hlt
    omega
  · rw [due_of_le h] at hfits
    cases hnext : e.next? with
    | none =>
      rw [hnext] at hfits
      have hbeyond := next?_eq_none_iff.mp hnext hticker
      simp at hfits
      omega
    | some e' =>
      obtain ⟨-, hinterval, -, htarget, hpos⟩ := next?_eq_some hnext
      refine ⟨e', rfl, .inr ⟨?_, ?_⟩⟩
      · rw [isTicker_iff, hinterval]
        exact hpos
      · rw [hnext, Option.elim_some] at hfits
        push_cast at hfits
        rw [hinterval, htarget]
        linarith

end Event

namespace EventQueue

/-- The number of firings up to `limit` that pending events have before them. -/
def backlog (q : EventQueue δ) (limit : Instant) : Nat := (q.events.map (·.due limit)).sum

variable {q : EventQueue δ} {limit : Instant} {e : Event δ}

theorem perm_without (h : Valid q) (he : e ∈ q) : q.events.Perm (e :: (q.without e).events) := by
  have hv := valid_without h he
  have hmem (x : Event δ) : x ∈ (q.without e).events ↔ x ∈ q ∧ x ≠ e := by
    rw [mem_events hv, mem_without he]
  have hnotin : e ∉ (q.without e).events := fun hin => ((hmem e).mp hin).2 rfl
  refine events_perm h (List.nodup_cons.mpr ⟨hnotin, (inOrder_events hv).nodup⟩) fun x => ?_
  rw [List.mem_cons, hmem]
  by_cases hxe : x = e
  · simp [hxe, he]
  · simp [hxe]

theorem perm_requeue (h : Valid q) (hid : ∀ x ∈ q, x.id ≠ e.id) :
    (q.requeue e).events.Perm
      ((e.next?.map (·.withSequence (q.sequence + 1))).toList ++ q.events) := by
  have hmem (x : Event δ) := mem_requeue h (e := e) (x := x)
  have hnodup := (inOrder_events h).nodup
  cases hnext : e.next? with
  | none =>
    refine events_perm (valid_requeue h hid) hnodup fun x => ?_
    rw [hmem, hnext, ← mem_events h]
    simp
  | some e' =>
    have hnotin : e'.withSequence (q.sequence + 1) ∉ q.events := by
      intro hin
      exact hid _ ((mem_events h).mp hin) (Event.next?_eq_some hnext).1
    refine events_perm (valid_requeue h hid) (List.nodup_cons.mpr ⟨hnotin, hnodup⟩) fun x => ?_
    rw [hmem, hnext, ← mem_events h]
    simp [or_comm]

/-- The event that is popped has one firing less before it, and the others as many as they had. -/
theorem backlog_popped (h : Valid q) (he : e ∈ q) (hle : e.target ≤ limit) :
    q.backlog limit = ((q.without e).requeue e).backlog limit + 1 := by
  have hid : ∀ x ∈ q.without e, x.id ≠ e.id := fun x hx => ((mem_without_iff_id h he).mp hx).2
  have hpopped := ((perm_requeue (valid_without h he) hid).map (Event.due limit)).sum_nat
  have hwithout := ((perm_without h he).map (Event.due limit)).sum_nat
  rw [List.map_append, List.sum_append] at hpopped
  rw [List.map_cons, List.sum_cons, Event.due_of_le hle] at hwithout
  have hnext : (((e.next?.map (·.withSequence ((q.without e).sequence + 1))).toList).map
      (Event.due limit)).sum = e.next?.elim 0 (Event.due limit) := by
    cases e.next? <;> simp
  rw [backlog, backlog, hpopped, hwithout, hnext]
  omega

end EventQueue

end VirtualClock
