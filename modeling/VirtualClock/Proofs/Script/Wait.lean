import VirtualClock.Proofs.Script.Run
import VirtualClock.Proofs.Timeline.Waiters

/-! Waiting for a number of pending events. The caller looks once, and if too few events are pending
it registers, blocks, and at last withdraws; whatever others do to the clock in between, it is told
that the number was reached exactly if it was. -/

namespace VirtualClock.Script

variable {s : Session} {q : Source}

namespace Exec

theorem startCounting_zero (count : Nat) :
    startCounting q count 0 s =
      (.ok (.ok (.ended (.counted (count ≤ (s.clocks.timeline q).pending)))), s) := rfl

theorem startCounting_reached {count ms : Nat} (hms : ms ≠ 0)
    (hcount : count ≤ (s.clocks.timeline q).pending) :
    startCounting q count ms s = (.ok (.ok (.ended (.counted true))), s) := by
  have hregister : (s.clocks.timeline q).register count = none := by
    rw [Timeline.register, show (s.clocks.timeline q).queue.register count = none from
      if_pos hcount]
    rfl
  refine (bind_of_ok (x := timeline q) rfl).trans ?_
  rw [if_neg hms, hregister]
  rfl

/-- The waiter gets the next number, and the wait is over `ms` milliseconds of real time later. -/
theorem startCounting_registers {count ms : Nat} (hms : ms ≠ 0)
    (hcount : (s.clocks.timeline q).pending < count) :
    ∃ wake, startCounting q count ms s =
      (.ok (.ok (.counting q ((s.clocks.timeline q).queue.lastWaiter + 1) wake)),
        s.update q ((s.clocks.timeline q).move (.register count))) := by
  have hregister : (s.clocks.timeline q).register count =
      some ((s.clocks.timeline q).queue.lastWaiter + 1,
        (s.clocks.timeline q).move (.register count)) := by
    have hnew : (s.clocks.timeline q).queue.register count = some _ :=
      if_neg (Nat.not_le.mpr hcount)
    rw [Timeline.move, Timeline.register, hnew]
    rfl
  let s' := s.update q ((s.clocks.timeline q).move (.register count))
  refine ⟨s'.clocks.real.now.deadline ⟨ms * 1000000⟩,
    (bind_of_ok (x := timeline q) rfl).trans ?_⟩
  rw [if_neg hms, hregister]
  rfl

theorem stopCounting_apply (waiter : Nat) (wake : Instant) :
    stopCounting (.counting q waiter wake) s =
      (.ok (.ok ((s.clocks.timeline q).queue.wasNotified waiter)),
        s.update q ((s.clocks.timeline q).cancel waiter)) := rfl

end Exec

/-! ### The course of a wait -/

/-- What holds in `s`, where the moves `during` were made on the clock `q` since the thread that
waits there for `count` events was registered on `t` under the number `waiter`. -/
structure Waited (t : Timeline Nat) (count : Nat) (during : List (Move Nat)) (q : Source)
    (waiter : Nat) (wake : Instant) (s : Session) : Prop where
  /-- The wait is over early if the count was reached, and if the timeline was discarded. -/
  told_iff : s.result? (.counting q waiter wake) = some (.counted true) ↔ t.Reaches count during
  blocked_iff : s.result? (.counting q waiter wake) = none ↔
    ¬t.Reaches count during ∧ .discard ∉ during
  once : (s.clocks.timeline q).queue.notified.count waiter ≤ 1
  lt_count : ∀ w ∈ (s.clocks.timeline q).queue.waiters, (s.clocks.timeline q).pending < w.count
  /-- If it ends now, it tells whether the count was reached, and the waiter is never registered
  again. -/
  ends : ∃ reached s', Exec.stopCounting (.counting q waiter wake) s = (.ok (.ok reached), s') ∧
    (reached = true ↔ t.Reaches count during) ∧
    s'.result? (.counting q waiter wake) = some (.counted reached) ∧
    ∀ after, ((s'.clocks.timeline q).moves after).queue.isWaiting waiter = false

theorem Session.result?_eq_true (s : Session) (q : Source) (waiter : Nat) (wake : Instant) :
    s.result? (.counting q waiter wake) = some (.counted true) ↔
      (s.clocks.timeline q).queue.wasNotified waiter := by
  rw [result?]
  split
  · rename_i hnotified
    exact iff_of_true rfl hnotified
  · rename_i hnotified
    refine iff_of_false (fun h => ?_) hnotified
    split at h <;> cases h

theorem Session.result?_eq_none (s : Session) (q : Source) (waiter : Nat) (wake : Instant) :
    s.result? (.counting q waiter wake) = none ↔
      (s.clocks.timeline q).queue.wasNotified waiter = false ∧
        (s.clocks.timeline q).queue.isWaiting waiter := by
  rw [result?]
  split
  · simp [*]
  · split <;> simp [*]

/-- A waiter that is forgotten is not registered, nor ever will be. -/
theorem isWaiting_cancel {t : Timeline Nat} (h : t.queue.Valid) {waiter : Nat}
    (hle : waiter ≤ t.queue.lastWaiter) (after : List (Move Nat)) :
    ((t.cancel waiter).moves after).queue.isWaiting waiter = false := by
  have hgone : (t.cancel waiter).Gone waiter :=
    ⟨hle, fun _ hw => by simpa using (List.mem_filter.mp hw).2⟩
  exact (hgone.moves (Timeline.valid_move h (.cancel waiter)) after).1.isWaiting

/-- The course of the wait of a registered waiter. -/
theorem waited_moves {t : Timeline Nat} (h : t.queue.Valid) (ha : t.queue.Attended)
    {waiter count : Nat} (hw : ⟨waiter, count⟩ ∈ t.queue.waiters) (wake : Instant)
    {during : List (Move Nat)} (hothers : .cancel waiter ∉ during)
    (hs : s.clocks.timeline q = t.moves during) : Waited t count during q waiter wake s := by
  have ha' := Timeline.attended_moves h ha during
  obtain ⟨hnotified, hwaiting⟩ := Timeline.notified_iff_reaches h ha hw hothers
  have hid : waiter ≤ t.queue.lastWaiter :=
    ha.id_le waiter (List.mem_append_left _ (List.mem_map_of_mem hw))
  have hle := Nat.le_trans hid (Timeline.lastWaiter_le_moves h during)
  rw [← EventQueue.wasNotified_iff] at hnotified
  rw [← hs] at hnotified hwaiting ha' hle
  have hvalid : (s.clocks.timeline q).queue.Valid := hs ▸ Timeline.valid_moves h during
  refine ⟨(s.result?_eq_true q waiter wake).trans hnotified, ?_, ?_, ha'.lt_count, ?_⟩
  · rw [s.result?_eq_none, hwaiting, Bool.eq_false_iff, ne_eq, hnotified, ← and_assoc, and_self]
  · exact List.nodup_iff_count_le_one.mp (List.nodup_append.mp ha'.nodup).2.1 waiter
  · let s' := s.update q ((s.clocks.timeline q).cancel waiter)
    have hs' : s'.clocks.timeline q = (s.clocks.timeline q).cancel waiter :=
      Clocks.timeline_setTimeline _ q _
    have hgone := isWaiting_cancel hvalid hle
    rw [← hs'] at hgone
    refine ⟨_, s', Exec.stopCounting_apply waiter wake, hnotified, ?_, hgone⟩
    have hsame : (s'.clocks.timeline q).queue.wasNotified waiter =
        (s.clocks.timeline q).queue.wasNotified waiter := by
      rw [hs']
      rfl
    cases htold : (s.clocks.timeline q).queue.wasNotified waiter with
    | true => exact (s'.result?_eq_true q waiter wake).mpr (hsame.trans htold)
    | false =>
      rw [Session.result?]
      rw [hsame, htold, show (s'.clocks.timeline q).queue.isWaiting waiter = false from hgone []]
      rfl

/-- A wait for pending events on a clock, whatever moves have led to its timeline: without time to
wait it tells whether enough events are pending, and changes nothing; if enough are pending it ends
at once; and else it is told exactly if the count is reached while it waits. -/
theorem told_iff_reached {at_ : Reading} {before : List (Move Nat)}
    (hq : s.clocks.timeline q = (Timeline.start at_).moves before) (count ms : Nat) :
    let t := s.clocks.timeline q
    (ms = 0 → Exec.startCounting q count ms s =
      (.ok (.ok (.ended (.counted (count ≤ t.pending)))), s)) ∧
    (ms ≠ 0 → count ≤ t.pending → Exec.startCounting q count ms s =
      (.ok (.ok (.ended (.counted true))), s)) ∧
    (ms ≠ 0 → t.pending < count → ∃ waiter wake, Exec.startCounting q count ms s =
        (.ok (.ok (.counting q waiter wake)), s.update q (t.move (.register count))) ∧
      ∀ during, .cancel waiter ∉ during → ∀ s' : Session,
        s'.clocks.timeline q = (t.move (.register count)).moves during →
          Waited (t.move (.register count)) count during q waiter wake s') := by
  intro t
  have hv : t.queue.Valid := by
    rw [show t = _ from hq]
    exact Timeline.valid_moves (Timeline.valid_start at_) before
  have ha : t.queue.Attended := by
    rw [show t = _ from hq]
    exact Timeline.attended_moves (Timeline.valid_start at_) EventQueue.attended_empty before
  refine ⟨?_, Exec.startCounting_reached, fun hms hcount => ?_⟩
  · rintro rfl
    exact Exec.startCounting_zero count
  · obtain ⟨wake, hcall⟩ := Exec.startCounting_registers hms hcount
    refine ⟨_, wake, hcall, fun during hothers s' hs' => ?_⟩
    have hv' := Timeline.valid_move hv (.register count)
    have ha' := Timeline.attended_move hv ha (.register count)
    refine waited_moves hv' ha' ?_ wake hothers hs'
    have hnew : t.queue.register count = some _ := if_neg (Nat.not_le.mpr hcount)
    rw [Timeline.move_register hnew]
    exact List.mem_append_right _ List.mem_cons_self

/-- A clock on which one event is pending. -/
def onePending : Timeline Nat := (Timeline.start default).moves [.arm 1 ⟨5⟩ .zero .channel]

/-- A second event is queued and stopped, and the clock is discarded. -/
def briefly : List (Move Nat) := [.arm 2 ⟨7⟩ .zero .channel, .disarm 2, .discard]

/-- A wait for two events is told that they were pending, although the second was stopped and the
clock discarded before the waiter looked. -/
theorem told_iff_reached_briefly :
    ∃ s : Session, s.clocks.timeline (.frozen 1) = onePending ∧ onePending.pending < 2 ∧
      ∃ waiter wake, Exec.startCounting (.frozen 1) 2 10 s =
          (.ok (.ok (.counting (.frozen 1) waiter wake)),
            s.update (.frozen 1) (onePending.move (.register 2))) ∧
        .cancel waiter ∉ briefly ∧ ∃ s' : Session,
          s'.clocks.timeline (.frozen 1) = (onePending.move (.register 2)).moves briefly ∧
          s'.result? (.counting (.frozen 1) waiter wake) = some (.counted true) ∧
          (s'.clocks.timeline (.frozen 1)).pending = 0 := by
  let s : Session := (Session.start default .locked).update (.frozen 1) onePending
  have hs : s.clocks.timeline (.frozen 1) = onePending :=
    Clocks.timeline_setTimeline _ (.frozen 1) _
  have hfew : onePending.pending < 2 := by decide
  obtain ⟨-, -, hwait⟩ := told_iff_reached (s := s) (q := .frozen 1) hs 2 10
  rw [hs] at hwait
  obtain ⟨waiter, wake, hcall, hcourse⟩ := hwait (by decide) hfew
  have hothers : .cancel waiter ∉ briefly := by simp [briefly]
  let s' : Session := s.update (.frozen 1) ((onePending.move (.register 2)).moves briefly)
  have hs' : s'.clocks.timeline (.frozen 1) = (onePending.move (.register 2)).moves briefly :=
    Clocks.timeline_setTimeline _ (.frozen 1) _
  refine ⟨s, hs, hfew, waiter, wake, hcall, hothers, s', hs', ?_, ?_⟩
  · refine (hcourse briefly hothers s' hs').told_iff.mpr ?_
    exact ⟨[], .arm 2 ⟨7⟩ .zero .channel, _, rfl, by simp, rfl, by decide⟩
  · rw [hs']
    decide

end VirtualClock.Script
