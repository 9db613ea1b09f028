import VirtualClock.Proofs.Cadence
import VirtualClock.Proofs.Firings

/-! Delays that lead beyond the last instant. The deadline is cut off there, and so is the limit of
an advance that would go further. Such a timer is therefore not out of reach: it is due at the last
instant, and the first advance that comes to it fires the timer. -/

namespace VirtualClock

variable {σ κ : Type}

namespace Timeline

/-- A timer or a ticker is started or reset with the delay `d`, which makes the timeline after it.
The event has the id that is given. -/
inductive Arms (t : Timeline κ) (d : Delay) : Nat → Timeline κ → Prop where
  | startTimer (deliver : Delivery κ) :
      Arms t d (t.startTimer d deliver).1 (t.startTimer d deliver).2
  | resetTimer (id : Nat) (deliver : Delivery κ) : Arms t d id (t.resetTimer id d deliver).2
  | ticker {id : Nat} {t' : Timeline κ} (h : t.StartsTicker d id t') : Arms t d id t'

/-- While `ms` leave the event of `id` alone, it is pending and has not fired, or it has fired once,
in an advance that has the last instant as its limit and has come to it. -/
structure DueLast (id : Nat) (t : Timeline κ) (ms : List (Move κ)) : Prop where
  stop_iff : ((t.moves ms).disarm id).1 = true ↔ t.takenOf id ms = []
  fired : t.takenOf id ms = [] ∨ (t.takenOf id ms).map (·.target) = [Instant.last] ∧
    (t.moves ms).now = Instant.last ∧ Move.popDue Instant.last ∈ ms

variable {t t' : Timeline κ} {id : Nat} {d : Delay}

theorem Arms.armed (h : t.Arms d id t') (hv : t.queue.Valid) :
    ∃ (t₀ : Timeline κ) (interval : Delay) (deliver : Delivery κ), t₀.queue.Valid ∧
      t₀.now = t.now ∧ t' = t₀.move (.arm id d interval deliver) := by
  cases h with
  | startTimer deliver => exact ⟨t.move .allocate, .zero, deliver, valid_move hv _, rfl, rfl⟩
  | resetTimer id deliver => exact ⟨t, .zero, deliver, hv, rfl, rfl⟩
  | ticker h =>
    cases h with
    | start h =>
      obtain ⟨-, rfl, rfl⟩ := startTicker_eq_ok.mp h
      exact ⟨t.move .allocate, d, .channel, valid_move hv _, rfl, rfl⟩
    | reset h =>
      obtain ⟨-, -, rfl⟩ := (resetTicker_eq_ok hv).mp h
      exact ⟨t, d, .channel, hv, rfl, rfl⟩

theorem deadline_eq_last (h : Instant.last.nanos < t.now.nanos + d.nanos) :
    t.now.deadline d.clamp = Instant.last := by
  apply Instant.ext
  rw [Instant.nanos_deadline_clamp]
  omega

theorem next?_last {e : Event (Delivery κ)} (h : e.target = Instant.last) : e.next? = none := by
  rw [Event.next?_eq_none_iff]
  intro hticker
  have hpos := Event.isTicker_iff.mp hticker
  rw [h]
  omega

/-- An event for the last instant that is pending. -/
def AwaitsLast (id : Nat) (t : Timeline κ) : Prop :=
  ∃ e ∈ t.queue, e.id = id ∧ e.target = Instant.last

theorem now_eq_last (h : Instant.last ≤ t.now) : t.now = Instant.last :=
  Instant.ext (Int.le_antisymm t.now.le_last h)

/-- The event stays pending, or one of the moves is the pop of an advance to the last instant. -/
theorem AwaitsLast.moves (hv : t.queue.Valid) (h : t.AwaitsLast id) {ms : List (Move κ)}
    (hms : ∀ m ∈ ms, m.spares id = true) :
    t.takenOf id ms = [] ∧ (t.moves ms).AwaitsLast id ∨
      (t.takenOf id ms).map (·.target) = [Instant.last] ∧ (t.moves ms).now = Instant.last ∧
        Move.popDue Instant.last ∈ ms ∧ ∀ e ∈ (t.moves ms).queue, e.id ≠ id := by
  induction ms generalizing t with
  | nil => exact .inl ⟨rfl, h⟩
  | cons m ms ih =>
    rw [List.forall_mem_cons] at hms
    have hv' := valid_move hv m
    obtain ⟨x, hx, hxid, hlast⟩ := h
    rw [takenOf_cons, moves_cons]
    obtain ⟨hnone, hsame⟩ | ⟨e, htaken, he, hid, hone, hmem⟩ := move_spared hv hms.1
    · rw [hnone, List.nil_append]
      refine (ih hv' ⟨x, (hsame x hxid).mpr hx, hxid, hlast⟩ hms.2).imp_right ?_
      rintro ⟨hfired, hnow, hpop, hgone⟩
      exact ⟨hfired, hnow, List.mem_cons_of_mem m hpop, hgone⟩
    · right
      obtain rfl : x = e := hv.eq_of_id hx he (hxid.trans hid.symm)
      have hgone : ∀ y ∈ (t.move m).queue, y.id ≠ id := by
        intro y hy hyid
        obtain ⟨e', hsome, -⟩ := (hmem y hyid).mp hy
        rw [next?_last hlast] at hsome
        cases hsome
      obtain ⟨hrest, hgone'⟩ := gone_moves hv' hgone (arm_not_mem_of_spares hms.2)
      have hnow := target_le_now_of_taken? hv htaken
      obtain ⟨limit, rfl, -, -, -, hle, -⟩ := taken?_eq_some hv htaken
      rw [hlast] at hnow hle
      obtain rfl : limit = Instant.last := Instant.ext (Int.le_antisymm limit.le_last hle)
      refine ⟨?_, now_eq_last (Int.le_trans hnow (now_le_now_moves hv' ms)),
        List.mem_cons_self, hgone'⟩
      rw [hone, hrest]
      simp [hlast]

theorem AwaitsLast.dueLast (hv : t.queue.Valid) (h : t.AwaitsLast id) {ms : List (Move κ)}
    (hms : ∀ m ∈ ms, m.spares id = true) : DueLast id t ms := by
  have hv' := valid_moves hv ms
  obtain ⟨hnone, e, he, hid, -⟩ | ⟨hfired, hnow, hpop, hgone⟩ := h.moves hv hms
  · refine ⟨?_, .inl hnone⟩
    rw [disarm_fst hv', EventQueue.isPending_iff hv']
    exact ⟨fun _ => hnone, fun _ => ⟨e, he, hid⟩⟩
  · refine ⟨?_, .inr ⟨hfired, hnow, hpop⟩⟩
    rw [disarm_fst hv', EventQueue.isPending_iff hv']
    constructor
    · rintro ⟨e, he, hid⟩
      exact absurd hid (hgone e he)
    · intro hnone
      rw [hnone] at hfired
      cases hfired

end Timeline

namespace Site

variable {site : Site σ κ} {call : κ → Act σ Unit} {id : Nat}

/-- Nothing is pending when an advance returns that had the last instant as its limit. -/
theorem not_mem_of_limit_eq_last {fuel : Nat} {d r : Delay} {s s' : σ}
    (hv : (site.timeline s').queue.Valid) (hlimit : (site.timeline s).limit d = Instant.last)
    (h : site.advance call fuel d s = (.ok r, s')) (e : Event (Delivery κ)) :
    e ∉ (site.timeline s').queue := by
  obtain ⟨fs, hadvances⟩ := exists_advances h
  obtain ⟨s₁, hfires, rfl, -⟩ := advances_iff.mp hadvances
  rw [timeline_settled] at hv ⊢
  have hv₁ : (site.timeline s₁).queue.Valid := hv
  intro he
  have hlt := (Timeline.popDue_eq_none hv₁).mp hfires.popDue_eq_none e he
  have hle : e.target.nanos ≤ Instant.last.nanos := e.target.le_last
  rw [hlimit, Instant.lt_def] at hlt
  omega

/-- A timer that is started with the longest delay, which leads beyond the last instant. -/
def remote : Timeline Nat := ((Timeline.start default).startTimer .longest .channel).2

theorem remote_beyond : Instant.last.nanos <
    (Timeline.start default : Timeline Nat).now.nanos + Delay.longest.nanos := by
  decide

end Site

end VirtualClock
