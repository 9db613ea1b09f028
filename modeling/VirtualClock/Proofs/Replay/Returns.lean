import VirtualClock.Proofs.Firings
import VirtualClock.Proofs.Queue.Events
import VirtualClock.Proofs.Replay.Log

/-! When a replay returns. A timer with a period is armed again by its own callback, so what shrinks
from one firing to the next is not the number of pending events but the time that they leave up to
the limit. At the last instant it stops shrinking: a deadline beyond it is cut off, the timer is due
at once, and the advance never ends. -/

namespace VirtualClock

/-- A scenario whose replay comes to an end: its advances stay before the last instant, or none of
its timers has a period. -/
def Scenario.Ends (s : Scenario) : Prop :=
  s.advances = [] ∨ (∀ spec ∈ s.timers, spec.period = none) ∨
    s.epoch.instant.nanos + s.advances.sum * 1000000 < Instant.last.nanos

namespace Replay

/-- The time that the pending events leave up to `limit`, the limit itself included. -/
def workload (limit : Instant) (t : Timeline Nat) : Nat :=
  (t.queue.events.map fun e => (limit.nanos + 1 - e.target.nanos).toNat).sum

/-- Every pending event is that of a timer, and every timer with a period has one. -/
structure Staffed (timers : List TimerSpec) (t : Timeline Nat) : Prop where
  valid : t.queue.Valid
  timer : ∀ e ∈ t.queue, ∃ i spec, timers[i]? = some spec ∧ e.id = i + 1 ∧
    e.deliver = .callback i ∧ e.interval = .zero
  repeats : ∀ i spec, timers[i]? = some spec → spec.period.isSome → ∃ e ∈ t.queue, e.id = i + 1

/-- Firing up to `limit` comes to an end: the limit is before the last instant, or no timer has a
period. -/
def Bounded (timers : List TimerSpec) (limit : Instant) : Prop :=
  (∀ spec ∈ timers, spec.period = none) ∨ limit < Instant.last

variable {timers : List TimerSpec} {t t' : Timeline Nat} {limit : Instant}

theorem Arming.staffed {epoch : Reading} (h : Arming timers epoch t) : Staffed timers t where
  valid := h.sound.valid
  timer e he := by
    obtain ⟨i, spec, hspec, rfl⟩ := (h.mem_iff e).mp he
    exact ⟨i, spec, hspec, rfl, rfl, rfl⟩
  repeats i spec hspec _ := ⟨_, (h.mem_iff _).mpr ⟨i, spec, hspec, rfl⟩, rfl⟩

/-- With a timer that has a period, something is always due at the last instant. -/
theorem Staffed.popDue_last (h : Staffed timers t) (hp : t.popDue Instant.last = none) :
    ∀ spec ∈ timers, spec.period = none := by
  intro spec hspec
  rw [← Option.not_isSome_iff_eq_none]
  intro hperiod
  obtain ⟨i, hi⟩ := List.getElem?_of_mem hspec
  obtain ⟨e, he, -⟩ := h.repeats i spec hi hperiod
  have hlt := (Timeline.popDue_eq_none h.valid).mp hp e he
  have hle : e.target.nanos ≤ Instant.last.nanos := e.target.le_last
  rw [Instant.lt_def] at hlt
  omega

/-! ### One firing -/

/-- The event `e` of timer `i` was taken off the queue. -/
structure Popped (t t' : Timeline Nat) (e : Event (Delivery Nat)) (i : Nat) : Prop where
  mem : e ∈ t.queue
  id_eq : e.id = i + 1
  now_eq : t'.now = t.now.later e.target
  queue_eq : t'.queue = t.queue.without e

theorem Staffed.popDue (h : Staffed timers t) {f : Firing (Delivery Nat)}
    (hpop : t.popDue limit = some (f, t')) :
    ∃ e i spec, timers[i]? = some spec ∧ f.deliver = .callback i ∧ e.target ≤ limit ∧
      Popped t t' e i := by
  obtain ⟨e, -, he, hle, -, rfl, rfl⟩ := Timeline.popDue_eq_some h.valid hpop
  obtain ⟨i, spec, hspec, hid, hdeliver, honce⟩ := h.timer e he
  refine ⟨e, i, spec, hspec, hdeliver, hle, he, hid, rfl, ?_⟩
  show (t.queue.without e).requeue e = t.queue.without e
  rw [EventQueue.requeue_eq, Event.next?_eq_none honce]
  rfl

variable {e : Event (Delivery Nat)} {i : Nat} {spec : TimerSpec}

theorem Popped.valid (h : Popped t t' e i) (hv : t.queue.Valid) : t'.queue.Valid := by
  rw [h.queue_eq]
  exact EventQueue.valid_without hv h.mem

theorem Popped.mem_iff (h : Popped t t' e i) (hv : t.queue.Valid) {x : Event (Delivery Nat)} :
    x ∈ t'.queue ↔ x ∈ t.queue ∧ x.id ≠ i + 1 := by
  rw [h.queue_eq, EventQueue.mem_without_iff_id hv h.mem, h.id_eq]

theorem Popped.workload_eq (h : Popped t t' e i) (hv : t.queue.Valid) (limit : Instant) :
    workload limit t = (limit.nanos + 1 - e.target.nanos).toNat + workload limit t' := by
  have hv' := h.valid hv
  have hnotin : e ∉ t'.queue.events := by
    intro he
    exact ((h.mem_iff hv).mp ((EventQueue.mem_events hv').mp he)).2 h.id_eq
  have hperm : t.queue.events.Perm (e :: t'.queue.events) := by
    refine EventQueue.events_perm hv
      (List.nodup_cons.mpr ⟨hnotin, (EventQueue.inOrder_events hv').nodup⟩) fun x => ?_
    rw [List.mem_cons, EventQueue.mem_events hv', h.queue_eq, EventQueue.mem_without h.mem]
    constructor
    · intro hx
      by_cases hxe : x = e
      · exact .inl hxe
      · exact .inr ⟨hx, hxe⟩
    · rintro (rfl | ⟨hx, -⟩)
      · exact h.mem
      · exact hx
  exact (hperm.map _).sum_nat

/-- The event of timer `i` once it is armed again. -/
def nextEvent (t : Timeline Nat) (i : Nat) (p : Int) : Event (Delivery Nat) :=
  ⟨i + 1, t.now.deadline (Delay.clamp ⟨p * 1000000⟩), t.queue.sequence + 1, .zero, .callback i⟩

theorem mem_rearm (hv : t'.queue.Valid) (hid : ∀ x ∈ t'.queue, x.id ≠ i + 1) {period : Option Int}
    {x : Event (Delivery Nat)} :
    x ∈ (rearm t' i period).queue ↔ x ∈ t'.queue ∨ ∃ p ∈ period, x = nextEvent t' i p := by
  cases period with
  | none => simp [rearm]
  | some p =>
    refine (EventQueue.mem_insert hv).trans ?_
    simp only [Option.mem_some_iff, exists_eq_left']
    refine or_congr_left ?_
    exact and_iff_left_of_imp fun hx => hid x hx

theorem valid_rearm (hv : t'.queue.Valid) (period : Option Int) :
    (rearm t' i period).queue.Valid := by
  cases period with
  | none => exact hv
  | some p => exact EventQueue.valid_insert hv (i + 1) _ .zero _

theorem workload_rearm (hv : t'.queue.Valid) (hid : ∀ x ∈ t'.queue, x.id ≠ i + 1) (limit : Instant)
    (p : Int) : workload limit (rearm t' i (some p)) =
      (limit.nanos + 1 - (nextEvent t' i p).target.nanos).toNat + workload limit t' := by
  have hnotin : nextEvent t' i p ∉ t'.queue.events := by
    intro he
    exact hid _ ((EventQueue.mem_events hv).mp he) rfl
  have hperm : (rearm t' i (some p)).queue.events.Perm (nextEvent t' i p :: t'.queue.events) := by
    refine EventQueue.events_perm (valid_rearm hv (some p))
      (List.nodup_cons.mpr ⟨hnotin, (EventQueue.inOrder_events hv).nodup⟩) fun x => ?_
    rw [mem_rearm hv hid, List.mem_cons, EventQueue.mem_events hv, or_comm]
    simp
  exact (hperm.map _).sum_nat

/-- The timer that fired is armed again, and so it is among the timers as before. -/
theorem Popped.staffed (h : Popped t t' e i) (hs : Staffed timers t)
    (hspec : timers[i]? = some spec) : Staffed timers (rearm t' i spec.period) := by
  have hv := h.valid hs.valid
  have hid : ∀ x ∈ t'.queue, x.id ≠ i + 1 := fun x hx => ((h.mem_iff hs.valid).mp hx).2
  refine ⟨valid_rearm hv _, fun x hx => ?_, fun j spec' hspec' hperiod => ?_⟩
  · obtain hold | ⟨p, -, rfl⟩ := (mem_rearm hv hid).mp hx
    · exact hs.timer x ((h.mem_iff hs.valid).mp hold).1
    · exact ⟨i, spec, hspec, rfl, rfl, rfl⟩
  · by_cases hji : j = i
    · subst hji
      obtain rfl : spec = spec' := Option.some.inj (hspec.symm.trans hspec')
      obtain ⟨p, hp⟩ := Option.isSome_iff_exists.mp hperiod
      exact ⟨_, (mem_rearm hv hid).mpr (.inr ⟨p, hp, rfl⟩), rfl⟩
    · obtain ⟨x, hx, hxid⟩ := hs.repeats j spec' hspec' hperiod
      refine ⟨x, (mem_rearm hv hid).mpr (.inl ?_), hxid⟩
      exact (h.mem_iff hs.valid).mpr ⟨hx, by omega⟩

/-- A firing leaves less time up to the limit. -/
theorem Popped.workload_lt (h : Popped t t' e i) (hs : Staffed timers t)
    (hperiodic : Occurrence.Periodic timers) (hspec : timers[i]? = some spec)
    (hle : e.target ≤ limit) (hb : Bounded timers limit) :
    workload limit (rearm t' i spec.period) < workload limit t := by
  have hv := h.valid hs.valid
  have hid : ∀ x ∈ t'.queue, x.id ≠ i + 1 := fun x hx => ((h.mem_iff hs.valid).mp hx).2
  have hmem := List.mem_of_getElem? hspec
  rw [h.workload_eq hs.valid]
  rw [Instant.le_def] at hle
  cases hperiod : spec.period with
  | none =>
    show workload limit t' < _
    omega
  | some p =>
    have hlast : limit < Instant.last := by
      refine hb.resolve_left fun hnone => ?_
      rw [hnone spec hmem] at hperiod
      cases hperiod
    have hpos := hperiodic spec hmem p hperiod
    have hnow : t'.now.nanos = max t.now.nanos e.target.nanos := by
      rw [h.now_eq]
      exact Instant.nanos_later _ _
    have htarget : (nextEvent t' i p).target.nanos =
        min (t'.now.nanos + max (p * 1000000) 0) Instant.last.nanos :=
      Instant.nanos_deadline_clamp t'.now ⟨p * 1000000⟩
    rw [Instant.lt_def] at hlast
    rw [workload_rearm hv hid]
    -- Before the last instant a deadline is only cut off beyond the limit, where it weighs nothing.
    omega

/-! ### An advance -/

variable {q : Source} {r : Replay}

theorem timeline_fire (epoch : Reading) (hspec : timers[i]? = some spec) (r : Replay) :
    (Replay.fire q epoch (armed 0 timers) i r).clocks.timeline q =
      rearm (r.clocks.timeline q) i spec.period := by
  rw [Replay.fire, armed_getElem?, hspec]
  simp only [Option.map_some]
  cases spec.period with
  | none => rfl
  | some p => exact Clocks.timeline_setTimeline _ q _

theorem Staffed.deliver (epoch : Reading) (h : Staffed timers (r.clocks.timeline q))
    (hperiodic : Occurrence.Periodic timers) (hnow : (r.clocks.timeline q).now ≤ limit)
    {f : Firing (Delivery Nat)} (hpop : (r.clocks.timeline q).popDue limit = some (f, t)) :
    ∃ r', (site q epoch).deliver (calls q epoch timers) f f.at_
        ((site q epoch).record ((site q epoch).firing f) ((site q epoch).update t r)) =
          (.ok (), r') ∧
      Staffed timers (r'.clocks.timeline q) ∧ (r'.clocks.timeline q).now ≤ limit ∧
      (Bounded timers limit →
        workload limit (r'.clocks.timeline q) < workload limit (r.clocks.timeline q)) := by
  obtain ⟨e, i, spec, hspec, hdeliver, hle, hpopped⟩ := h.popDue hpop
  let r₁ := (site q epoch).record ((site q epoch).firing f) ((site q epoch).update t r)
  have ht : r₁.clocks.timeline q = t := Clocks.timeline_setTimeline _ q t
  have hfire := timeline_fire (q := q) epoch hspec r₁
  rw [ht] at hfire
  refine ⟨Replay.fire q epoch (armed 0 timers) i r₁, ?_, ?_, ?_, fun hb => ?_⟩
  · rw [Site.deliver, hdeliver]
    rfl
  · rw [hfire]
    exact hpopped.staffed h hspec
  · rw [hfire, now_rearm, hpopped.now_eq]
    rw [Instant.le_def] at hnow hle ⊢
    rw [Instant.nanos_later]
    omega
  · rw [hfire]
    exact hpopped.workload_lt h hperiodic hspec hle hb

/-- The loop of an advance runs out of fuel, or stops when nothing is due. If it can end, the time
that is left up to the limit bounds the number of its turns. -/
theorem Staffed.fire (epoch : Reading) (hperiodic : Occurrence.Periodic timers) (limit : Instant)
    (fuel n : Nat) (h : Staffed timers (r.clocks.timeline q))
    (hnow : (r.clocks.timeline q).now ≤ limit) :
    ∃ x r', (site q epoch).fire (calls q epoch timers) limit fuel n r = (x, r') ∧
      Staffed timers (r'.clocks.timeline q) ∧ (r'.clocks.timeline q).now ≤ limit ∧
      (x = .error .outOfFuel ∧
          (Bounded timers limit → fuel ≤ workload limit (r.clocks.timeline q)) ∨
        (∃ m, x = .ok m) ∧ (r'.clocks.timeline q).popDue limit = none) := by
  induction fuel generalizing n r with
  | zero => exact ⟨_, r, rfl, h, hnow, .inl ⟨rfl, fun _ => Nat.zero_le _⟩⟩
  | succ fuel ih =>
    cases hpop : (r.clocks.timeline q).popDue limit with
    | none =>
      exact ⟨_, r, Site.fire_of_none (site q epoch) hpop fuel n, h, hnow, .inr ⟨⟨n, rfl⟩, hpop⟩⟩
    | some p =>
      obtain ⟨f, t⟩ := p
      obtain ⟨r₁, hdeliver, h₁, hnow₁, hless⟩ := h.deliver epoch hperiodic hnow hpop
      obtain ⟨x, r', hrest, h', hnow', hx⟩ := ih (n + 1) h₁ hnow₁
      have hturn := (Site.fire_of_ok (site q epoch) hpop hdeliver fuel n).trans hrest
      refine ⟨x, r', hturn, h', hnow', ?_⟩
      obtain ⟨hout, hfuel⟩ | hdone := hx
      · refine .inl ⟨hout, fun hb => ?_⟩
        have := hless hb
        have := hfuel hb
        omega
      · exact .inr hdone

/-- An advance runs out of fuel, or comes to its limit, which is then one that it can come to. -/
theorem Staffed.advance (epoch : Reading) (hperiodic : Occurrence.Periodic timers) (fuel ms : Nat)
    (h : Staffed timers (r.clocks.timeline q)) :
    let limit := (r.clocks.timeline q).limit ⟨ms * 1000000⟩
    ∃ x r', (site q epoch).advance (calls q epoch timers) fuel ⟨ms * 1000000⟩ r = (x, r') ∧
      (x = .error .outOfFuel ∧
          (Bounded timers limit → fuel ≤ workload limit (r.clocks.timeline q)) ∨
        (∃ d, x = .ok d) ∧ Staffed timers (r'.clocks.timeline q) ∧
          (r'.clocks.timeline q).now = limit ∧ Bounded timers limit) := by
  intro limit
  have hentered : (site q epoch).entered ⟨ms * 1000000⟩ r = r := by
    refine if_neg ?_
    show ¬(ms : Int) * 1000000 < 0
    omega
  obtain ⟨x, r₁, hfire, h₁, hnow₁, hx⟩ :=
    h.fire epoch hperiodic limit fuel 0 (Instant.le_deadline _ _)
  have hadvance := Site.advance_apply (site q epoch) (calls q epoch timers) fuel
    ⟨ms * 1000000⟩ r
  rw [hentered, show ((site q epoch).timeline r).limit ⟨ms * 1000000⟩ = limit from rfl, hfire]
    at hadvance
  obtain ⟨rfl, hfuel⟩ | ⟨⟨m, rfl⟩, hdone⟩ := hx
  · exact ⟨_, _, hadvance, .inl ⟨rfl, hfuel⟩⟩
  · refine ⟨_, _, hadvance, .inr ⟨⟨_, rfl⟩, ?_⟩⟩
    have htimeline (e : LogEvent) : ((site q epoch).record e ((site q epoch).update
        (((site q epoch).timeline r₁).settle limit) r₁)).clocks.timeline q =
          (r₁.clocks.timeline q).settle limit := Clocks.timeline_setTimeline _ q _
    rw [htimeline]
    refine ⟨⟨h₁.valid, h₁.timer, h₁.repeats⟩, Instant.later_of_le hnow₁, ?_⟩
    by_cases hlast : limit < Instant.last
    · exact .inr hlast
    · have heq : limit = Instant.last := by
        have hle : limit.nanos ≤ Instant.last.nanos := limit.le_last
        rw [Instant.lt_def] at hlast
        exact Instant.ext (by omega)
      rw [heq] at hdone
      exact .inl (h₁.popDue_last hdone)

/-! ### All advances -/

/-- The delays of some advances. -/
abbrev delays (steps : List Nat) : List Delay := steps.map fun (ms : Nat) => ⟨ms * 1000000⟩

theorem nanos_limit (t : Timeline Nat) (ms : Nat) :
    (t.limit ⟨ms * 1000000⟩).nanos = min (t.now.nanos + ms * 1000000) Instant.last.nanos := by
  refine (Instant.nanos_deadline_clamp t.now ⟨ms * 1000000⟩).trans ?_
  show min (_ + max ((ms : Int) * 1000000) 0) _ = _
  omega

theorem advances_mono {fuel fuel' : Nat} (hle : fuel ≤ fuel') {epoch : Reading} {armed : List Armed}
    {ds : List Delay} {r' : Replay} (h : advances fuel q epoch armed ds r = (.ok (), r')) :
    advances fuel' q epoch armed ds r = (.ok (), r') := by
  induction ds generalizing r with
  | nil => exact h
  | cons d ds ih =>
    rw [advances] at h ⊢
    obtain ⟨x, r₁, hadvance, h⟩ := Act.bind_eq_ok.mp h
    obtain ⟨y, r₂, hstepped, h⟩ := Act.bind_eq_ok.mp h
    exact Act.bind_eq_ok.mpr
      ⟨x, r₁, Site.advance_mono hle hadvance, Act.bind_eq_ok.mpr ⟨y, r₂, hstepped, ih h⟩⟩

/-- Between two advances only the log and the metrics change. -/
def between (q : Source) (epoch : Reading) (d : Delay) (r : Replay) : Replay :=
  let r := r.record (stepped d (r.elapsed q epoch))
  { r with metrics := r.metrics.map (·.recordAdvance (r.clocks.timeline q).pending) }

@[simp] theorem clocks_between (q : Source) (epoch : Reading) (d : Delay) (r : Replay) :
    (between q epoch d r).clocks = r.clocks := rfl

theorem Staffed.between (epoch : Reading) (d : Delay) (h : Staffed timers (r.clocks.timeline q)) :
    Staffed timers ((between q epoch d r).clocks.timeline q) := by
  rw [clocks_between]
  exact h

theorem advances_of_ok {fuel : Nat} {epoch : Reading} {armed : List Armed} {d x : Delay}
    {r₁ : Replay}
    (h : (site q epoch).advance (fun k => modify (Replay.fire q epoch armed k)) fuel d r =
      (.ok x, r₁)) (ds : List Delay) :
    advances fuel q epoch armed (d :: ds) r =
      advances fuel q epoch armed ds (between q epoch d r₁) := by
  rw [advances]
  exact (Act.bind_of_ok h).trans (Act.bind_of_ok (Act.modify_apply _ r₁))

theorem advances_of_error {fuel : Nat} {epoch : Reading} {armed : List Armed} {d : Delay}
    {stop : Stop} {r₁ : Replay}
    (h : (site q epoch).advance (fun k => modify (Replay.fire q epoch armed k)) fuel d r =
      (.error stop, r₁)) (ds : List Delay) :
    advances fuel q epoch armed (d :: ds) r = (.error stop, r₁) := by
  rw [advances, Act.bind_apply, h]

/-- Advances that return stay before the last instant, unless no timer has a period; the others run
out of any fuel. -/
theorem Staffed.advances_stop (epoch : Reading) (hperiodic : Occurrence.Periodic timers)
    (fuel : Nat) (steps : List Nat) (h : Staffed timers (r.clocks.timeline q)) :
    ∃ x r', advances fuel q epoch (armed 0 timers) (delays steps) r = (x, r') ∧
      (x = .error .outOfFuel ∨ x = .ok () ∧ (steps = [] ∨ (∀ spec ∈ timers, spec.period = none) ∨
        (r.clocks.timeline q).now.nanos + steps.sum * 1000000 < Instant.last.nanos)) := by
  induction steps generalizing r with
  | nil => exact ⟨_, r, rfl, .inr ⟨rfl, .inl rfl⟩⟩
  | cons ms rest ih =>
    obtain ⟨x, r₁, hadvance, hx⟩ := h.advance epoch hperiodic fuel ms
    obtain ⟨rfl, -⟩ | ⟨⟨d, rfl⟩, h₁, hnow₁, hb⟩ := hx
    · exact ⟨_, r₁, advances_of_error hadvance (delays rest), .inl rfl⟩
    · obtain ⟨y, r', hrest, hy⟩ := ih (h₁.between epoch ⟨ms * 1000000⟩)
      rw [clocks_between] at hy
      refine ⟨y, r', (advances_of_ok hadvance (delays rest)).trans hrest,
        hy.imp_right fun ⟨hok, hends⟩ => ⟨hok, .inr ?_⟩⟩
      have hlimit := nanos_limit (r.clocks.timeline q) ms
      rw [← hnow₁] at hlimit
      rw [List.sum_cons]
      obtain rfl | hnone | hlast := hends
      · refine hb.imp_right fun hlast => ?_
        rw [Instant.lt_def, ← hnow₁] at hlast
        simp only [List.sum_nil]
        omega
      · exact .inl hnone
      · refine .inr ?_
        omega

/-- Advances that stay before the last instant return, and so do all if no timer has a period. -/
theorem Staffed.advances_end (epoch : Reading) (hperiodic : Occurrence.Periodic timers)
    (steps : List Nat) (h : Staffed timers (r.clocks.timeline q))
    (hends : (∀ spec ∈ timers, spec.period = none) ∨
      (r.clocks.timeline q).now.nanos + steps.sum * 1000000 < Instant.last.nanos) :
    ∃ fuel r', advances fuel q epoch (armed 0 timers) (delays steps) r = (.ok (), r') := by
  induction steps generalizing r with
  | nil => exact ⟨0, r, rfl⟩
  | cons ms rest ih =>
    let limit := (r.clocks.timeline q).limit ⟨ms * 1000000⟩
    have hlimit : limit.nanos = _ := nanos_limit (r.clocks.timeline q) ms
    rw [List.sum_cons] at hends
    have hb : Bounded timers limit := by
      refine hends.imp_right fun hlast => ?_
      rw [Instant.lt_def]
      omega
    obtain ⟨x, r₁, hadvance, hx⟩ := h.advance epoch hperiodic
      (workload limit (r.clocks.timeline q) + 1) ms
    obtain ⟨-, hfuel⟩ | ⟨⟨d, rfl⟩, h₁, hnow₁, -⟩ := hx
    · exact absurd (hfuel hb) (Nat.not_succ_le_self _)
    · have hends₁ : (∀ spec ∈ timers, spec.period = none) ∨
          (r₁.clocks.timeline q).now.nanos + rest.sum * 1000000 < Instant.last.nanos := by
        have hnanos := (congrArg Instant.nanos hnow₁).trans hlimit
        refine hends.imp_right fun hlast => ?_
        omega
      rw [← clocks_between q epoch ⟨ms * 1000000⟩] at hends₁
      obtain ⟨fuel, r', hrest⟩ := ih (h₁.between epoch ⟨ms * 1000000⟩) hends₁
      refine ⟨max (workload limit (r.clocks.timeline q) + 1) fuel, r', ?_⟩
      have hadvance' := Site.advance_mono (Nat.le_max_left _ fuel) hadvance
      exact (advances_of_ok hadvance' (delays rest)).trans
        (advances_mono (Nat.le_max_right _ _) hrest)

/-! ### The whole replay -/

/-- The clock is frozen once the advances are found in range, and unfrozen if a replay returns. -/
theorem run_of_steps {s : Scenario} {ds : List Delay} (hsteps : s.steps = .ok ds) (fuel p : Nat)
    (r : Replay) : run fuel p s r =
      match frozen fuel (.frozen (r.clocks.lastTimeline + 1)) s ds
          ({ r with fired := [] }.commit (r.clocks.freeze p s.epoch)) with
      | (.ok outcome, r') => (.ok outcome, r'.commit (r'.clocks.unfreeze p))
      | (.error stop, r') => (.error stop, r') := by
  let r₁ : Replay := { r with fired := [] }.commit (r.clocks.freeze p s.epoch)
  have hsource : r₁.clocks.source p = .frozen (r.clocks.lastTimeline + 1) :=
    Clocks.source_freeze r.clocks p s.epoch
  rw [run, hsteps]
  refine (Act.bind_of_ok (Act.modify_apply _ r)).trans ?_
  refine (Act.bind_of_ok (Act.get_apply r₁)).trans ((Act.bind_apply _ _ r₁).trans ?_)
  rw [hsource]
  obtain ⟨x, r'⟩ := frozen fuel (.frozen (r.clocks.lastTimeline + 1)) s ds r₁
  cases x <;> rfl

theorem run_apply (fuel p : Nat) {s : Scenario} (hrange : s.InRange) (r : Replay) :
    run fuel p s r =
      match frozen fuel (.frozen (r.clocks.lastTimeline + 1)) s (delays s.advances)
          ({ r with fired := [] }.commit (r.clocks.freeze p s.epoch)) with
      | (.ok outcome, r') => (.ok outcome, r'.commit (r'.clocks.unfreeze p))
      | (.error stop, r') => (.error stop, r') :=
  run_of_steps hrange.steps_eq fuel p r

/-- A replay is its advances, from the state in which all its timers are armed. -/
theorem exists_run_eq {s : Scenario} (hrange : s.InRange) (p : Nat) (r : Replay) :
    ∃ q r₁, Arming s.timers s.epoch (r₁.clocks.timeline q) ∧
      ∀ fuel, (run fuel p s r).1 =
        match advances fuel q s.epoch (armed 0 s.timers) (delays s.advances) r₁ with
        | (.ok _, r') => .ok (.ok r'.fired.reverse)
        | (.error stop, _) => .error stop := by
  have ht := Clocks.timeline_freeze r.clocks p s.epoch
  obtain ⟨r₁, harming, -, hfrozen⟩ :=
    exists_frozen_eq (r := { r with fired := [] }.commit (r.clocks.freeze p s.epoch)) hrange ht
  refine ⟨_, r₁, harming, fun fuel => ?_⟩
  rw [run_apply fuel p hrange, hfrozen]
  obtain ⟨x, r'⟩ := advances fuel _ s.epoch (armed 0 s.timers) (delays s.advances) r₁
  cases x <;> rfl

theorem run_of_ends {s : Scenario} (hrange : s.InRange) (hends : s.Ends) (p : Nat) (r : Replay) :
    ∃ log least, ∀ fuel, least ≤ fuel → (run fuel p s r).1 = .ok (.ok log) := by
  obtain ⟨q, r₁, harming, hrun⟩ := exists_run_eq hrange p r
  have hreturns : ∃ fuel r', advances fuel q s.epoch (armed 0 s.timers) (delays s.advances) r₁ =
      (.ok (), r') := by
    obtain hnil | hends := hends
    · rw [hnil]
      exact ⟨0, r₁, rfl⟩
    · refine harming.staffed.advances_end s.epoch hrange.periodic s.advances ?_
      rw [harming.now_eq]
      exact hends
  obtain ⟨least, r', hadvances⟩ := hreturns
  refine ⟨r'.fired.reverse, least, fun fuel hle => ?_⟩
  rw [hrun, advances_mono hle hadvances]

theorem run_of_not_ends {s : Scenario} (hrange : s.InRange) (hends : ¬s.Ends) (p : Nat) (r : Replay)
    (fuel : Nat) : (run fuel p s r).1 = .error .outOfFuel := by
  obtain ⟨q, r₁, harming, hrun⟩ := exists_run_eq hrange p r
  obtain ⟨x, r', hadvances, hx⟩ :=
    harming.staffed.advances_stop (q := q) s.epoch hrange.periodic fuel s.advances
  rw [hrun, hadvances]
  obtain rfl | ⟨rfl, hstop⟩ := hx
  · rfl
  · rw [harming.now_eq] at hstop
    exact absurd hstop hends

/-- A timer that fires every 100 ms, three times in this scenario. -/
def heartbeat : Scenario where
  epoch := default
  timers := [⟨"heartbeat", 100, some 100⟩]
  advances := [150, 200]

theorem inRange_heartbeat : heartbeat.InRange := ⟨by decide, by decide, by decide⟩

/-- A timer whose second firing would be beyond the last instant, and an advance to that instant. -/
def endless : Scenario where
  epoch := ⟨⟨1235001600000000000, by decide, by decide⟩, false⟩
  timers := [⟨"soon", 5, some 9223372036854775807⟩]
  advances := [10, 9223372036854775807]

theorem inRange_endless : endless.InRange := ⟨by decide, by decide, by decide⟩

end Replay

end VirtualClock
