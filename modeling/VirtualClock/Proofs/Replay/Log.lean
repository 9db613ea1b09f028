import VirtualClock.Proofs.Advance
import VirtualClock.Proofs.Clocks
import VirtualClock.Proofs.Replay.Timers
import VirtualClock.Replay

/-! The log of a replay is the schedule of its scenario. -/

namespace VirtualClock

theorem Delay.toMillis_mul (ms : Int) : Delay.toMillis ⟨ms * 1000000⟩ = ms :=
  Int.mul_tdiv_cancel ms (by decide)

/-- Every count of milliseconds is one of a delay, and every period is positive. -/
structure Scenario.InRange (s : Scenario) : Prop where
  advances : ∀ ms ∈ s.advances, ms ≤ 9223372036854775807
  after : ∀ t ∈ s.timers, t.after.natAbs ≤ 9223372036854775807
  period : ∀ t ∈ s.timers, ∀ p ∈ t.period, 1 ≤ p ∧ p ≤ 9223372036854775807

theorem Delay.ofMillis?_eq {ms : Int} (h : ms.natAbs ≤ 9223372036854775807) :
    Delay.ofMillis? ms = some ⟨ms * 1000000⟩ := if_pos h

theorem Scenario.InRange.periodic {s : Scenario} (h : s.InRange) :
    Occurrence.Periodic s.timers := fun t ht p hp => (h.period t ht p hp).1

/-- Timers in range pass the checks. -/
theorem TimerSpec.delays_eq {t : TimerSpec} (hafter : t.after.natAbs ≤ 9223372036854775807)
    (hperiod : ∀ p ∈ t.period, 1 ≤ p ∧ p ≤ 9223372036854775807) :
    t.delays = .ok (⟨t.after * 1000000⟩, t.period.map fun p => ⟨p * 1000000⟩) := by
  unfold delays delay
  rw [Delay.ofMillis?_eq hafter]
  cases hp : t.period with
  | none => rfl
  | some p =>
    obtain ⟨hpos, hle⟩ := hperiod p hp
    have hnonpos : ¬p * 1000000 ≤ 0 := by omega
    simp only [Delay.ofMillis?_eq (show p.natAbs ≤ 9223372036854775807 by omega)]
    show (if p * 1000000 ≤ 0 then _ else _) = _
    rw [if_neg hnonpos]
    rfl

/-- Advances in range pass the checks. -/
theorem Scenario.InRange.steps_eq {s : Scenario} (h : s.InRange) :
    s.steps = .ok (s.advances.map fun (ms : Nat) => ⟨ms * 1000000⟩) := by
  obtain ⟨epoch, timers, advances⟩ := s
  have hadvances : ∀ ms ∈ advances, ms ≤ 9223372036854775807 := h.advances
  show advances.mapM _ = _
  clear h
  induction advances with
  | nil => rfl
  | cons ms rest ih =>
    rw [List.forall_mem_cons] at hadvances
    rw [List.mapM_cons, ih hadvances.2,
      Delay.ofMillis?_eq (show (ms : Int).natAbs ≤ 9223372036854775807 by omega)]
    rfl

namespace Replay

open Occurrence

/-- The timers of a scenario from position `n` on, as they are armed. -/
def armed (n : Nat) (timers : List TimerSpec) : List Armed :=
  (timers.zipIdx n).map fun (spec, i) => ⟨i + 1, spec.name, spec.period.map fun p => ⟨p * 1000000⟩⟩

/-- What is the same in a replay once timers were scheduled: all but the timeline they are on. -/
structure Scheduling (r r' : Replay) : Prop where
  source_eq : ∀ p, r'.clocks.source p = r.clocks.source p
  metrics_eq : r'.metrics = r.metrics
  fired_eq : r'.fired = r.fired
  logs_eq : r'.logs = r.logs

theorem Scheduling.refl (r : Replay) : Scheduling r r := ⟨fun _ => rfl, rfl, rfl, rfl⟩

theorem Scheduling.trans {r r' r'' : Replay} (h : Scheduling r r') (h' : Scheduling r' r'') :
    Scheduling r r'' where
  source_eq p := (h'.source_eq p).trans (h.source_eq p)
  metrics_eq := h'.metrics_eq.trans h.metrics_eq
  fired_eq := h'.fired_eq.trans h.fired_eq
  logs_eq := h'.logs_eq.trans h.logs_eq

theorem scheduling_update (q : Source) (t : Timeline Nat) (r : Replay) :
    Scheduling r (r.update q t) :=
  ⟨Clocks.source_setTimeline r.clocks q t, rfl, rfl, rfl⟩

theorem arm_apply {q : Source} {epoch : Reading} {r : Replay} {timers : List TimerSpec}
    (h : Arming timers epoch (r.clocks.timeline q)) {spec : TimerSpec}
    (hafter : spec.after.natAbs ≤ 9223372036854775807)
    (hperiod : ∀ p ∈ spec.period, 1 ≤ p ∧ p ≤ 9223372036854775807) :
    ∃ r', arm q timers.length spec r =
        (.ok ⟨timers.length + 1, spec.name, spec.period.map fun p => ⟨p * 1000000⟩⟩, r') ∧
      Arming (timers ++ [spec]) epoch (r'.clocks.timeline q) ∧ Scheduling r r' := by
  obtain ⟨hid, harming⟩ := h.startTimer spec
  refine ⟨r.update q ((r.clocks.timeline q).startTimer ⟨spec.after * 1000000⟩
    (.callback timers.length)).2, ?_, ?_, scheduling_update q _ r⟩
  · rw [arm, TimerSpec.delays_eq hafter hperiod, ← hid]
    rfl
  · rw [update, Clocks.timeline_setTimeline]
    exact harming

/-- Scheduling arms every timer of a scenario in range. -/
theorem schedule_apply {q : Source} {epoch : Reading} (specs : List TimerSpec)
    (hafter : ∀ t ∈ specs, t.after.natAbs ≤ 9223372036854775807)
    (hperiod : ∀ t ∈ specs, ∀ p ∈ t.period, 1 ≤ p ∧ p ≤ 9223372036854775807)
    {r : Replay} {timers : List TimerSpec} (h : Arming timers epoch (r.clocks.timeline q)) :
    ∃ r', ((specs.zipIdx timers.length).mapM fun (spec, k) => arm q k spec) r =
        (.ok (armed timers.length specs), r') ∧
      Arming (timers ++ specs) epoch (r'.clocks.timeline q) ∧ Scheduling r r' := by
  induction specs generalizing r timers with
  | nil => exact ⟨r, rfl, by rw [List.append_nil]; exact h, .refl r⟩
  | cons spec specs ih =>
    rw [List.forall_mem_cons] at hafter hperiod
    obtain ⟨r₁, harm, h₁, hkept₁⟩ := arm_apply h hafter.1 hperiod.1
    obtain ⟨r₂, hrest, h₂, hkept₂⟩ := ih hafter.2 hperiod.2 h₁
    rw [List.length_append, List.length_singleton] at hrest
    rw [List.append_assoc, List.singleton_append] at h₂
    refine ⟨r₂, ?_, h₂, hkept₁.trans hkept₂⟩
    rw [List.zipIdx_cons, List.mapM_cons]
    exact (Act.bind_of_ok harm).trans (Act.bind_of_ok hrest)

/-! ### Firing -/

/-- The line of the log for a firing. -/
def entry (timers : List TimerSpec) (o : Occurrence) : Fired :=
  ⟨due timers o, (timers[o.timer]?.map (·.name)).getD ""⟩

/-- The firings in `log` are what a replay has logged, and all of them were due within `total`. -/
structure Logged (timers : List TimerSpec) (q : Source) (epoch : Reading) (total : Nat)
    (r : Replay) (log : List Occurrence) : Prop where
  plays : Plays timers epoch (r.clocks.timeline q) log
  fired_eq : r.fired = (log.map (entry timers)).reverse
  within : ∀ o ∈ log, Occurs timers o ∧ due timers o ≤ total

variable {timers : List TimerSpec} {q : Source} {epoch : Reading} {total : Nat} {r : Replay}
  {log : List Occurrence}

theorem Logged.length_le (hp : Periodic timers) (h : Logged timers q epoch total r log) :
    log.length ≤ (Occurrence.schedule timers total).length := by
  have hsub : log ⊆ Occurrence.schedule timers total := fun o ho => (mem_schedule hp).mpr (h.within o ho)
  exact (List.subperm_of_subset (nodup_of_pairwise h.plays.sorted) hsub).length_le

theorem armed_getElem? (timers : List TimerSpec) (i : Nat) :
    (armed 0 timers)[i]? = timers[i]?.map fun spec =>
      ⟨i + 1, spec.name, spec.period.map fun p => ⟨p * 1000000⟩⟩ := by
  rw [armed, List.getElem?_map, List.getElem?_zipIdx, Option.map_map, Nat.zero_add]
  rfl

/-- The callback of a timer logs the firing and arms the timer again. -/
theorem fire_apply (hleap : epoch.leap = false) {i : Nat} {spec : TimerSpec}
    (hspec : timers[i]? = some spec) (hnow : (r.clocks.timeline q).now.nanos =
      epoch.instant.nanos + due timers (next log i) * 1000000) :
    (fire q epoch (armed 0 timers) i r).clocks.timeline q =
        rearm (r.clocks.timeline q) i spec.period ∧
      (fire q epoch (armed 0 timers) i r).fired = entry timers (next log i) :: r.fired := by
  have helapsed : (r.elapsed q epoch).toMillis = due timers (next log i) := by
    have hsince : (r.clocks.timeline q).now.since epoch.instant =
        ⟨due timers (next log i) * 1000000⟩ := by
      rw [Instant.since, hnow]
      refine Delay.ext ?_
      show epoch.instant.nanos + due timers (next log i) * 1000000 - epoch.instant.nanos =
        due timers (next log i) * 1000000
      omega
    rw [elapsed, Reading.since_carry hleap, hsince, Delay.toMillis_mul]
  have hentry : entry timers (next log i) = ⟨due timers (next log i), spec.name⟩ := by
    rw [entry, next, hspec]
    rfl
  rw [fire, armed_getElem?, hspec, hentry, ← helapsed]
  simp only [Option.map_some]
  cases spec.period with
  | none => exact ⟨rfl, rfl⟩
  | some p => exact ⟨Clocks.timeline_setTimeline _ q _, rfl⟩

/-- The callbacks of a replay. -/
abbrev calls (q : Source) (epoch : Reading) (timers : List TimerSpec) (k : Nat) : Act Replay Unit :=
  modify (fire q epoch (armed 0 timers) k)

theorem now_rearm (t : Timeline Nat) (i : Nat) (period : Option Int) :
    (rearm t i period).now = t.now := by
  cases period <;> rfl

/-- One turn of the loop of an advance. -/
theorem Logged.deliver (h : Logged timers q epoch total r log) (hp : Periodic timers)
    (hleap : epoch.leap = false) {limit : Instant} (hlimit : limit < Instant.last)
    (htotal : limit.nanos ≤ epoch.instant.nanos + total * 1000000)
    {f : Firing (Delivery Nat)} {t : Timeline Nat}
    (hpop : (r.clocks.timeline q).popDue limit = some (f, t)) :
    ∃ i r', (site q epoch).deliver (calls q epoch timers) f f.at_
        ((site q epoch).record ((site q epoch).firing f) ((site q epoch).update t r)) =
          (.ok (), r') ∧
      Logged timers q epoch total r' (log ++ [next log i]) ∧
      (r'.clocks.timeline q).now ≤ limit := by
  obtain ⟨i, spec, hspec, hdeliver, hi, hnow, hle, hplays⟩ := h.plays.popDue hp hlimit hpop
  let r₁ := (site q epoch).record ((site q epoch).firing f) ((site q epoch).update t r)
  have ht : r₁.clocks.timeline q = t := Clocks.timeline_setTimeline _ q t
  obtain ⟨htimeline, hfired⟩ := fire_apply (r := r₁) hleap hspec (by rw [ht]; exact hnow)
  refine ⟨i, Replay.fire q epoch (armed 0 timers) i r₁, ?_, ⟨?_, ?_, fun o ho => ?_⟩, ?_⟩
  · rw [Site.deliver, hdeliver]
    rfl
  · rw [htimeline, ht]
    exact hplays
  · rw [hfired, List.map_append, List.reverse_append, ← h.fired_eq]
    rfl
  · obtain ho | ho := List.mem_append.mp ho
    · exact h.within o ho
    · rw [List.mem_singleton.mp ho]
      rw [Instant.le_def] at hle
      exact ⟨hi, by omega⟩
  · rw [htimeline, now_rearm, ht]
    exact hle

/-- The loop of an advance fires and logs what is due, and is done before its fuel is. -/
theorem Logged.fire (hp : Periodic timers) (hleap : epoch.leap = false) {limit : Instant}
    (hlimit : limit < Instant.last)
    (htotal : limit.nanos ≤ epoch.instant.nanos + total * 1000000) (fuel n : Nat)
    (h : Logged timers q epoch total r log) (hnow : (r.clocks.timeline q).now ≤ limit)
    (hfuel : (Occurrence.schedule timers total).length < fuel + log.length) :
    ∃ n' r' log', (site q epoch).fire (calls q epoch timers) limit fuel n r = (.ok n', r') ∧
      Logged timers q epoch total r' log' ∧ (r'.clocks.timeline q).now ≤ limit ∧
      (r'.clocks.timeline q).popDue limit = none := by
  induction fuel generalizing n r log with
  | zero =>
    have hle := h.length_le hp
    omega
  | succ fuel ih =>
    cases hpop : (r.clocks.timeline q).popDue limit with
    | none => exact ⟨n, r, log, Site.fire_of_none (site q epoch) hpop fuel n, h, hnow, hpop⟩
    | some p =>
      obtain ⟨f, t⟩ := p
      obtain ⟨i, r₁, hdeliver, h₁, hnow₁⟩ := h.deliver hp hleap hlimit htotal hpop
      obtain ⟨n', r', log', hrest, h', hdone⟩ := ih (n + 1) h₁ hnow₁ (by
        rw [List.length_append, List.length_singleton]
        omega)
      refine ⟨n', r', log', ?_, h', hdone⟩
      rw [Site.fire_of_ok (site q epoch) hpop hdeliver]
      exact hrest

/-! ### Advancing -/

/-- An advance of `ms` milliseconds, when `passed` milliseconds have passed. -/
theorem Logged.advance (h : Logged timers q epoch total r log) (hp : Periodic timers)
    (hleap : epoch.leap = false)
    (hlast : epoch.instant.nanos + total * 1000000 < Instant.last.nanos) {fuel : Nat}
    (passed ms : Nat)
    (hnow : (r.clocks.timeline q).now.nanos = epoch.instant.nanos + passed * 1000000)
    (hms : passed + ms ≤ total) (hfuel : (Occurrence.schedule timers total).length < fuel) :
    ∃ d r' log', (site q epoch).advance (calls q epoch timers) fuel ⟨ms * 1000000⟩ r =
        (.ok d, r') ∧
      Logged timers q epoch total r' log' ∧
      (r'.clocks.timeline q).now.nanos = epoch.instant.nanos + (passed + ms) * 1000000 ∧
      ∀ e ∈ (r'.clocks.timeline q).queue, (r'.clocks.timeline q).now < e.target := by
  let limit := (r.clocks.timeline q).limit ⟨ms * 1000000⟩
  have hnanos : limit.nanos = epoch.instant.nanos + (passed + ms) * 1000000 := by
    refine (Instant.nanos_deadline_clamp _ _).trans ?_
    rw [hnow]
    show min (_ + max ((ms : Int) * 1000000) 0) _ = _
    omega
  have hlimit : limit < Instant.last := by
    rw [Instant.lt_def, hnanos]
    omega
  have hentered : (site q epoch).entered ⟨ms * 1000000⟩ r = r := by
    refine if_neg ?_
    show ¬(ms : Int) * 1000000 < 0
    omega
  obtain ⟨n, r₁, log', hfire, h₁, hle, hdone⟩ :=
    h.fire hp hleap hlimit (by omega) fuel 0 (Instant.le_deadline _ _) (by omega)
  have hlater : ((r₁.clocks.timeline q).settle limit).now = limit := Instant.later_of_le hle
  have hsettled : Plays timers epoch ((r₁.clocks.timeline q).settle limit) log' :=
    { h₁.plays with sound := h₁.plays.sound.settle hdone }
  have htimeline (e : LogEvent) : ((site q epoch).record e ((site q epoch).update
      (((site q epoch).timeline r₁).settle limit) r₁)).clocks.timeline q =
        (r₁.clocks.timeline q).settle limit := Clocks.timeline_setTimeline _ q _
  have hadvance := Site.advance_apply (site q epoch) (calls q epoch timers) fuel
    ⟨ms * 1000000⟩ r
  rw [hentered, show ((site q epoch).timeline r).limit ⟨ms * 1000000⟩ = limit from rfl, hfire]
    at hadvance
  refine ⟨_, _, log', hadvance, ⟨?_, h₁.fired_eq, h₁.within⟩, ?_, ?_⟩
  · rw [htimeline]
    exact hsettled
  · rw [htimeline, hlater, hnanos]
  · rw [htimeline, hlater]
    exact (Timeline.popDue_eq_none h₁.plays.sound.valid).mp hdone

/-- All advances, one after another, of which there is at least one if something is due. -/
theorem Logged.advances (hp : Periodic timers) (hleap : epoch.leap = false)
    (hlast : epoch.instant.nanos + total * 1000000 < Instant.last.nanos) {fuel : Nat}
    (hfuel : (Occurrence.schedule timers total).length < fuel) (steps : List Nat) (passed : Nat)
    (h : Logged timers q epoch total r log)
    (hnow : (r.clocks.timeline q).now.nanos = epoch.instant.nanos + passed * 1000000)
    (hsum : passed + steps.sum = total)
    (hleft : steps = [] →
      ∀ e ∈ (r.clocks.timeline q).queue, (r.clocks.timeline q).now < e.target) :
    ∃ r' log', Replay.advances fuel q epoch (armed 0 timers)
        (steps.map fun (ms : Nat) => ⟨ms * 1000000⟩) r = (.ok (), r') ∧
      Logged timers q epoch total r' log' ∧
      (r'.clocks.timeline q).now.nanos = epoch.instant.nanos + total * 1000000 ∧
      ∀ e ∈ (r'.clocks.timeline q).queue, (r'.clocks.timeline q).now < e.target := by
  induction steps generalizing passed r log with
  | nil =>
    rw [List.sum_nil, Nat.add_zero] at hsum
    rw [hsum] at hnow
    exact ⟨r, log, rfl, h, hnow, hleft rfl⟩
  | cons ms rest ih =>
    rw [List.sum_cons] at hsum
    obtain ⟨d, r₁, log₁, hadvance, h₁, hnow₁, hleft₁⟩ :=
      h.advance hp hleap hlast passed ms hnow (by omega) hfuel
    let r₂ : Replay := { r₁.record (stepped ⟨ms * 1000000⟩ (r₁.elapsed q epoch)) with
      metrics := r₁.metrics.map (·.recordAdvance (r₁.clocks.timeline q).pending) }
    have h₂ : Logged timers q epoch total r₂ log₁ := ⟨h₁.plays, h₁.fired_eq, h₁.within⟩
    obtain ⟨r', log', hrest, hlogged⟩ := ih (passed + ms) h₂ (by
      rw [Int.natCast_add]
      exact hnow₁) (by omega) fun _ => hleft₁
    refine ⟨r', log', ?_, hlogged⟩
    rw [List.map_cons, Replay.advances]
    exact (Act.bind_of_ok hadvance).trans hrest

/-- When nothing is left that is due, the log is the schedule. -/
theorem Logged.eq_schedule (h : Logged timers q epoch total r log) (hp : Periodic timers)
    (hnow : (r.clocks.timeline q).now.nanos = epoch.instant.nanos + total * 1000000)
    (hleft : ∀ e ∈ (r.clocks.timeline q).queue, (r.clocks.timeline q).now < e.target) :
    log = Occurrence.schedule timers total := by
  refine Occurrence.eq_schedule hp h.plays.sorted fun o => ⟨h.within o, ?_⟩
  rintro ⟨ho, hdue⟩
  obtain ⟨i, k⟩ := o
  by_contra hmissing
  rw [h.plays.mem_log] at hmissing
  obtain ⟨hnext, hle⟩ := due_le_of_le hp (Nat.not_lt.mp hmissing) ho
  obtain ⟨e, he, hid⟩ := h.plays.exists_pending i hnext
  obtain ⟨-, -, -, htarget⟩ := h.plays.target_eq he hid
  have hlater := hleft e he
  have hsame : due timers (next log i) = due timers ⟨i, (next log i).round⟩ := rfl
  rw [Instant.lt_def, hnow, htarget] at hlater
  omega

/-! ### The whole replay -/

/-- A scenario in range is replayed by its advances: its timers are all scheduled. -/
theorem exists_frozen_eq {s : Scenario} (hrange : s.InRange)
    (ht : r.clocks.timeline q = .start s.epoch) :
    ∃ r₁, Arming s.timers s.epoch (r₁.clocks.timeline q) ∧ Scheduling r r₁ ∧
      ∀ fuel ds, frozen fuel q s ds r =
        match advances fuel q s.epoch (armed 0 s.timers) ds r₁ with
        | (.ok _, r') => (.ok (.ok r'.fired.reverse), r')
        | (.error stop, r') => (.error stop, r') := by
  have hstart : Arming [] s.epoch (r.clocks.timeline q) := by
    rw [ht]
    exact arming_start s.epoch
  obtain ⟨r₁, hschedule, harming, hkept⟩ :=
    schedule_apply s.timers hrange.after hrange.period hstart
  rw [List.nil_append] at harming
  refine ⟨r₁, harming, hkept, fun fuel ds => ?_⟩
  have hlift : (ExceptT.lift (Replay.schedule q s.timers).run : Act Replay _) r =
      (.ok (.ok (armed 0 s.timers)), r₁) := by
    show (Except.ok (Replay.schedule q s.timers r).1, (Replay.schedule q s.timers r).2) = _
    rw [Replay.schedule]
    exact congrArg (fun p => (Except.ok p.1, p.2)) hschedule
  have hpending : ¬(r₁.clocks.timeline q).pending < (armed 0 s.timers).length := by
    rw [harming.pending_eq, armed, List.length_map, List.length_zipIdx]
    exact Nat.lt_irrefl _
  rw [frozen, Act.bind_of_ok hlift]
  dsimp only
  rw [Act.bind_of_ok (Act.get_apply r₁), if_neg hpending]
  refine (Act.bind_apply _ _ r₁).trans ?_
  obtain ⟨x, r'⟩ := advances fuel q s.epoch (armed 0 s.timers) ds r₁
  cases x <;> rfl

theorem frozen_apply {s : Scenario} (hrange : s.InRange) (hleap : s.epoch.leap = false)
    (hlast : s.epoch.instant.nanos + s.advances.sum * 1000000 < Instant.last.nanos)
    (hadvances : s.advances ≠ []) {fuel : Nat}
    (hfuel : (Occurrence.schedule s.timers s.advances.sum).length < fuel)
    (ht : r.clocks.timeline q = .start s.epoch) (hfired : r.fired = []) :
    ∃ r', frozen fuel q s (s.advances.map fun (ms : Nat) => ⟨ms * 1000000⟩) r =
      (.ok (.ok ((Occurrence.schedule s.timers s.advances.sum).map (entry s.timers))), r') := by
  obtain ⟨r₁, harming, hkept, hfrozen⟩ := exists_frozen_eq hrange ht
  have hlogged : Logged s.timers q s.epoch s.advances.sum r₁ [] :=
    ⟨harming.plays, by rw [hkept.fired_eq, hfired]; rfl, fun o ho => by cases ho⟩
  have hnow : (r₁.clocks.timeline q).now.nanos = s.epoch.instant.nanos + (0 : Nat) * 1000000 := by
    rw [harming.now_eq]
    omega
  obtain ⟨r₂, log, hadvance, hlogged₂, hnow₂, hleft⟩ := hlogged.advances hrange.periodic hleap
    hlast hfuel s.advances 0 hnow (Nat.zero_add _) fun h => absurd h hadvances
  refine ⟨r₂, ?_⟩
  rw [← hlogged₂.eq_schedule hrange.periodic hnow₂ hleft, hfrozen, hadvance]
  simp only [hlogged₂.fired_eq, List.reverse_reverse]

/-- The log of a replay is the schedule of its scenario, whatever was pending before. -/
theorem run_eq_schedule (fuel p : Nat) (s : Scenario) (r : Replay) (hrange : s.InRange)
    (hadvances : s.advances ≠ []) (hleap : s.epoch.leap = false)
    (hlast : s.epoch.instant.nanos + s.advances.sum * 1000000 < Instant.last.nanos)
    (hfuel : (Occurrence.schedule s.timers s.advances.sum).length < fuel) :
    (run fuel p s r).1 =
        .ok (.ok ((Occurrence.schedule s.timers s.advances.sum).map (entry s.timers))) ∧
      IsSchedule s.timers s.advances.sum (Occurrence.schedule s.timers s.advances.sum) := by
  refine ⟨?_, isSchedule_schedule hrange.periodic _⟩
  let r₁ : Replay := { r with fired := [] }.commit (r.clocks.freeze p s.epoch)
  have hsource : r₁.clocks.source p = .frozen (r.clocks.lastTimeline + 1) :=
    Clocks.source_freeze r.clocks p s.epoch
  have ht : r₁.clocks.timeline (r₁.clocks.source p) = .start s.epoch := by
    rw [hsource]
    exact Clocks.timeline_freeze r.clocks p s.epoch
  obtain ⟨r₂, hfrozen⟩ := frozen_apply hrange hleap hlast hadvances hfuel ht rfl
  have hrun : run fuel p s r = (.ok (.ok ((Occurrence.schedule s.timers s.advances.sum).map
      (entry s.timers))), r₂.commit (r₂.clocks.unfreeze p)) := by
    rw [run, hrange.steps_eq]
    refine (Act.bind_of_ok (Act.modify_apply _ r)).trans ?_
    refine (Act.bind_of_ok (Act.get_apply r₁)).trans ((Act.bind_of_ok hfrozen).trans ?_)
    exact Act.bind_of_ok (Act.modify_apply _ r₂)
  rw [hrun]

/-- A timer that was armed again at 200 ms fires after one that waited for 300 ms from the start. -/
theorem run_eq_schedule_heartbeat :
    let s : Scenario :=
      { epoch := default
        timers := [⟨"heartbeat", 100, some 100⟩, ⟨"flush", 250, none⟩, ⟨"audit", 300, none⟩]
        advances := [150, 200] }
    let l : List Occurrence := [⟨0, 0⟩, ⟨0, 1⟩, ⟨1, 0⟩, ⟨2, 0⟩, ⟨0, 2⟩]
    s.InRange ∧ s.advances ≠ [] ∧ s.epoch.leap = false ∧
      s.epoch.instant.nanos + s.advances.sum * 1000000 < Instant.last.nanos ∧
      (Occurrence.schedule s.timers s.advances.sum).length < 10 ∧
      (run 10 1 s ⟨.start default, none, [], []⟩).1 = .ok (.ok [⟨100, "heartbeat"⟩,
        ⟨200, "heartbeat"⟩, ⟨250, "flush"⟩, ⟨300, "audit"⟩, ⟨300, "heartbeat"⟩]) ∧
      IsSchedule s.timers 350 l := by
  intro s l
  have hrange : s.InRange := ⟨by decide, by decide, by decide⟩
  have hschedule : Occurrence.schedule s.timers s.advances.sum = l := by decide
  obtain ⟨hrun, hl⟩ := run_eq_schedule 10 1 s ⟨.start default, none, [], []⟩ hrange (by decide) rfl
    (by decide) (by rw [hschedule]; decide)
  rw [hschedule] at hrun hl
  exact ⟨hrange, by decide, rfl, by decide, by rw [hschedule]; decide, hrun, hl⟩

end Replay

end VirtualClock
