import VirtualClock.Proofs.Replay.Returns

/-! What can be wrong with a scenario, and what a replay of it leaves behind. The advances are
looked at before the clock is touched; the timers are looked at one after another while it is
frozen, and then it is unfrozen in any case. -/

namespace VirtualClock

theorem TimerSpec.fault?_eq_none {t : TimerSpec} : t.fault? = none ↔
    t.after.natAbs ≤ 9223372036854775807 ∧ ∀ p ∈ t.period, 1 ≤ p ∧ p ≤ 9223372036854775807 := by
  unfold fault?
  cases t.period with
  | none => simp
  | some p =>
    simp only [Option.bind_some, Option.mem_some_iff, forall_eq']
    split
    · simp; omega
    · split
      · simp; omega
      · split
        · simp; omega
        · simp; omega

theorem advanceFault?_eq_none {ms : Nat} : advanceFault? ms = none ↔ ms ≤ 9223372036854775807 := by
  simp [advanceFault?]

theorem Scenario.fault?_eq_none {s : Scenario} : s.fault? = none ↔ s.InRange := by
  rw [fault?, Option.or_eq_none_iff, List.findSome?_eq_none_iff, List.findSome?_eq_none_iff]
  simp only [advanceFault?_eq_none, TimerSpec.fault?_eq_none]
  constructor
  · rintro ⟨hadvances, htimers⟩
    exact ⟨hadvances, fun t ht => (htimers t ht).1, fun t ht => (htimers t ht).2⟩
  · intro h
    exact ⟨h.advances, fun t ht => ⟨h.after t ht, h.period t ht⟩⟩

/-- A scenario is found bad if one of its advances or timers is. -/
theorem Scenario.isSome_fault? {s : Scenario} : s.fault?.isSome ↔
    (∃ ms ∈ s.advances, 9223372036854775807 < ms) ∨
      ∃ t ∈ s.timers, 9223372036854775807 < t.after.natAbs ∨
        ∃ ms ∈ t.period, 9223372036854775807 < ms.natAbs ∨ ms ≤ 0 := by
  have hperiod (p : Int) : (1 ≤ p ∧ p ≤ 9223372036854775807) ↔
      ¬(9223372036854775807 < p.natAbs ∨ p ≤ 0) := by omega
  rw [← not_iff_not, Bool.not_eq_true, Option.isSome_eq_false_iff, Option.isNone_iff_eq_none,
    fault?, Option.or_eq_none_iff, List.findSome?_eq_none_iff, List.findSome?_eq_none_iff]
  simp only [advanceFault?_eq_none, TimerSpec.fault?_eq_none, hperiod, not_or, not_exists, not_and,
    Nat.not_lt]

/-- What is wrong with an advance is told with the advance. -/
theorem advanceFault?_eq_some {ms : Nat} {e : ReplayError} (h : advanceFault? ms = some e) :
    e = .invalidAdvance ms := by
  unfold advanceFault? at h
  split at h
  · exact (Option.some.inj h).symm
  · cases h

/-- What is wrong with a timer is told with its name. -/
theorem TimerSpec.fault?_eq_some {t : TimerSpec} {e : ReplayError} (h : t.fault? = some e) :
    (∃ field ms, e = .outOfRange t.name field ms) ∨
      ∃ d, e = .timer t.name (.nonPositiveInterval d) := by
  unfold fault? at h
  split at h
  · exact .inl ⟨_, _, (Option.some.inj h).symm⟩
  · obtain ⟨p, -, h⟩ := Option.bind_eq_some_iff.mp h
    split at h
    · exact .inl ⟨_, _, (Option.some.inj h).symm⟩
    · split at h
      · exact .inr ⟨_, (Option.some.inj h).symm⟩
      · cases h

theorem Scenario.fault?_ne_notScheduled (s : Scenario) (scheduled expected : Nat) :
    s.fault? ≠ some (.notScheduled scheduled expected) := by
  intro h
  obtain h | ⟨-, h⟩ := Option.or_eq_some_iff.mp h
  · obtain ⟨ms, -, hms⟩ := List.exists_of_findSome?_eq_some h
    cases advanceFault?_eq_some hms
  · obtain ⟨t, -, ht⟩ := List.exists_of_findSome?_eq_some h
    obtain ⟨field, ms, heq⟩ | ⟨d, heq⟩ := TimerSpec.fault?_eq_some ht <;> cases heq

/-- A timer that cannot be scheduled is refused with what is wrong with it. -/
theorem TimerSpec.delays_of_fault {t : TimerSpec} {e : ReplayError} (h : t.fault? = some e) :
    t.delays = .error e := by
  unfold fault? at h
  unfold delays delay
  split at h
  · rename_i hafter
    cases h
    rw [Delay.ofMillis?, if_neg (Nat.not_le.mpr hafter)]
    rfl
  · rename_i hafter
    obtain ⟨p, hp, h⟩ := Option.bind_eq_some_iff.mp h
    rw [Delay.ofMillis?_eq (Nat.not_lt.mp hafter), hp]
    split at h
    · rename_i hrange
      cases h
      simp only [Delay.ofMillis?, if_neg (Nat.not_le.mpr hrange)]
      rfl
    · rename_i hrange
      split at h
      · rename_i hsign
        cases h
        simp only [Delay.ofMillis?_eq (Nat.not_lt.mp hrange)]
        show (if p * 1000000 ≤ 0 then _ else _) = _
        rw [if_pos (by omega)]
        rfl
      · cases h

/-- A scenario with an advance out of range is refused with the first one. -/
theorem Scenario.steps_of_fault {s : Scenario} {e : ReplayError}
    (h : s.advances.findSome? advanceFault? = some e) : s.steps = .error e := by
  obtain ⟨epoch, timers, advances⟩ := s
  change advances.mapM _ = _
  change advances.findSome? _ = _ at h
  induction advances with
  | nil => cases h
  | cons ms rest ih =>
    rw [List.findSome?_cons] at h
    rw [List.mapM_cons]
    by_cases hms : ms ≤ 9223372036854775807
    · rw [advanceFault?_eq_none.mpr hms] at h
      rw [ih h, Delay.ofMillis?_eq (show (ms : Int).natAbs ≤ 9223372036854775807 by omega)]
      rfl
    · rw [advanceFault?, if_pos (Nat.not_le.mp hms)] at h
      cases h
      rw [Delay.ofMillis?, if_neg (by omega)]
      rfl

namespace Replay

variable {q : Source} {r r' : Replay}

/-! ### Scheduling -/

theorem arm_of_fault {k : Nat} {spec : TimerSpec} {e : ReplayError} (h : spec.fault? = some e)
    (r : Replay) : arm q k spec r = (.error e, r) := by
  rw [arm, TimerSpec.delays_of_fault h]
  rfl

theorem scheduling_arm (q : Source) (k : Nat) (spec : TimerSpec) (r : Replay) :
    Scheduling r (arm q k spec r).2 := by
  rw [arm]
  cases spec.delays with
  | error e => exact .refl r
  | ok d => exact scheduling_update q _ r

/-- Schedules the timers of a scenario from position `n` on. -/
def scheduleFrom (q : Source) (n : Nat) (specs : List TimerSpec) :
    ExceptT ReplayError (StateM Replay) (List Armed) :=
  (specs.zipIdx n).mapM fun (spec, k) => arm q k spec

theorem scheduleFrom_cons (q : Source) (n : Nat) (spec : TimerSpec) (specs : List TimerSpec)
    (r : Replay) : scheduleFrom q n (spec :: specs) r =
      match arm q n spec r with
      | (.error e, r') => (.error e, r')
      | (.ok a, r') =>
        match scheduleFrom q (n + 1) specs r' with
        | (.error e, r'') => (.error e, r'')
        | (.ok as, r'') => (.ok (a :: as), r'') := by
  have hcons : scheduleFrom q n (spec :: specs) =
      arm q n spec >>= fun a => scheduleFrom q (n + 1) specs >>= fun as => pure (a :: as) := by
    rw [scheduleFrom, List.zipIdx_cons, List.mapM_cons]
    rfl
  rw [hcons, Act.bind_apply]
  obtain ⟨x, r'⟩ := arm q n spec r
  cases x with
  | error e => rfl
  | ok a =>
    dsimp only
    rw [Act.bind_apply]
    obtain ⟨y, r''⟩ := scheduleFrom q (n + 1) specs r'
    cases y <;> rfl

theorem scheduling_scheduleFrom (q : Source) (n : Nat) (specs : List TimerSpec) (r : Replay) :
    Scheduling r (scheduleFrom q n specs r).2 := by
  induction specs generalizing n r with
  | nil => exact .refl r
  | cons spec specs ih =>
    have harm := scheduling_arm q n spec r
    rw [scheduleFrom_cons]
    generalize arm q n spec r = x at harm ⊢
    obtain ⟨x, r'⟩ := x
    cases x with
    | error e => exact harm
    | ok a =>
      have hrest := harm.trans (ih (n + 1) r')
      dsimp only
      generalize scheduleFrom q (n + 1) specs r' = y at hrest ⊢
      obtain ⟨y, r''⟩ := y
      cases y <;> exact hrest

/-- Timers are scheduled up to the first that cannot be. -/
theorem scheduleFrom_of_fault {specs : List TimerSpec} {e : ReplayError}
    (h : specs.findSome? TimerSpec.fault? = some e) (q : Source) (n : Nat) (r : Replay) :
    (scheduleFrom q n specs r).1 = .error e := by
  induction specs generalizing n r with
  | nil => cases h
  | cons spec specs ih =>
    rw [List.findSome?_cons] at h
    rw [scheduleFrom_cons]
    cases hfault : spec.fault? with
    | some e' =>
      rw [hfault] at h
      cases h
      rw [arm_of_fault hfault]
    | none =>
      rw [hfault] at h
      obtain ⟨hafter, hperiod⟩ := TimerSpec.fault?_eq_none.mp hfault
      obtain ⟨a, r', harm⟩ : ∃ a r', arm q n spec r = (.ok a, r') := by
        rw [arm, TimerSpec.delays_eq hafter hperiod]
        exact ⟨_, _, rfl⟩
      have hrest := ih h (n + 1) r'
      rw [harm]
      dsimp only
      generalize scheduleFrom q (n + 1) specs r' = x at hrest ⊢
      obtain ⟨x, r''⟩ := x
      cases hrest
      rfl

/-! ### The wait for the timers -/

theorem awaitPending_of_le {count : Nat} (h : count ≤ (r.clocks.timeline q).pending) (wait : Nat) :
    awaitPending q count wait r = (.ok true, r) := by
  have hregister : (r.clocks.timeline q).register count = none := by
    rw [Timeline.register, show (r.clocks.timeline q).queue.register count = none from if_pos h]
    rfl
  unfold awaitPending
  dsimp only
  split
  · rw [decide_eq_true h]
  · rw [hregister]

theorem lift_schedule (q : Source) (timers : List TimerSpec) (r : Replay) :
    (ExceptT.lift (schedule q timers).run : Act Replay _) r =
      (.ok (scheduleFrom q 0 timers r).1, (scheduleFrom q 0 timers r).2) := rfl

/-- The wait is over at once, however long it may last: what was scheduled is pending. -/
theorem frozenWithin_eq {epoch : Reading} (ht : r.clocks.timeline q = .start epoch)
    (wait fuel : Nat) (s : Scenario) (ds : List Delay) :
    frozenWithin wait fuel q s ds r = frozen fuel q s ds r := by
  rw [frozenWithin, frozen, Act.bind_of_ok (lift_schedule q s.timers r),
    Act.bind_of_ok (lift_schedule q s.timers r)]
  cases hfault : s.timers.findSome? TimerSpec.fault? with
  | some e =>
    rw [scheduleFrom_of_fault hfault]
  | none =>
    have hspecs := fun t ht =>
      TimerSpec.fault?_eq_none.mp (List.findSome?_eq_none_iff.mp hfault t ht)
    have hstart : Arming [] epoch (r.clocks.timeline q) := by
      rw [ht]
      exact arming_start epoch
    obtain ⟨r₁, hschedule, harming, -⟩ :=
      schedule_apply s.timers (fun t ht => (hspecs t ht).1) (fun t ht => (hspecs t ht).2) hstart
    have hscheduled : scheduleFrom q 0 s.timers r = (.ok (armed 0 s.timers), r₁) := hschedule
    have hlength : (armed 0 s.timers).length = (r₁.clocks.timeline q).pending := by
      rw [harming.pending_eq, armed, List.length_map, List.length_zipIdx, List.nil_append]
    rw [hscheduled]
    dsimp only
    rw [Act.bind_of_ok (awaitPending_of_le (Nat.le_of_eq hlength) wait),
      Act.bind_of_ok (Act.get_apply r₁), if_neg (Nat.not_lt.mpr (Nat.le_of_eq hlength))]
    rfl

theorem runWithin_eq (wait fuel p : Nat) (s : Scenario) (r : Replay) :
    runWithin wait fuel p s r = run fuel p s r := by
  unfold runWithin run
  cases s.steps with
  | error e => rfl
  | ok ds =>
    let r₁ : Replay := { r with fired := [] }.commit (r.clocks.freeze p s.epoch)
    have ht : r₁.clocks.timeline (r₁.clocks.source p) = .start s.epoch := by
      rw [show r₁.clocks.source p = _ from Clocks.source_freeze r.clocks p s.epoch]
      exact Clocks.timeline_freeze r.clocks p s.epoch
    dsimp only
    rw [Act.bind_of_ok (Act.modify_apply _ r), Act.bind_of_ok (Act.modify_apply _ r),
      Act.bind_of_ok (Act.get_apply r₁), Act.bind_of_ok (Act.get_apply r₁),
      Act.bind_apply, Act.bind_apply, frozenWithin_eq ht]

/-! ### What is left behind -/

theorem source_fire (q : Source) (epoch : Reading) (timers : List Armed) (k : Nat) (r : Replay)
    (p : Nat) : (fire q epoch timers k r).clocks.source p = r.clocks.source p := by
  unfold fire
  cases timers[k]? with
  | none => rfl
  | some t =>
    dsimp only
    cases t.period with
    | none => rfl
    | some d => exact Clocks.source_setTimeline r.clocks q _ p

/-- No advance installs a source. -/
theorem source_advances (fuel : Nat) (q : Source) (epoch : Reading) (timers : List Armed)
    (ds : List Delay) (r : Replay) (p : Nat) :
    (advances fuel q epoch timers ds r).2.clocks.source p = r.clocks.source p := by
  induction ds generalizing r with
  | nil => rfl
  | cons d ds ih =>
    have hadvance := (site q epoch).advance_keeps (fun k => modify (fire q epoch timers k))
      (P := fun r' => r'.clocks.source p = r.clocks.source p)
      (fun t r' h => (Clocks.source_setTimeline r'.clocks q t p).trans h) (fun _ _ h => h)
      (fun k r' h => (source_fire q epoch timers k r' p).trans h) fuel d rfl
    obtain ⟨x, r₁, heq⟩ : ∃ x r₁, (site q epoch).advance
        (fun k => modify (fire q epoch timers k)) fuel d r = (x, r₁) := ⟨_, _, rfl⟩
    rw [heq] at hadvance
    cases x with
    | error stop =>
      rw [advances_of_error heq]
      exact hadvance
    | ok _ =>
      rw [advances_of_ok heq]
      exact (ih (between q epoch d r₁)).trans hadvance

/-- A scenario with a timer that cannot be scheduled is given up after the timers before it. -/
theorem frozen_of_fault {s : Scenario} {e : ReplayError}
    (h : s.timers.findSome? TimerSpec.fault? = some e) (fuel : Nat) (q : Source) (ds : List Delay)
    (r : Replay) : frozen fuel q s ds r = (.ok (.error e), (scheduleFrom q 0 s.timers r).2) := by
  rw [frozen, Act.bind_of_ok (lift_schedule q s.timers r), scheduleFrom_of_fault h]
  rfl

/-- A scenario with nothing wrong is replayed, unless its replay does not end. -/
theorem frozen_of_inRange {s : Scenario} (hrange : s.InRange)
    (ht : r.clocks.timeline q = .start s.epoch) (fuel : Nat) :
    ∃ x r', frozen fuel q s (delays s.advances) r = (x, r') ∧
      (∀ p, r'.clocks.source p = r.clocks.source p) ∧
      (x = .error .outOfFuel ∨ ∃ log, x = .ok (.ok log)) := by
  obtain ⟨r₁, harming, hkept, hfrozen⟩ := exists_frozen_eq hrange ht
  obtain ⟨x, r', hadvances, hx⟩ :=
    harming.staffed.advances_stop s.epoch hrange.periodic fuel s.advances
  have hsource (p : Nat) : r'.clocks.source p = r.clocks.source p := by
    have hadvanced := source_advances fuel q s.epoch (armed 0 s.timers) (delays s.advances) r₁ p
    rw [hadvances] at hadvanced
    exact hadvanced.trans (hkept.source_eq p)
  rw [hfrozen, hadvances]
  obtain rfl | ⟨rfl, -⟩ := hx
  · exact ⟨_, r', rfl, hsource, .inl rfl⟩
  · exact ⟨_, r', rfl, hsource, .inr ⟨_, rfl⟩⟩

/-- The advances of a scenario without a bad one are looked at without regard to its timers. -/
theorem steps_of_advances {s : Scenario} (h : s.advances.findSome? advanceFault? = none) :
    s.steps = .ok (delays s.advances) := by
  have hadvances : ∀ ms ∈ s.advances, ms ≤ 9223372036854775807 := fun ms hms =>
    advanceFault?_eq_none.mp (List.findSome?_eq_none_iff.mp h ms hms)
  have hrange : ({ s with timers := [] } : Scenario).InRange :=
    ⟨hadvances, fun _ ht => absurd ht List.not_mem_nil, fun _ ht => absurd ht List.not_mem_nil⟩
  exact hrange.steps_eq

/-- Unfreezing tells how many events it abandons, and leaves none. -/
theorem unfreeze_of_frozen {c : Clocks Nat} {p i : Nat} (h : c.source p = .frozen i) :
    (c.unfreeze p).1 = [Clocks.unfroze (c.timeline (.frozen i)).pending] ∧
      ((c.unfreeze p).2.timeline (.frozen i)).pending = 0 := by
  refine ⟨?_, ?_⟩
  · show ((c.swap p .real).2.discard (c.source p)).1.toList.map Clocks.unfroze = _
    rw [h]
    rfl
  · rw [Clocks.timeline_unfreeze, h, Clocks.timeline_discard]
    rfl

/-- What a replay of `s` on the provider `p` from `r` has come to when it returns. -/
structure Ended (s : Scenario) (p : Nat) (r : Replay) (outcome : Except ReplayError (List Fired))
    (r' : Replay) : Prop where
  /-- It fails with what is wrong with the scenario, and only with that. -/
  error_iff : ∀ e, outcome = .error e ↔ s.fault? = some e
  untouched : ∀ ms, outcome = .error (.invalidAdvance ms) → r' = r
  unfrozen : (∀ ms, outcome ≠ .error (.invalidAdvance ms)) → r'.clocks.source p = .real ∧
    (r'.clocks.timeline (.frozen (r.clocks.lastTimeline + 1))).pending = 0
  /-- A failure is not counted, and nothing is logged but that the clock was frozen and unfrozen. -/
  quiet : ∀ e, outcome = .error e → r'.metrics = r.metrics ∧ (r' = r ∨ r'.fired = [] ∧
    ∃ n, r'.logs = Clocks.unfroze n :: (r.clocks.freeze p s.epoch).1.reverse ++ r.logs)

theorem ended_run (fuel p : Nat) (s : Scenario) (r : Replay) :
    match run fuel p s r with
    | (.ok outcome, r') => Ended s p r outcome r'
    | (.error stop, _) => stop = .outOfFuel ∧ s.fault? = none := by
  cases hadvances : s.advances.findSome? advanceFault? with
  | some e =>
    have hfault : s.fault? = some e := by rw [Scenario.fault?, hadvances]; rfl
    obtain ⟨ms, -, hms⟩ := List.exists_of_findSome?_eq_some hadvances
    have hrun : run fuel p s r = (.ok (.error e), r) := by
      rw [run, Scenario.steps_of_fault hadvances]
      rfl
    rw [hrun]
    exact {
      error_iff := fun e' => by rw [hfault, Except.error.injEq, Option.some.injEq]
      untouched := fun _ _ => rfl
      unfrozen := fun h => absurd (congrArg Except.error (advanceFault?_eq_some hms)) (h ms)
      quiet := fun _ _ => ⟨rfl, .inl rfl⟩ }
  | none =>
    let r₁ : Replay := { r with fired := [] }.commit (r.clocks.freeze p s.epoch)
    have hsource₁ : r₁.clocks.source p = .frozen (r.clocks.lastTimeline + 1) :=
      Clocks.source_freeze r.clocks p s.epoch
    rw [run_of_steps (steps_of_advances hadvances)]
    cases htimers : s.timers.findSome? TimerSpec.fault? with
    | some e =>
      have hfault : s.fault? = some e := by rw [Scenario.fault?, hadvances, htimers]; rfl
      obtain ⟨t, -, ht⟩ := List.exists_of_findSome?_eq_some htimers
      have hkept := scheduling_scheduleFrom (.frozen (r.clocks.lastTimeline + 1)) 0 s.timers r₁
      rw [frozen_of_fault htimers]
      obtain ⟨htold, hnone⟩ := unfreeze_of_frozen ((hkept.source_eq p).trans hsource₁)
      exact {
        error_iff := fun e' => by rw [hfault, Except.error.injEq, Option.some.injEq]
        untouched := fun ms h => by
          obtain rfl := Except.error.inj h
          obtain ⟨field, n, heq⟩ | ⟨d, heq⟩ := TimerSpec.fault?_eq_some ht <;> cases heq
        unfrozen := fun _ => ⟨Clocks.source_unfreeze _ p, hnone⟩
        quiet := fun _ _ => ⟨hkept.metrics_eq, .inr ⟨hkept.fired_eq, _,
          congrArg₂ (fun told logs => told.reverse ++ logs) htold hkept.logs_eq⟩⟩ }
    | none =>
      have hfault : s.fault? = none := by rw [Scenario.fault?, hadvances, htimers]; rfl
      obtain ⟨x, r', hfrozen, hsource, hx⟩ :=
        frozen_of_inRange (r := r₁) (Scenario.fault?_eq_none.mp hfault)
          (Clocks.timeline_freeze r.clocks p s.epoch) fuel
      rw [hfrozen]
      obtain rfl | ⟨log, rfl⟩ := hx
      · exact ⟨rfl, hfault⟩
      · have hnone := (unfreeze_of_frozen ((hsource p).trans hsource₁)).2
        exact {
          error_iff := fun e' => by simp [hfault]
          untouched := fun _ h => by cases h
          unfrozen := fun _ => ⟨Clocks.source_unfreeze _ p, hnone⟩
          quiet := fun _ h => by cases h }

/-- A replay that returns fails if an advance or a timer is bad, and only then, with the first bad
advance or else the first bad timer, however long it may wait for its timers. A bad advance leaves
everything as it was; otherwise the clock is real again and nothing is pending on the timeline of
the replay. A replay that does not return has nothing wrong with it. -/
theorem ended_runWithin (wait fuel p : Nat) (s : Scenario) (r : Replay) :
    (s.fault?.isSome ↔ (∃ ms ∈ s.advances, 9223372036854775807 < ms) ∨
      ∃ t ∈ s.timers, 9223372036854775807 < t.after.natAbs ∨
        ∃ ms ∈ t.period, 9223372036854775807 < ms.natAbs ∨ ms ≤ 0) ∧
    (∀ scheduled expected, s.fault? ≠ some (.notScheduled scheduled expected)) ∧
    match runWithin wait fuel p s r with
    | (.ok outcome, r') => Ended s p r outcome r'
    | (.error stop, _) => stop = .outOfFuel ∧ s.fault? = none := by
  refine ⟨Scenario.isSome_fault?, s.fault?_ne_notScheduled, ?_⟩
  rw [runWithin_eq]
  exact ended_run fuel p s r

end Replay

end VirtualClock
