import VirtualClock.Proofs.Replay.Faults

/-! What a replay counts. The counter of firings follows the log line by line; the gauge is set
after each advance, when a timer without a period is pending just if it is due later, and a timer
with one was armed again by its callback. -/

namespace VirtualClock

/-- The number of timers that are pending when `passed` milliseconds have passed and all that was
due has fired: those with a period, and those due later. -/
def Scenario.left (s : Scenario) (passed : Nat) : Nat :=
  s.timers.countP fun spec => spec.period.isSome || decide ((passed : Int) < max spec.after 0)

namespace Replay

variable {timers : List TimerSpec} {t t' : Timeline Nat} {limit : Instant}

/-- What is pending while a scenario is replayed: every timer with a period, and those of the others
that have not fired, each at its first target; the targets of those that have are not after now. -/
structure Awaits (timers : List TimerSpec) (epoch : Reading) (t : Timeline Nat) : Prop where
  staffed : Staffed timers t
  first : ∀ i spec, timers[i]? = some spec → spec.period = none → ∀ e ∈ t.queue, e.id = i + 1 →
    e.target = (firstEvent epoch i spec).target
  fired : ∀ i spec, timers[i]? = some spec → spec.period = none → (∀ e ∈ t.queue, e.id ≠ i + 1) →
    (firstEvent epoch i spec).target ≤ t.now

theorem Arming.awaits {epoch : Reading} (h : Arming timers epoch t) : Awaits timers epoch t where
  staffed := h.staffed
  first i spec hspec _ e he hid := by
    obtain ⟨j, spec', hspec', rfl⟩ := (h.mem_iff e).mp he
    obtain rfl : j = i := Nat.succ.inj hid
    obtain rfl : spec' = spec := Option.some.inj (hspec'.symm.trans hspec)
    rfl
  fired i spec hspec _ hno := absurd rfl (hno _ ((h.mem_iff _).mpr ⟨i, spec, hspec, rfl⟩))

variable {epoch : Reading} {e : Event (Delivery Nat)} {i : Nat} {spec : TimerSpec}

/-- A timer that fires is armed again, or else its target is now behind. -/
theorem Popped.awaits (h : Popped t t' e i) (ha : Awaits timers epoch t)
    (hspec : timers[i]? = some spec) : Awaits timers epoch (rearm t' i spec.period) := by
  have hv := ha.staffed.valid
  have hmem (x : Event (Delivery Nat)) : x ∈ (rearm t' i spec.period).queue ↔
      x ∈ t.queue ∧ x.id ≠ i + 1 ∨ ∃ p ∈ spec.period, x = nextEvent t' i p := by
    rw [mem_rearm (h.valid hv) fun x hx => ((h.mem_iff hv).mp hx).2, h.mem_iff hv]
  have hnow : t.now.nanos ≤ t'.now.nanos ∧ e.target.nanos ≤ t'.now.nanos := by
    rw [h.now_eq, Instant.nanos_later]
    omega
  refine ⟨h.staffed ha.staffed hspec, fun j spec' hspec' honce x hx hid => ?_,
    fun j spec' hspec' honce hno => ?_⟩
  · obtain ⟨hold, -⟩ | ⟨p, hp, rfl⟩ := (hmem x).mp hx
    · exact ha.first j spec' hspec' honce x hold hid
    · obtain rfl : i = j := Nat.succ.inj hid
      obtain rfl : spec = spec' := Option.some.inj (hspec.symm.trans hspec')
      rw [honce] at hp
      cases hp
  · rw [now_rearm, Instant.le_def]
    by_cases hji : j = i
    · subst hji
      rw [← ha.first j spec' hspec' honce e h.mem h.id_eq]
      exact hnow.2
    · have hold := ha.fired j spec' hspec' honce fun x hx hid =>
        hno x ((hmem x).mpr (.inl ⟨hx, by omega⟩)) hid
      rw [Instant.le_def] at hold
      omega

/-- The numbers of the timers that are pending when all that was due has fired. -/
def waiting (timers : List TimerSpec) (passed : Nat) : List Nat :=
  (timers.zipIdx.filter fun x => x.1.period.isSome || decide ((passed : Int) < max x.1.after 0)).map
    (·.2)

theorem mem_waiting {passed : Nat} : i ∈ waiting timers passed ↔
    ∃ spec, timers[i]? = some spec ∧ (spec.period.isSome ∨ (passed : Int) < max spec.after 0) := by
  simp [waiting, List.mem_filter, List.mem_zipIdx_iff_getElem?]

theorem nodup_waiting (timers : List TimerSpec) (passed : Nat) : (waiting timers passed).Nodup := by
  have hnodup : (timers.zipIdx.map (·.2)).Nodup := by
    rw [List.zipIdx_map_snd]
    exact List.nodup_range'
  exact (List.filter_sublist.map _).nodup hnodup

theorem length_waiting (s : Scenario) (passed : Nat) :
    (waiting s.timers passed).length = s.left passed := by
  rw [waiting, List.length_map, ← List.countP_eq_length_filter, Scenario.left]
  conv_rhs => rw [← List.zipIdx_map_fst 0 s.timers, List.countP_map]
  rfl

/-- A timer is due after a time before the last instant if its delay is longer. -/
theorem lt_firstEvent {passed : Nat} (hpassed : limit.nanos = epoch.instant.nanos + passed * 1000000)
    (hlast : limit < Instant.last) (i : Nat) (spec : TimerSpec) :
    limit < (firstEvent epoch i spec).target ↔ (passed : Int) < max spec.after 0 := by
  have htarget : (firstEvent epoch i spec).target.nanos =
      min (epoch.instant.nanos + max (spec.after * 1000000) 0) Instant.last.nanos :=
    Instant.nanos_deadline_clamp epoch.instant ⟨spec.after * 1000000⟩
  rw [Instant.lt_def] at hlast ⊢
  omega

/-- When nothing is left that is due, the pending events are those of the timers that wait. -/
theorem Awaits.id_iff (h : Awaits timers epoch t) (hdone : t.popDue t.now = none) {passed : Nat}
    (hnow : t.now.nanos = epoch.instant.nanos + passed * 1000000) (hlast : t.now < Instant.last) (n : Nat) :
    (∃ e ∈ t.queue, e.id = n) ↔ n ∈ (waiting timers passed).map (· + 1) := by
  have hlater := (Timeline.popDue_eq_none h.staffed.valid).mp hdone
  simp only [List.mem_map, mem_waiting]
  constructor
  · rintro ⟨e, he, rfl⟩
    obtain ⟨i, spec, hspec, hid, -, -⟩ := h.staffed.timer e he
    refine ⟨i, ⟨spec, hspec, ?_⟩, hid.symm⟩
    cases hperiod : spec.period with
    | some p => exact .inl rfl
    | none =>
      have htarget := h.first i spec hspec hperiod e he hid
      exact .inr ((lt_firstEvent hnow hlast i spec).mp (htarget ▸ hlater e he))
  · rintro ⟨i, ⟨spec, hspec, hwaits⟩, rfl⟩
    cases hperiod : spec.period with
    | some p => exact h.staffed.repeats i spec hspec (by rw [hperiod]; rfl)
    | none =>
      by_contra hno
      have hpast := h.fired i spec hspec hperiod fun e he hid => hno ⟨e, he, hid⟩
      have hfuture : t.now < (firstEvent epoch i spec).target :=
        (lt_firstEvent hnow hlast i spec).mpr (hwaits.resolve_left (by rw [hperiod]; decide))
      rw [Instant.le_def] at hpast
      rw [Instant.lt_def] at hfuture
      omega

theorem Awaits.pending_eq {s : Scenario} (h : Awaits s.timers epoch t)
    (hdone : t.popDue t.now = none) {passed : Nat}
    (hnow : t.now.nanos = epoch.instant.nanos + passed * 1000000) (hlast : t.now < Instant.last) :
    t.pending = s.left passed := by
  have hv := h.staffed.valid
  have hnodup : (t.queue.events.map (·.id)).Nodup := by
    refine List.Nodup.map_on (fun e he x hx hid => ?_) (EventQueue.inOrder_events hv).nodup
    exact hv.eq_of_id ((EventQueue.mem_events hv).mp he) ((EventQueue.mem_events hv).mp hx) hid
  have hperm : (t.queue.events.map (·.id)).Perm ((waiting s.timers passed).map (· + 1)) := by
    refine (List.perm_ext_iff_of_nodup hnodup
      ((nodup_waiting s.timers passed).map (fun _ _ => Nat.succ.inj))).mpr fun n => ?_
    rw [← h.id_iff hdone hnow hlast, List.mem_map]
    simp only [EventQueue.mem_events hv]
  have hlength := hperm.length_eq
  rw [List.length_map, List.length_map, EventQueue.length_events, length_waiting] at hlength
  exact hlength

/-! ### Counting -/

/-- The counts are `m`, but for the firings, of which there were `n` before the replay. -/
structure Counted (timers : List TimerSpec) (q : Source) (epoch : Reading) (n : Nat) (m : Metrics)
    (r : Replay) : Prop where
  awaits : Awaits timers epoch (r.clocks.timeline q)
  metrics_eq : r.metrics = some { m with fired := n + r.fired.length }

variable {q : Source} {epoch : Reading} {r : Replay} {n : Nat} {m : Metrics}

/-- A firing is counted when it is logged. -/
theorem counts_fire (q : Source) (epoch : Reading) (hspec : timers[i]? = some spec) (r : Replay) :
    (fire q epoch (armed 0 timers) i r).metrics = r.metrics.map (·.countFiring) ∧
      (fire q epoch (armed 0 timers) i r).fired.length = r.fired.length + 1 := by
  rw [fire, armed_getElem?, hspec]
  simp only [Option.map_some]
  cases spec.period with
  | none => exact ⟨rfl, rfl⟩
  | some p => exact ⟨rfl, rfl⟩

theorem Counted.deliver (h : Counted timers q epoch n m r)
    (hnow : (r.clocks.timeline q).now ≤ limit) {f : Firing (Delivery Nat)}
    (hpop : (r.clocks.timeline q).popDue limit = some (f, t)) :
    let r' := ((site q epoch).deliver (calls q epoch timers) f f.at_
      ((site q epoch).record ((site q epoch).firing f) ((site q epoch).update t r))).2
    Counted timers q epoch n m r' ∧ (r'.clocks.timeline q).now ≤ limit := by
  obtain ⟨e, i, spec, hspec, hdeliver, hle, hpopped⟩ := h.awaits.staffed.popDue hpop
  let r₁ := (site q epoch).record ((site q epoch).firing f) ((site q epoch).update t r)
  have ht : r₁.clocks.timeline q = t := Clocks.timeline_setTimeline _ q t
  have hfire := timeline_fire (q := q) epoch hspec r₁
  obtain ⟨hmetrics, hfired⟩ := counts_fire q epoch hspec r₁
  rw [Site.deliver, hdeliver]
  show Counted timers q epoch n m (Replay.fire q epoch (armed 0 timers) i r₁) ∧
    ((Replay.fire q epoch (armed 0 timers) i r₁).clocks.timeline q).now ≤ limit
  rw [ht] at hfire
  refine ⟨⟨?_, ?_⟩, ?_⟩
  · rw [hfire]
    exact hpopped.awaits h.awaits hspec
  · rw [hmetrics, hfired]
    exact congrArg (Option.map Metrics.countFiring) h.metrics_eq
  · rw [hfire, now_rearm, hpopped.now_eq]
    rw [Instant.le_def] at hnow hle ⊢
    rw [Instant.nanos_later]
    omega

/-- An advance that returns has counted what it fired, and nothing else; then nothing is left that
is due. -/
theorem Counted.advance (h : Counted timers q epoch n m r) {fuel ms : Nat} {d : Delay}
    {r' : Replay} (hadvance : (site q epoch).advance (calls q epoch timers) fuel ⟨ms * 1000000⟩ r =
      (.ok d, r')) :
    Counted timers q epoch n m r' ∧
      (r'.clocks.timeline q).now = (r.clocks.timeline q).limit ⟨ms * 1000000⟩ ∧
      (r'.clocks.timeline q).popDue (r'.clocks.timeline q).now = none := by
  let limit := (r.clocks.timeline q).limit ⟨ms * 1000000⟩
  have hentered : (site q epoch).entered ⟨ms * 1000000⟩ r = r := by
    refine if_neg ?_
    show ¬(ms : Int) * 1000000 < 0
    omega
  obtain ⟨⟨h₁, hnow₁⟩, hdone⟩ := (site q epoch).fire_keeps (calls q epoch timers)
    (P := fun r => Counted timers q epoch n m r ∧ (r.clocks.timeline q).now ≤ limit)
    (fun r f t hr hpop => hr.1.deliver hr.2 hpop) fuel 0 ⟨h, Instant.le_deadline _ _⟩
  rw [Site.advance_apply, hentered] at hadvance
  obtain ⟨x, r₁, hfire⟩ : ∃ x r₁, (site q epoch).fire (calls q epoch timers) limit fuel 0 r =
      (x, r₁) := ⟨_, _, rfl⟩
  rw [hfire] at h₁ hnow₁ hdone
  rw [show ((site q epoch).timeline r).limit ⟨ms * 1000000⟩ = limit from rfl, hfire] at hadvance
  cases x with
  | error stop => cases hadvance
  | ok fired =>
    cases hadvance
    have htimeline (e : LogEvent) : ((site q epoch).record e ((site q epoch).update
        (((site q epoch).timeline r₁).settle limit) r₁)).clocks.timeline q =
          (r₁.clocks.timeline q).settle limit := Clocks.timeline_setTimeline _ q _
    have hlater : ((r₁.clocks.timeline q).settle limit).now = limit := Instant.later_of_le hnow₁
    refine ⟨⟨?_, h₁.metrics_eq⟩, ?_, ?_⟩
    · rw [htimeline]
      have ha := h₁.awaits
      refine ⟨⟨ha.staffed.valid, ha.staffed.timer, ha.staffed.repeats⟩, ha.first,
        fun i spec hspec honce hno => ?_⟩
      have hpast := ha.fired i spec hspec honce hno
      rw [hlater]
      rw [Instant.le_def] at hpast hnow₁ ⊢
      omega
    · rw [htimeline, hlater]
    · rw [htimeline, hlater]
      have hvalid : ((r₁.clocks.timeline q).settle limit).queue.Valid := h₁.awaits.staffed.valid
      exact (Timeline.popDue_eq_none hvalid).mpr
        ((Timeline.popDue_eq_none h₁.awaits.staffed.valid).mp (hdone fired rfl))

/-- What is counted between two advances. -/
theorem Counted.between {s : Scenario} (h : Counted s.timers q epoch n m r) (d : Delay)
    {passed : Nat} (hdone : (r.clocks.timeline q).popDue (r.clocks.timeline q).now = none)
    (hnow : (r.clocks.timeline q).now.nanos = epoch.instant.nanos + passed * 1000000)
    (hlast : (r.clocks.timeline q).now < Instant.last) :
    Counted s.timers q epoch n (m.recordAdvance (s.left passed)) (between q epoch d r) := by
  refine ⟨h.awaits, ?_⟩
  rw [← h.awaits.pending_eq hdone hnow hlast]
  show r.metrics.map (fun m => m.recordAdvance (r.clocks.timeline q).pending) = _
  rw [h.metrics_eq, Option.map_some, show (Replay.between q epoch d r).fired = r.fired from rfl]
  simp only [Metrics.recordAdvance]

/-- The gauge after some advances. -/
def gauge (s : Scenario) (passed : Nat) (steps : List Nat) (m : Metrics) : Int :=
  if steps = [] then m.pending else Int.bmod (s.left (passed + steps.sum)) Word64.count

theorem gauge_cons (s : Scenario) (passed ms : Nat) (rest : List Nat) (m : Metrics) :
    gauge s passed (ms :: rest) m =
      gauge s (passed + ms) rest (m.recordAdvance (s.left (passed + ms))) := by
  rw [gauge, gauge, if_neg (List.cons_ne_nil ms rest), List.sum_cons, Nat.add_assoc]
  cases rest with
  | nil => rw [if_pos rfl, List.sum_nil, Nat.add_zero, Metrics.recordAdvance]
  | cons ms' rest => rw [if_neg (List.cons_ne_nil ms' rest)]

theorem Counted.advances {s : Scenario} (steps : List Nat) {fuel passed : Nat} {r' : Replay}
    (h : Counted s.timers q epoch n m r)
    (hnow : (r.clocks.timeline q).now.nanos = epoch.instant.nanos + passed * 1000000)
    (hlast : epoch.instant.nanos + (passed + steps.sum) * 1000000 < Instant.last.nanos)
    (hadvances : Replay.advances fuel q epoch (armed 0 s.timers) (delays steps) r = (.ok (), r')) :
    Counted s.timers q epoch n
      { m with
        advances := m.advances + steps.length
        pending := gauge s passed steps m } r' := by
  induction steps generalizing m r passed with
  | nil =>
    cases hadvances
    exact h
  | cons ms rest ih =>
    rw [List.sum_cons] at hlast
    change Replay.advances fuel q epoch _ (⟨ms * 1000000⟩ :: delays rest) r = _ at hadvances
    rw [Replay.advances] at hadvances
    obtain ⟨d, r₁, hadvance, hrest⟩ := Act.bind_eq_ok.mp hadvances
    obtain ⟨h₁, hlimit, hdone⟩ := h.advance hadvance
    have hnanos := nanos_limit (r.clocks.timeline q) ms
    rw [← hlimit] at hnanos
    have hnow₁ : (r₁.clocks.timeline q).now.nanos =
        epoch.instant.nanos + (passed + ms : Nat) * 1000000 := by omega
    have h₂ := h₁.between ⟨ms * 1000000⟩ hdone hnow₁ (by rw [Instant.lt_def]; omega)
    have h₃ := ih h₂ hnow₁ (by omega) hrest
    rw [gauge_cons, List.length_cons, Nat.add_comm rest.length, ← Nat.add_assoc]
    exact h₃

/-! ### The whole replay -/

/-- A replay counts each line of its log and each of its advances. If there is an advance, the gauge
is left at the number of timers with a period and of those without one that are due later. -/
theorem metrics_runWithin (wait fuel p : Nat) (s : Scenario) (r r' : Replay) (m : Metrics)
    (log : List Fired) (hmetrics : r.metrics = some m)
    (hlast : s.epoch.instant.nanos + s.advances.sum * 1000000 < Instant.last.nanos)
    (hrun : runWithin wait fuel p s r = (.ok (.ok log), r')) :
    ∃ m', r'.metrics = some m' ∧ m'.fired = m.fired + log.length ∧
      m'.advances = m.advances + s.advances.length ∧
      (s.advances = [] → m'.pending = m.pending) ∧
      (s.advances ≠ [] → m'.pending = Int.bmod (s.left s.advances.sum) Word64.count ∧
        (s.timers.length < 9223372036854775808 → m'.pending = s.left s.advances.sum)) := by
  rw [runWithin_eq] at hrun
  have hended := ended_run fuel p s r
  rw [hrun] at hended
  have hrange : s.InRange := by
    rw [← Scenario.fault?_eq_none, Option.eq_none_iff_forall_ne_some]
    intro e he
    cases (hended.error_iff e).mpr he
  obtain ⟨r₁, harming, hkept, hfrozen⟩ :=
    exists_frozen_eq (r := { r with fired := [] }.commit (r.clocks.freeze p s.epoch)) hrange
      (Clocks.timeline_freeze r.clocks p s.epoch)
  rw [run_apply fuel p hrange, hfrozen] at hrun
  obtain ⟨x, r₂, hadvances⟩ : ∃ x r₂, Replay.advances fuel (.frozen (r.clocks.lastTimeline + 1))
      s.epoch (armed 0 s.timers) (delays s.advances) r₁ = (x, r₂) := ⟨_, _, rfl⟩
  rw [hadvances] at hrun
  cases x with
  | error stop => cases hrun
  | ok _ =>
    cases hrun
    have h₁ : Counted s.timers (.frozen (r.clocks.lastTimeline + 1)) s.epoch m.fired m r₁ := by
      refine ⟨harming.awaits, ?_⟩
      rw [hkept.metrics_eq, hkept.fired_eq]
      exact hmetrics
    have hnow₁ : (r₁.clocks.timeline (.frozen (r.clocks.lastTimeline + 1))).now.nanos =
        s.epoch.instant.nanos + (0 : Nat) * 1000000 := by
      rw [harming.now_eq]
      omega
    have h₂ := h₁.advances s.advances hnow₁ (by omega) hadvances
    refine ⟨_, h₂.metrics_eq, ?_, rfl, fun hnil => if_pos hnil, fun hne => ?_⟩
    · rw [List.length_reverse]
    · have hgauge : gauge s 0 s.advances m = Int.bmod (s.left s.advances.sum) Word64.count := by
        rw [gauge, if_neg hne, Nat.zero_add]
      refine ⟨hgauge, fun hlength => hgauge.trans ?_⟩
      have hle : s.left s.advances.sum ≤ s.timers.length := List.countP_le_length
      refine Int.bmod_eq_of_le ?_ ?_ <;> rw [Word64.count] <;> omega

/-- After 350 ms a timer with a period of 100 ms has fired three times, one for 250 ms once, and one
for 400 ms is still pending with the first. -/
theorem metrics_runWithin_heartbeat :
    let s : Scenario :=
      { heartbeat with timers := heartbeat.timers ++ [⟨"flush", 250, none⟩, ⟨"audit", 400, none⟩] }
    let r : Replay := ⟨.start default, some ⟨7, 2, 9⟩, [], []⟩
    let log : List Fired :=
      [⟨100, "heartbeat"⟩, ⟨200, "heartbeat"⟩, ⟨250, "flush"⟩, ⟨300, "heartbeat"⟩]
    r.metrics = some ⟨7, 2, 9⟩ ∧
      s.epoch.instant.nanos + s.advances.sum * 1000000 < Instant.last.nanos ∧
      ∃ r', runWithin 5 10 1 s r = (.ok (.ok log), r') ∧ r'.metrics = some ⟨11, 4, 2⟩ := by
  intro s r log
  have hlog : (runWithin 5 10 1 s r).1 = .ok (.ok log) := by cbv
  have hrun : runWithin 5 10 1 s r = (.ok (.ok log), (runWithin 5 10 1 s r).2) :=
    Prod.ext hlog rfl
  have hlast : s.epoch.instant.nanos + s.advances.sum * 1000000 < Instant.last.nanos := by decide
  obtain ⟨m', hm', hfired, hadvances, -, hpending⟩ :=
    metrics_runWithin 5 10 1 s r _ ⟨7, 2, 9⟩ log rfl hlast hrun
  refine ⟨rfl, hlast, _, hrun, hm'.trans (congrArg some ?_)⟩
  obtain ⟨fired, advances, pending⟩ := m'
  obtain rfl : fired = 11 := hfired
  obtain rfl : advances = 4 := hadvances
  have hleft : s.left s.advances.sum = 2 := by decide
  have hgauge := (hpending (by decide)).2 (by decide)
  rw [hleft] at hgauge
  obtain rfl : pending = 2 := hgauge
  rfl

end Replay

end VirtualClock
