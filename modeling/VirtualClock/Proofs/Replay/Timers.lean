import VirtualClock.Proofs.Schedule
import VirtualClock.Proofs.Timeline.Solo
import VirtualClock.Timer

/-! The timers of a scenario on the timeline of its replay. The event that is pending for a timer
stands for its next firing, and the order of the events is that of the schedule. -/

namespace VirtualClock.Replay

open Occurrence

theorem getElem?_concat {α : Type} {l : List α} {a b : α} {i : Nat} :
    (l ++ [a])[i]? = some b ↔ l[i]? = some b ∨ i = l.length ∧ b = a := by
  obtain hlt | rfl | hgt := Nat.lt_trichotomy i l.length
  · rw [List.getElem?_append_left hlt]
    exact ⟨.inl, fun h => h.resolve_right fun ⟨hi, _⟩ => by omega⟩
  · simp [eq_comm]
  · rw [List.getElem?_eq_none (by simp; omega), List.getElem?_eq_none (by omega)]
    exact ⟨.inl, fun h => h.resolve_right fun ⟨hi, _⟩ => by omega⟩

/-! ### Arming -/

/-- The event of the timer at position `i` when it was armed for the first time. -/
def firstEvent (epoch : Reading) (i : Nat) (spec : TimerSpec) : Event (Delivery Nat) :=
  ⟨i + 1, epoch.instant.deadline (Delay.clamp ⟨spec.after * 1000000⟩), i + 1, .zero, .callback i⟩

/-- The timers that were armed at the epoch, one after another, are pending. -/
structure Arming (timers : List TimerSpec) (epoch : Reading) (t : Timeline Nat) : Prop where
  sound : Solo.Sound epoch t
  now_eq : t.now = epoch.instant
  mem_iff : ∀ e, e ∈ t.queue ↔ ∃ i spec, timers[i]? = some spec ∧ e = firstEvent epoch i spec
  sequence_eq : t.queue.sequence = timers.length
  lastId_eq : t.queue.lastId = timers.length
  pending_eq : t.pending = timers.length

theorem arming_start (epoch : Reading) : Arming [] epoch (.start epoch) where
  sound := Solo.sound_start epoch
  now_eq := rfl
  mem_iff e := by simp [Timeline.start, EventQueue.mem_iff]
  sequence_eq := rfl
  lastId_eq := rfl
  pending_eq := rfl

theorem Arming.id_le {timers : List TimerSpec} {epoch : Reading} {t : Timeline Nat}
    (h : Arming timers epoch t) {e : Event (Delivery Nat)} (he : e ∈ t.queue) :
    e.id ≤ timers.length := by
  obtain ⟨i, spec, hspec, rfl⟩ := (h.mem_iff e).mp he
  exact (List.getElem?_eq_some_iff.mp hspec).1

theorem Arming.startTimer {timers : List TimerSpec} {epoch : Reading} {t : Timeline Nat}
    (h : Arming timers epoch t) (spec : TimerSpec) :
    (t.startTimer ⟨spec.after * 1000000⟩ (.callback timers.length)).1 = timers.length + 1 ∧
      Arming (timers ++ [spec]) epoch
        (t.startTimer ⟨spec.after * 1000000⟩ (.callback timers.length)).2 := by
  have hid : (t.startTimer ⟨spec.after * 1000000⟩ (.callback timers.length)).1 =
      timers.length + 1 := congrArg (· + 1) h.lastId_eq
  refine ⟨hid, ?_⟩
  let t₁ := t.move .allocate
  have hvalid : t₁.queue.Valid := Timeline.valid_move h.sound.valid .allocate
  have hstart : (t.startTimer ⟨spec.after * 1000000⟩ (.callback timers.length)).2 =
      t₁.move (.arm (timers.length + 1) ⟨spec.after * 1000000⟩ .zero (.callback timers.length)) := by
    rw [Timeline.startTimer_eq, ← hid]
    rfl
  have hlt : ∀ e ∈ t₁.queue, e.id ≠ timers.length + 1 := fun e he => by
    have := h.id_le he
    omega
  rw [hstart]
  refine ⟨(h.sound.move rfl).move rfl, h.now_eq, fun e => ?_, ?_, ?_, ?_⟩
  · have hnew : t₁.queued? (.arm (timers.length + 1) ⟨spec.after * 1000000⟩ .zero
        (.callback timers.length)) = some (firstEvent epoch timers.length spec) := by
      rw [firstEvent, ← h.now_eq, ← h.sequence_eq]
      rfl
    rw [Timeline.mem_move hvalid, hnew, Option.some.injEq, eq_comm (b := e)]
    constructor
    · rintro (⟨he, -⟩ | rfl)
      · obtain ⟨i, spec', hspec', rfl⟩ := (h.mem_iff e).mp he
        exact ⟨i, spec', getElem?_concat.mpr (.inl hspec'), rfl⟩
      · exact ⟨timers.length, spec, getElem?_concat.mpr (.inr ⟨rfl, rfl⟩), rfl⟩
    · rintro ⟨i, spec', hspec', rfl⟩
      obtain hold | ⟨rfl, rfl⟩ := getElem?_concat.mp hspec'
      · have he : firstEvent epoch i spec' ∈ t₁.queue := (h.mem_iff _).mpr ⟨i, spec', hold, rfl⟩
        exact .inl ⟨he, hlt _ he⟩
      · exact .inr rfl
  · rw [Timeline.sequence_move hvalid, List.length_append]
    exact congrArg (· + 1) h.sequence_eq
  · rw [List.length_append]
    refine (EventQueue.lastId_insert t₁.queue _ _ _ _).trans ?_
    exact congrArg (· + 1) h.lastId_eq
  · rw [List.length_append]
    refine (EventQueue.size_insert hvalid hlt _ _ _).trans ?_
    exact congrArg (· + 1) h.pending_eq

/-! ### Firing -/

/-- The firing of timer `i` that follows those in `log`. -/
def next (log : List Occurrence) (i : Nat) : Occurrence := ⟨i, log.countP (·.timer = i)⟩

theorem next_append_self (log : List Occurrence) (i : Nat) :
    next (log ++ [next log i]) i = ⟨i, (next log i).round + 1⟩ := by
  simp [next, List.countP_append]

theorem next_append_ne (log : List Occurrence) {i j : Nat} (h : j ≠ i) :
    next (log ++ [next log i]) j = next log j := by
  simp [next, List.countP_append, h.symm]

/-- The firings in `log` are behind, in order, and for each timer the next one is pending. -/
structure Plays (timers : List TimerSpec) (epoch : Reading) (t : Timeline Nat)
    (log : List Occurrence) : Prop where
  sound : Solo.Sound epoch t
  pending : ∀ e ∈ t.queue, ∃ i, e.id = i + 1 ∧ e.deliver = .callback i ∧ e.interval = .zero ∧
    Occurs timers (next log i) ∧
    e.target.nanos = min (epoch.instant.nanos + due timers (next log i) * 1000000) Instant.last.nanos
  exists_pending : ∀ i, Occurs timers (next log i) → ∃ e ∈ t.queue, e.id = i + 1
  mem_log : ∀ i k, ⟨i, k⟩ ∈ log ↔ k < (next log i).round
  sorted : log.Pairwise (Before timers)
  log_before : ∀ o ∈ log, ∀ i, Occurs timers (next log i) → Before timers o (next log i)
  /-- Of two pending firings due together, the one queued first comes first. -/
  tied : ∀ e ∈ t.queue, ∀ e' ∈ t.queue, ∀ i j, e.id = i + 1 → e'.id = j + 1 →
    due timers (next log i) = due timers (next log j) → e.sequence < e'.sequence →
    Before timers (next log i) (next log j)

variable {timers : List TimerSpec} {epoch : Reading} {t t' : Timeline Nat}
  {log : List Occurrence}

/-- Armed timers are at their first firings. -/
theorem Arming.plays (h : Arming timers epoch t) : Plays timers epoch t [] where
  sound := h.sound
  pending e he := by
    obtain ⟨i, spec, hspec, rfl⟩ := (h.mem_iff e).mp he
    refine ⟨i, rfl, rfl, rfl, ⟨spec, hspec, .inl rfl⟩, ?_⟩
    have hdue : due timers (next [] i) = max spec.after 0 := by
      show due timers ⟨i, 0⟩ = _
      rw [due_eq hspec]
      omega
    rw [hdue]
    refine (Instant.nanos_deadline_clamp epoch.instant ⟨spec.after * 1000000⟩).trans ?_
    show min (epoch.instant.nanos + max (spec.after * 1000000) 0) _ = _
    omega
  exists_pending i ho := by
    obtain ⟨spec, hspec, -⟩ := ho
    exact ⟨_, (h.mem_iff _).mpr ⟨i, spec, hspec, rfl⟩, rfl⟩
  mem_log i k := by simp [next]
  sorted := .nil
  log_before o ho := by cases ho
  tied e he e' he' i j hi hj hdue hseq := by
    obtain ⟨i', spec, hspec, rfl⟩ := (h.mem_iff e).mp he
    obtain ⟨j', spec', hspec', rfl⟩ := (h.mem_iff e').mp he'
    refine before_zero.mpr (.inr ⟨hdue, ?_⟩)
    simp only [firstEvent] at hi hj hseq
    omega

theorem Plays.target_eq (h : Plays timers epoch t log) {e : Event (Delivery Nat)}
    (he : e ∈ t.queue) {i : Nat} (hid : e.id = i + 1) :
    e.deliver = .callback i ∧ e.interval = .zero ∧ Occurs timers (next log i) ∧
    e.target.nanos = min (epoch.instant.nanos + due timers (next log i) * 1000000) Instant.last.nanos := by
  obtain ⟨j, hj, hrest⟩ := h.pending e he
  obtain rfl : i = j := by omega
  exact hrest

/-- The earliest event stands for the next firing of the schedule. -/
theorem Plays.before_next (h : Plays timers epoch t log) {e : Event (Delivery Nat)}
    (he : e ∈ t.queue) {i : Nat} (hid : e.id = i + 1) (hlast : e.target < Instant.last)
    (hleast : ∀ x ∈ t.queue, x ≠ e → e.key < x.key) {j : Nat} (hne : j ≠ i)
    (hj : Occurs timers (next log j)) : Before timers (next log i) (next log j) := by
  obtain ⟨x, hx, hxid⟩ := h.exists_pending j hj
  obtain ⟨-, -, -, htarget⟩ := h.target_eq he hid
  obtain ⟨-, -, -, htarget'⟩ := h.target_eq hx hxid
  have hkey := OrderKey.lt_iff_nanos.mp (hleast x hx fun hxe => hne (by subst hxe; omega))
  rw [Instant.lt_def] at hlast
  simp only [Event.key] at hkey
  obtain hlt | ⟨heq, hseq⟩ := hkey
  · exact before_of_due_lt (by omega)
  · exact h.tied e he x hx i j hid hxid (by omega) hseq

/-- A timer that is armed again comes after the firings that are pending for its due time: the
firings before them are in the log, and so before the one at which it is armed. -/
theorem Plays.before_rearmed (h : Plays timers epoch t log) {i j : Nat}
    (hi : Occurs timers (next log i))
    (hdue : due timers (next log j) = due timers ⟨i, (next log i).round + 1⟩) :
    Before timers (next log j) ⟨i, (next log i).round + 1⟩ := by
  obtain ⟨k, hk⟩ : ∃ k, next log j = ⟨j, k⟩ := ⟨_, rfl⟩
  rw [hk] at hdue ⊢
  cases k with
  | zero => exact before_zero_succ.mpr (Int.le_of_eq hdue)
  | succ k =>
    have hlogged : (⟨j, k⟩ : Occurrence) ∈ log := by
      rw [h.mem_log, hk]
      exact Nat.lt_succ_self k
    exact before_succ.mpr (.inr ⟨hdue, h.log_before _ hlogged i hi⟩)

/-- Timer `i`, with the specification `spec`, has fired, and is armed again if it has a period. -/
structure Rearmed (timers : List TimerSpec) (epoch : Reading) (log : List Occurrence) (i : Nat)
    (spec : TimerSpec) (t t' : Timeline Nat) : Prop where
  spec_eq : timers[i]? = some spec
  occurs : Occurs timers (next log i)
  sound : Solo.Sound epoch t'
  now_eq : t'.now.nanos = epoch.instant.nanos + due timers (next log i) * 1000000
  mem_iff : ∀ x, x ∈ t'.queue ↔ x ∈ t.queue ∧ x.id ≠ i + 1 ∨ ∃ p ∈ spec.period,
    x = ⟨i + 1, t'.now.deadline (Delay.clamp ⟨p * 1000000⟩), t.queue.sequence + 1, .zero,
      .callback i⟩

variable {i : Nat} {spec : TimerSpec}

/-- The event of a timer that is armed again stands for its next firing. -/
theorem Rearmed.nanos_deadline (hr : Rearmed timers epoch log i spec t t') {p : Int}
    (hpos : 1 ≤ p) (hperiod : spec.period = some p) :
    (t'.now.deadline (Delay.clamp ⟨p * 1000000⟩)).nanos =
      min (epoch.instant.nanos + due timers ⟨i, (next log i).round + 1⟩ * 1000000)
        Instant.last.nanos := by
  have hdue : due timers ⟨i, (next log i).round + 1⟩ = due timers (next log i) + p := by
    show _ = due timers ⟨i, (next log i).round⟩ + p
    rw [due_eq hr.spec_eq, due_eq hr.spec_eq, hperiod, Option.getD_some, Int.natCast_succ,
      Int.add_mul]
    omega
  refine (Instant.nanos_deadline_clamp t'.now ⟨p * 1000000⟩).trans ?_
  rw [hr.now_eq, hdue]
  show min (_ + max (p * 1000000) 0) _ = _
  omega

theorem Rearmed.pending (hr : Rearmed timers epoch log i spec t t')
    (h : Plays timers epoch t log) (hp : Periodic timers) {x : Event (Delivery Nat)}
    (hx : x ∈ t'.queue) :
    ∃ j, x.id = j + 1 ∧ x.deliver = .callback j ∧ x.interval = .zero ∧
      Occurs timers (next (log ++ [next log i]) j) ∧ x.target.nanos =
        min (epoch.instant.nanos + due timers (next (log ++ [next log i]) j) * 1000000)
          Instant.last.nanos := by
  obtain ⟨hold, hid⟩ | ⟨p, hperiod, rfl⟩ := (hr.mem_iff x).mp hx
  · obtain ⟨j, hj, hrest⟩ := h.pending x hold
    refine ⟨j, hj, ?_⟩
    rw [next_append_ne log (by omega)]
    exact hrest
  · refine ⟨i, rfl, rfl, rfl, ?_⟩
    rw [next_append_self]
    have hpos := hp spec (List.mem_of_getElem? hr.spec_eq) p hperiod
    exact ⟨⟨spec, hr.spec_eq, .inr (by rw [hperiod]; rfl)⟩, hr.nanos_deadline hpos hperiod⟩

theorem Rearmed.exists_pending (hr : Rearmed timers epoch log i spec t t')
    (h : Plays timers epoch t log) {j : Nat} (hj : Occurs timers (next (log ++ [next log i]) j)) :
    ∃ e ∈ t'.queue, e.id = j + 1 := by
  by_cases hji : j = i
  · subst hji
    rw [next_append_self] at hj
    obtain ⟨spec', hspec', hk | hperiod⟩ := hj
    · cases hk
    · obtain rfl : spec = spec' := Option.some.inj (hr.spec_eq.symm.trans hspec')
      obtain ⟨p, hperiod⟩ := Option.isSome_iff_exists.mp hperiod
      exact ⟨_, (hr.mem_iff _).mpr (.inr ⟨p, hperiod, rfl⟩), rfl⟩
  · rw [next_append_ne log hji] at hj
    obtain ⟨x, hx, hid⟩ := h.exists_pending j hj
    exact ⟨x, (hr.mem_iff x).mpr (.inl ⟨hx, by omega⟩), hid⟩

theorem Plays.mem_log_append (h : Plays timers epoch t log) (i j k : Nat) :
    ⟨j, k⟩ ∈ log ++ [next log i] ↔ k < (next (log ++ [next log i]) j).round := by
  rw [List.mem_append, List.mem_singleton, h.mem_log]
  by_cases hji : j = i
  · subst hji
    have hlast : (⟨j, k⟩ : Occurrence) = next log j ↔ k = (next log j).round :=
      ⟨congrArg Occurrence.round, fun hk => by rw [hk]; rfl⟩
    rw [next_append_self, hlast]
    exact Nat.lt_succ_iff_lt_or_eq.symm
  · have hother : (⟨j, k⟩ : Occurrence) ≠ next log i :=
      fun heq => hji (congrArg Occurrence.timer heq)
    rw [next_append_ne log hji, or_iff_left hother]

/-- What was logged is before what is to come, and so is the firing that is logged now. -/
theorem Plays.log_append_before (h : Plays timers epoch t log) (hp : Periodic timers)
    (hi : Occurs timers (next log i))
    (hbefore : ∀ j, j ≠ i → Occurs timers (next log j) → Before timers (next log i) (next log j))
    {o : Occurrence} (ho : o ∈ log ++ [next log i]) {j : Nat}
    (hj : Occurs timers (next (log ++ [next log i]) j)) :
    Before timers o (next (log ++ [next log i]) j) := by
  have hnow : Before timers (next log i) (next (log ++ [next log i]) j) := by
    by_cases hji : j = i
    · subst hji
      rw [next_append_self] at hj ⊢
      exact before_of_due_lt (due_lt_succ hp hj)
    · rw [next_append_ne log hji] at hj ⊢
      exact hbefore j hji hj
  obtain ho | ho := List.mem_append.mp ho
  · exact before_trans (h.log_before o ho i hi) hnow
  · rw [List.mem_singleton.mp ho]
    exact hnow

theorem Rearmed.tied (hr : Rearmed timers epoch log i spec t t') (h : Plays timers epoch t log)
    {e e' : Event (Delivery Nat)} (he : e ∈ t'.queue) (he' : e' ∈ t'.queue) {j k : Nat}
    (hj : e.id = j + 1) (hk : e'.id = k + 1)
    (hdue : due timers (next (log ++ [next log i]) j) = due timers (next (log ++ [next log i]) k))
    (hseq : e.sequence < e'.sequence) :
    Before timers (next (log ++ [next log i]) j) (next (log ++ [next log i]) k) := by
  obtain ⟨hold, hid⟩ | ⟨p, hperiod, rfl⟩ := (hr.mem_iff e).mp he
  · rw [next_append_ne log (by omega : j ≠ i)] at hdue ⊢
    obtain ⟨hold', hid'⟩ | ⟨p, hperiod, rfl⟩ := (hr.mem_iff e').mp he'
    · rw [next_append_ne log (by omega : k ≠ i)] at hdue ⊢
      exact h.tied e hold e' hold' j k hj hk hdue hseq
    · obtain rfl : i = k := Nat.succ.inj hk
      rw [next_append_self] at hdue ⊢
      exact h.before_rearmed hr.occurs hdue
  · -- Nothing was queued after the timer that is armed again.
    obtain ⟨hold', -⟩ | ⟨p', -, rfl⟩ := (hr.mem_iff e').mp he'
    · have hle := h.sound.valid.sequence_le hold'
      simp only at hseq
      omega
    · exact absurd hseq (Nat.lt_irrefl _)

theorem Plays.fired (h : Plays timers epoch t log) (hp : Periodic timers)
    (hbefore : ∀ j, j ≠ i → Occurs timers (next log j) → Before timers (next log i) (next log j))
    (hr : Rearmed timers epoch log i spec t t') :
    Plays timers epoch t' (log ++ [next log i]) where
  sound := hr.sound
  pending _ hx := hr.pending h hp hx
  exists_pending _ hj := hr.exists_pending h hj
  mem_log := h.mem_log_append i
  sorted := by
    rw [List.pairwise_append]
    refine ⟨h.sorted, List.pairwise_singleton _ _, fun o ho o' ho' => ?_⟩
    rw [List.mem_singleton.mp ho']
    exact h.log_before o ho i hr.occurs
  log_before _ ho _ hj := h.log_append_before hp hr.occurs hbefore ho hj
  tied _ he _ he' _ _ hj hk hdue hseq := hr.tied h he he' hj hk hdue hseq

/-- The timeline once timer `i` is armed again, if it has a period. -/
def rearm (t : Timeline Nat) (i : Nat) : Option Int → Timeline Nat
  | none => t
  | some p => (t.resetTimer (i + 1) ⟨p * 1000000⟩ (.callback i)).2

/-- What is pending after the event `e` of a one-shot was taken: all but `e`. -/
theorem mem_of_taken? {t : Timeline Nat} (h : t.queue.Valid) {limit : Instant}
    {e : Event (Delivery Nat)} (htaken : t.taken? (.popDue limit) = some e)
    (honce : e.interval = .zero) {x : Event (Delivery Nat)} :
    x ∈ (t.move (.popDue limit)).queue ↔ x ∈ t.queue ∧ x.id ≠ e.id := by
  obtain ⟨_, -, -, -, hmem, -⟩ := Timeline.taken?_eq_some h htaken
  rw [Timeline.mem_move h, Timeline.queued?_popDue htaken, Event.next?_eq_none honce,
    Timeline.Removes, htaken, Option.some.injEq]
  constructor
  · rintro (⟨hx, hne⟩ | hq)
    · exact ⟨hx, fun hid => hne (h.eq_of_id hmem hx hid.symm)⟩
    · cases hq
  · rintro ⟨hx, hid⟩
    exact .inl ⟨hx, fun hxe => hid (by rw [hxe])⟩

theorem rearmed_rearm (hspec : timers[i]? = some spec) (hi : Occurs timers (next log i))
    (hsound : Solo.Sound epoch t')
    (hnow : t'.now.nanos = epoch.instant.nanos + due timers (next log i) * 1000000)
    (hseq : t'.queue.sequence = t.queue.sequence)
    (hmem : ∀ x, x ∈ t'.queue ↔ x ∈ t.queue ∧ x.id ≠ i + 1) :
    Rearmed timers epoch log i spec t (rearm t' i spec.period) := by
  cases hperiod : spec.period with
  | none => exact ⟨hspec, hi, hsound, hnow, fun x => by simp [rearm, hmem, hperiod]⟩
  | some p =>
    have harm : Solo.Sound epoch (rearm t' i (some p)) :=
      hsound.move (m := .arm (i + 1) ⟨p * 1000000⟩ .zero (.callback i)) rfl
    refine ⟨hspec, hi, harm, hnow, fun x => ?_⟩
    refine (EventQueue.mem_insert hsound.valid).trans ?_
    rw [hmem, hseq, and_assoc, and_self, hperiod]
    simp [rearm, Timeline.resetTimer, Timeline.arm]

/-- The event that is taken off the queue is the next firing of its timer. -/
theorem Plays.popDue (h : Plays timers epoch t log) (hp : Periodic timers) {limit : Instant}
    (hlimit : limit < Instant.last) {f : Firing (Delivery Nat)}
    (hpop : t.popDue limit = some (f, t')) :
    ∃ i spec, timers[i]? = some spec ∧ f.deliver = .callback i ∧ Occurs timers (next log i) ∧
      t'.now.nanos = epoch.instant.nanos + due timers (next log i) * 1000000 ∧ t'.now ≤ limit ∧
      Plays timers epoch (rearm t' i spec.period) (log ++ [next log i]) := by
  obtain ⟨e, hmem, htaken, rfl, hnow, hsound⟩ := h.sound.popDue hpop
  obtain ⟨_, heq, -, -, -, hle, hleast⟩ := Timeline.taken?_eq_some h.sound.valid htaken
  obtain rfl := Move.popDue.inj heq
  have ht' : t.move (.popDue limit) = t' := by rw [Timeline.move, hpop]; rfl
  obtain ⟨i, hid, hdeliver, honce, hi, htarget⟩ := h.pending e hmem
  obtain ⟨spec, hspec, -⟩ := id hi
  have hlast : e.target < Instant.last := Int.lt_of_le_of_lt hle hlimit
  have hnow' : t'.now.nanos = epoch.instant.nanos + due timers (next log i) * 1000000 := by
    rw [Instant.lt_def] at hlast
    rw [hnow]
    omega
  have hseq : t'.queue.sequence = t.queue.sequence := by
    rw [← ht', Timeline.sequence_move h.sound.valid, Timeline.queued?_popDue htaken,
      Event.next?_eq_none honce]
    rfl
  have hmem' (x : Event (Delivery Nat)) : x ∈ t'.queue ↔ x ∈ t.queue ∧ x.id ≠ i + 1 := by
    rw [← ht', mem_of_taken? h.sound.valid htaken honce, hid]
  have hbefore (j : Nat) (hj : j ≠ i) (ho : Occurs timers (next log j)) :
      Before timers (next log i) (next log j) := h.before_next hmem hid hlast hleast hj ho
  refine ⟨i, spec, hspec, hdeliver, hi, hnow', by rw [hnow]; exact hle, ?_⟩
  exact h.fired hp hbefore (rearmed_rearm hspec hi hsound hnow' hseq hmem')

end VirtualClock.Replay
