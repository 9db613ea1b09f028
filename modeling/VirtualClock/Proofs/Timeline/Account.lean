import VirtualClock.Proofs.Timeline.Moves

/-! The account of one handle: whoever moves its timeline, every arming of it has one end or is
still pending, and what stopping and arming report tells which. -/

namespace VirtualClock

/-- How an arming ends. -/
inductive Fate where
  | fired
  | stopped
  | superseded
  | dropped
deriving DecidableEq

/-- What a move means to one handle. -/
inductive Sight where
  /-- It is armed, and the result says whether it was pending before. -/
  | armed (interval : Delay) (was : Bool)
  /-- It is stopped, and the result says whether it was pending. -/
  | stopped (was : Bool)
  /-- It fires for `at_`, and is pending no longer after its last firing. -/
  | fired (at_ : Instant) (last : Bool)
  /-- A discard takes its event away. -/
  | dropped
deriving DecidableEq

namespace Sight

/-- Whether the handle is armed. -/
def isArming : Sight → Bool
  | armed .. => true
  | _ => false

/-- Whether the handle fires. -/
def isFiring : Sight → Bool
  | fired .. => true
  | _ => false

/-- How the arming that was open before ends here, if it does. -/
def fate? : Sight → Option Fate
  | armed _ was => if was then some .superseded else none
  | stopped was => if was then some .stopped else none
  | fired _ last => if last then some .fired else none
  | dropped => some .dropped

@[simp] theorem isArming_armed (interval : Delay) (was : Bool) :
    (armed interval was).isArming = true := rfl

@[simp] theorem isArming_stopped (was : Bool) : (stopped was).isArming = false := rfl

@[simp] theorem isArming_fired (at_ : Instant) (last : Bool) :
    (fired at_ last).isArming = false := rfl

@[simp] theorem isArming_dropped : dropped.isArming = false := rfl

@[simp] theorem fate?_armed (interval : Delay) (was : Bool) :
    (armed interval was).fate? = if was then some .superseded else none := rfl

@[simp] theorem fate?_stopped (was : Bool) :
    (stopped was).fate? = if was then some .stopped else none := rfl

@[simp] theorem fate?_fired (at_ : Instant) (last : Bool) :
    (fired at_ last).fate? = if last then some .fired else none := rfl

@[simp] theorem fate?_dropped : dropped.fate? = some .dropped := rfl

/-- A sight that begins no arming and ends none. -/
def IsQuiet (s : Sight) : Prop := s.isArming = false ∧ s.fate? = none

/-- Whether an arming with `interval` goes on after a firing for `at_`: a one-shot never does, and
a ticker does unless its next tick is past the last instant. -/
def recurs (interval : Delay) (at_ : Instant) : Bool :=
  0 < interval.nanos && (at_.add? interval).isSome

/-- The arming whose end is looked for in `h`, with `interval`, is the latest one and open. -/
def Running (h : List Sight) (interval : Delay) : Prop :=
  ∃ l was r, h = l ++ armed interval was :: r ∧ ∀ s ∈ r, s.IsQuiet

/-- The part of a history that concerns the arming before it: up to the next arming, which is
included. -/
def reach : List Sight → List Sight
  | [] => []
  | s :: h => s :: (if s.isArming then [] else reach h)

/-- How often armings ended with `fate`. -/
def ends (h : List Sight) (fate : Fate) : Nat := h.countP (·.fate? = some fate)

/-- The books of a handle that saw `h` and is `pending` after it. -/
structure Accounted (h : List Sight) (pending : Bool) : Prop where
  /-- Each arming has exactly one end, or it is the latest one, has none, and is pending. -/
  one_end : ∀ l interval was r, h = l ++ armed interval was :: r →
    (∃ fate, (reach r).filterMap fate? = [fate]) ∧ (pending = false ∨ r.any isArming) ∨
      (reach r).filterMap fate? = [] ∧ r.any isArming = false ∧ pending
  balance : h.countP isArming = ends h .fired + ends h .stopped + ends h .superseded +
    ends h .dropped + pending.toNat
  /-- Every firing of a one-shot is an end. -/
  fired_oneShot : (∀ interval was, armed interval was ∈ h → interval.nanos ≤ 0) →
    ends h .fired = h.countP isFiring
  armed_result : ∀ l interval was r, h = l ++ armed interval was :: r →
    (was ↔ ∃ interval', Running l interval')
  stopped_result : ∀ l was r, h = l ++ stopped was :: r → (was ↔ ∃ interval, Running l interval)
  fired_open : ∀ l at_ last r, h = l ++ fired at_ last :: r →
    ∃ interval, Running l interval ∧ last = !recurs interval at_
  dropped_open : ∀ l r, h = l ++ dropped :: r → ∃ interval, Running l interval
  pending_iff : pending ↔ ∃ interval, Running h interval

/-! ### Histories that keep the books -/

/-- A sight at a handle whose open arming has the interval `o`, and the open arming after it. -/
inductive Step : Option Delay → Sight → Option Delay → Prop where
  | arm (o : Option Delay) (interval : Delay) : Step o (armed interval o.isSome) (some interval)
  | stop (o : Option Delay) : Step o (stopped o.isSome) none
  | tick {interval : Delay} {at_ : Instant} (h : recurs interval at_) :
      Step (some interval) (fired at_ false) (some interval)
  | fire {interval : Delay} {at_ : Instant} (h : recurs interval at_ = false) :
      Step (some interval) (fired at_ true) none
  | drop (interval : Delay) : Step (some interval) dropped none

/-- A history between two states of a handle. -/
inductive History : Option Delay → List Sight → Option Delay → Prop where
  | nil (o : Option Delay) : History o [] o
  | cons {o o' o'' : Option Delay} {s : Sight} {h : List Sight} :
      Step o s o' → History o' h o'' → History o (s :: h) o''

theorem History.append {o o' o'' : Option Delay} {l r : List Sight} (hl : History o l o')
    (hr : History o' r o'') : History o (l ++ r) o'' := by
  induction hl with
  | nil _ => exact hr
  | cons hstep _ ih => exact .cons hstep (ih hr)

theorem History.split {o o'' : Option Delay} {l r : List Sight} (h : History o (l ++ r) o'') :
    ∃ o', History o l o' ∧ History o' r o'' := by
  induction l generalizing o with
  | nil => exact ⟨o, .nil o, h⟩
  | cons s l ih =>
    obtain _ | ⟨hstep, hrest⟩ := h
    obtain ⟨o', hl, hr⟩ := ih hrest
    exact ⟨o', .cons hstep hl, hr⟩

theorem History.split_at {o o' : Option Delay} {s : Sight} {l r : List Sight}
    (h : History o (l ++ s :: r) o') :
    ∃ before after, History o l before ∧ Step before s after ∧ History after r o' := by
  obtain ⟨before, hl, hr⟩ := h.split
  obtain _ | ⟨hstep, hrest⟩ := hr
  exact ⟨before, _, hl, hstep, hrest⟩

theorem running_cons {s : Sight} {h : List Sight} {interval : Delay} :
    Running (s :: h) interval ↔
      Running h interval ∨ (∃ was, s = armed interval was) ∧ ∀ x ∈ h, x.IsQuiet := by
  constructor
  · rintro ⟨l, was, r, heq, hquiet⟩
    obtain _ | ⟨s', l⟩ := l
    · obtain ⟨rfl, rfl⟩ := List.cons.inj heq
      exact .inr ⟨⟨was, rfl⟩, hquiet⟩
    · obtain ⟨rfl, rfl⟩ := List.cons.inj heq
      exact .inl ⟨l, was, r, rfl, hquiet⟩
  · rintro (⟨l, was, r, rfl, hquiet⟩ | ⟨⟨was, rfl⟩, hquiet⟩)
    · exact ⟨s :: l, was, r, rfl, hquiet⟩
    · exact ⟨[], was, h, rfl, hquiet⟩

/-- The open arming is the latest one, unless it has an end. -/
theorem History.eq_some_iff {o o' : Option Delay} {h : List Sight} (hh : History o h o')
    {interval : Delay} :
    o' = some interval ↔ Running h interval ∨ o = some interval ∧ ∀ s ∈ h, s.IsQuiet := by
  induction hh with
  | nil o => simp [Running]
  | @cons o _ _ s h hstep _ ih =>
    rw [ih, running_cons, or_assoc, List.forall_mem_cons]
    refine or_congr_right ?_
    cases hstep with
    | arm _ next => simp [IsQuiet]
    | stop _ => cases o <;> simp [IsQuiet]
    | tick hr => simp [IsQuiet]
    | fire hr => simp [IsQuiet]
    | drop interval => simp [IsQuiet]

theorem History.isSome_iff {o : Option Delay} {h : List Sight} (hh : History none h o) :
    o.isSome ↔ ∃ interval, Running h interval := by
  rw [Option.isSome_iff_exists]
  refine exists_congr fun interval => ?_
  rw [hh.eq_some_iff]
  simp

theorem History.balance {o o' : Option Delay} {h : List Sight} (hh : History o h o') :
    h.countP isArming + o.isSome.toNat = ends h .fired + ends h .stopped + ends h .superseded +
      ends h .dropped + o'.isSome.toNat := by
  induction hh with
  | nil o => simp [ends]
  | @cons o _ _ s h hstep _ ih =>
    simp only [ends, List.countP_cons] at ih ⊢
    cases hstep with
    | arm _ next => cases o <;> simp at ih ⊢ <;> omega
    | stop _ => cases o <;> simp at ih ⊢ <;> omega
    | tick hr => simp at ih ⊢; omega
    | fire hr => simp at ih ⊢; omega
    | drop interval => simp at ih ⊢; omega

/-- While no arming is open none ends, up to the next arming. -/
theorem History.reach_none {o : Option Delay} {h : List Sight} (hh : History none h o) :
    (reach h).filterMap fate? = [] := by
  induction h with
  | nil => rfl
  | cons s h ih =>
    obtain _ | ⟨hstep, hrest⟩ := hh
    cases hstep with
    | arm _ next => simp [reach]
    | stop _ => simpa [reach] using ih hrest

/-- Nothing is open until the next arming. -/
theorem History.closed {o : Option Delay} {h : List Sight} (hh : History none h o) :
    o.isSome = false ∨ h.any isArming := by
  induction h with
  | nil =>
    obtain _ | _ := hh
    exact .inl rfl
  | cons s h ih =>
    obtain _ | ⟨hstep, hrest⟩ := hh
    cases hstep with
    | arm _ next => exact .inr (by simp)
    | stop _ => simpa using ih hrest

/-- An open arming ends once, or it stays open. -/
theorem History.reach_some {interval : Delay} {o : Option Delay} {h : List Sight}
    (hh : History (some interval) h o) :
    (∃ fate, (reach h).filterMap fate? = [fate]) ∧ (o.isSome = false ∨ h.any isArming) ∨
      (reach h).filterMap fate? = [] ∧ h.any isArming = false ∧ o.isSome := by
  induction h with
  | nil =>
    obtain _ | _ := hh
    exact .inr ⟨rfl, rfl, rfl⟩
  | cons s h ih =>
    obtain _ | ⟨hstep, hrest⟩ := hh
    cases hstep with
    | arm _ next => exact .inl ⟨⟨.superseded, by simp [reach]⟩, .inr (by simp)⟩
    | stop _ =>
      refine .inl ⟨⟨.stopped, by simpa [reach] using hrest.reach_none⟩, ?_⟩
      simpa using hrest.closed
    | tick hr => simpa [reach] using ih hrest
    | fire hr =>
      refine .inl ⟨⟨.fired, by simpa [reach] using hrest.reach_none⟩, ?_⟩
      simpa using hrest.closed
    | drop interval =>
      refine .inl ⟨⟨.dropped, by simpa [reach] using hrest.reach_none⟩, ?_⟩
      simpa using hrest.closed

theorem Running.armed_mem {h : List Sight} {interval : Delay} (hr : Running h interval) :
    ∃ was, armed interval was ∈ h := by
  obtain ⟨l, was, r, rfl, -⟩ := hr
  exact ⟨was, by simp⟩

theorem recurs_of_nonpos {interval : Delay} (h : interval.nanos ≤ 0) (at_ : Instant) :
    recurs interval at_ = false := by
  simp [recurs, Int.not_lt.mpr h]

/-- A history from the beginning keeps the books. -/
theorem History.accounted {h : List Sight} {o : Option Delay} (hh : History none h o) :
    Accounted h o.isSome := by
  have hfired : ∀ l at_ last r, h = l ++ fired at_ last :: r →
      ∃ interval, Running l interval ∧ last = !recurs interval at_ := by
    rintro l at_ last r rfl
    obtain ⟨before, after, hl, hstep, -⟩ := hh.split_at
    cases hstep with
    | @tick interval _ hr =>
      exact ⟨interval, by simpa using hl.eq_some_iff.mp rfl, by rw [hr]; rfl⟩
    | @fire interval _ hr =>
      exact ⟨interval, by simpa using hl.eq_some_iff.mp rfl, by rw [hr]; rfl⟩
  refine ⟨?_, ?_, ?_, ?_, ?_, hfired, ?_, hh.isSome_iff⟩
  · rintro l interval was r rfl
    obtain ⟨before, after, hl, hstep, hr⟩ := hh.split_at
    cases hstep with
    | arm _ _ => exact hr.reach_some
  · simpa using hh.balance
  · intro honce
    refine List.countP_congr fun s hs => ?_
    cases s with
    | fired at_ last =>
      obtain ⟨l, r, heq⟩ := List.append_of_mem hs
      obtain ⟨interval, hrun, hlast⟩ := hfired l at_ last r heq
      obtain ⟨was, hmem⟩ := hrun.armed_mem
      have hnonpos := honce interval was (by rw [heq]; simp [hmem])
      simp [isFiring, hlast, recurs_of_nonpos hnonpos]
    | armed _ was => cases was <;> simp [isFiring]
    | stopped was => cases was <;> simp [isFiring]
    | dropped => simp [isFiring]
  · rintro l interval was r rfl
    obtain ⟨before, after, hl, hstep, -⟩ := hh.split_at
    cases hstep with
    | arm _ _ => exact hl.isSome_iff
  · rintro l was r rfl
    obtain ⟨before, after, hl, hstep, -⟩ := hh.split_at
    cases hstep with
    | stop _ => exact hl.isSome_iff
  · rintro l r rfl
    obtain ⟨before, after, hl, hstep, -⟩ := hh.split_at
    cases hstep with
    | drop interval => exact ⟨interval, by simpa using hl.eq_some_iff.mp rfl⟩

end Sight

namespace Timeline

variable {κ : Type}

/-- What a move means to the handle `id`, if anything. -/
def sight? (t : Timeline κ) (id : Nat) : Move κ → Option Sight
  | .arm i delay interval deliver =>
    if i = id then some (.armed interval (t.arm i delay interval deliver).1) else none
  | .disarm i => if i = id then some (.stopped (t.disarm i).1) else none
  | .popDue limit =>
    (t.popDue limit).bind fun (f, t') =>
      if f.id = id then some (.fired f.at_ !t'.queue.isPending id) else none
  | .discard => if t.queue.isPending id then some .dropped else none
  | _ => none

/-- What some moves mean to the handle `id`, in order. -/
def sights (t : Timeline κ) (id : Nat) : List (Move κ) → List Sight
  | [] => []
  | m :: ms => (t.sight? id m).toList ++ (t.move m).sights id ms

/-- The interval of the open arming of `id`. -/
def open? (t : Timeline κ) (id : Nat) : Option Delay := (t.queue.remove id).1.map (·.interval)

theorem isSome_open? {t : Timeline κ} (h : t.queue.Valid) (id : Nat) :
    (t.open? id).isSome = t.queue.isPending id := by
  rw [open?, Option.isSome_map, EventQueue.remove_fst_isSome h]

theorem open?_of_mem {t : Timeline κ} (h : t.queue.Valid) {e : Event (Delivery κ)}
    (he : e ∈ t.queue) : t.open? e.id = some e.interval := by
  obtain ⟨x, hx, hid, hr⟩ | ⟨hne, -⟩ := EventQueue.remove_eq h e.id
  · rw [open?, hr, h.eq_of_id hx he hid]
    rfl
  · exact absurd rfl (hne e he)

theorem open?_eq_none {t : Timeline κ} (h : t.queue.Valid) {id : Nat}
    (hne : ∀ e ∈ t.queue, e.id ≠ id) : t.open? id = none := by
  obtain ⟨x, hx, hid, -⟩ | ⟨-, hr⟩ := EventQueue.remove_eq h id
  · exact absurd hid (hne x hx)
  · rw [open?, hr]
    rfl

/-- A move that leaves the event of `id` alone leaves its arming open or closed. -/
theorem open?_congr {t t' : Timeline κ} (h : t.queue.Valid) (h' : t'.queue.Valid) {id : Nat}
    (hsame : ∀ e, e.id = id → (e ∈ t'.queue ↔ e ∈ t.queue)) : t'.open? id = t.open? id := by
  obtain ⟨x, hx, rfl, -⟩ | ⟨hne, -⟩ := EventQueue.remove_eq h id
  · rw [open?_of_mem h hx, open?_of_mem h' ((hsame x rfl).mpr hx)]
  · rw [open?_eq_none h hne, open?_eq_none h' fun e he hid => hne e ((hsame e hid).mp he) hid]

/-- A move that means nothing to a handle leaves it as it is. -/
theorem history_quiet {t : Timeline κ} (h : t.queue.Valid) {id : Nat} {m : Move κ}
    (hsight : t.sight? id m = none) (hkept : ∀ e ∈ t.queue, e.id = id → ¬t.Removes m e)
    (hqueued : ∀ e, t.queued? m = some e → e.id ≠ id) :
    Sight.History (t.open? id) (t.sight? id m).toList ((t.move m).open? id) := by
  have hopen : (t.move m).open? id = t.open? id := by
    refine open?_congr h (valid_move h m) fun e hid => ?_
    rw [mem_move h]
    constructor
    · rintro (⟨he, -⟩ | hq)
      · exact he
      · exact absurd hid (hqueued e hq)
    · exact fun he => .inl ⟨he, hkept e he hid⟩
  rw [hsight, hopen]
  exact .nil _

theorem history_of_step {t : Timeline κ} {id : Nat} {m : Move κ} {s : Sight}
    (hsight : t.sight? id m = some s)
    (hstep : Sight.Step (t.open? id) s ((t.move m).open? id)) :
    Sight.History (t.open? id) (t.sight? id m).toList ((t.move m).open? id) := by
  rw [hsight]
  exact .cons hstep (.nil _)

theorem isSome_next? (e : Event (Delivery κ)) :
    e.next?.isSome = Sight.recurs e.interval e.target := by
  unfold Event.next? Event.isTicker Sight.recurs
  by_cases hpos : 0 < e.interval.nanos <;> simp [hpos]

/-- A firing ends the arming of its handle unless there is a next tick. -/
theorem history_fired {t : Timeline κ} (h : t.queue.Valid) {limit : Instant}
    {e : Event (Delivery κ)} (hm : t.taken? (.popDue limit) = some e) :
    Sight.Step (t.open? e.id)
      (.fired e.target !(t.move (.popDue limit)).queue.isPending e.id)
      ((t.move (.popDue limit)).open? e.id) := by
  obtain ⟨_, -, -, -, hmem, -⟩ := taken?_eq_some h hm
  have hvalid := valid_move h (.popDue limit)
  have hmove := fun x => mem_move h (.popDue limit) (x := x)
  rw [queued?_popDue hm] at hmove
  rw [open?_of_mem h hmem, ← isSome_open? hvalid]
  cases hnext : e.next? with
  | some e' =>
    obtain ⟨hid, hinterval, -⟩ := Event.next?_eq_some hnext
    have htick : e'.withSequence (t.queue.sequence + 1) ∈ (t.move (.popDue limit)).queue :=
      (hmove _).mpr (.inr (by rw [hnext]; rfl))
    have hopen : (t.move (.popDue limit)).open? e.id = some e.interval := by
      rw [← hid, ← hinterval]
      exact open?_of_mem (e := e'.withSequence (t.queue.sequence + 1)) hvalid htick
    rw [hopen]
    exact .tick (by rw [← isSome_next?, hnext]; rfl)
  | none =>
    have hopen : (t.move (.popDue limit)).open? e.id = none := by
      refine open?_eq_none hvalid fun x hx hid => ?_
      obtain ⟨hold, hkept⟩ | hq := (hmove x).mp hx
      · rw [Removes, hm, h.eq_of_id hold hmem hid] at hkept
        exact hkept rfl
      · rw [hnext] at hq
        cases hq
    rw [hopen]
    exact .fire (by rw [← isSome_next?, hnext]; rfl)

theorem history_arm {t : Timeline κ} (h : t.queue.Valid) (id i : Nat) (delay interval : Delay)
    (deliver : Delivery κ) :
    Sight.History (t.open? id) (t.sight? id (.arm i delay interval deliver)).toList
      ((t.move (.arm i delay interval deliver)).open? id) := by
  by_cases hid : i = id
  · subst hid
    refine history_of_step (if_pos rfl) ?_
    have hnew : ⟨i, t.now.deadline delay.clamp, t.queue.sequence + 1, interval, deliver⟩ ∈
        (t.move (.arm i delay interval deliver)).queue := (mem_move h _).mpr (.inr rfl)
    have hopen := open?_of_mem (valid_move h (.arm i delay interval deliver)) hnew
    rw [arm_fst h, ← isSome_open? h, hopen]
    exact .arm _ _
  · refine history_quiet h (if_neg hid) (fun e _ he hr => hid (hr.symm.trans he)) fun e he => ?_
    cases he
    exact hid

theorem history_disarm {t : Timeline κ} (h : t.queue.Valid) (id i : Nat) :
    Sight.History (t.open? id) (t.sight? id (.disarm i)).toList
      ((t.move (.disarm i)).open? id) := by
  by_cases hid : i = id
  · subst hid
    refine history_of_step (if_pos rfl) ?_
    have hopen : (t.move (.disarm i)).open? i = none :=
      open?_eq_none (valid_move h _) fun e he => ((EventQueue.mem_remove h).mp he).2
    rw [disarm_fst h, ← isSome_open? h, hopen]
    exact .stop _
  · refine history_quiet h (if_neg hid) (fun e _ he hr => hid (hr.symm.trans he)) fun e he => ?_
    cases he

theorem history_popDue {t : Timeline κ} (h : t.queue.Valid) (id : Nat) (limit : Instant) :
    Sight.History (t.open? id) (t.sight? id (.popDue limit)).toList
      ((t.move (.popDue limit)).open? id) := by
  cases hp : t.popDue limit with
  | none =>
    have htaken : t.taken? (.popDue limit) = none := by rw [taken?, hp]; rfl
    refine history_quiet h (by rw [sight?, hp]; rfl) (fun e _ _ hr => ?_) fun e he => ?_
    · rw [Removes, htaken] at hr
      cases hr
    · rw [queued?, htaken] at he
      cases he
  | some p =>
    obtain ⟨f, t'⟩ := p
    obtain ⟨e, htaken, -, -, -, rfl, -⟩ := popDue_eq_some h hp
    have hmove : t.move (.popDue limit) = t' := by rw [move, hp]; rfl
    have hsight : t.sight? id (.popDue limit) =
        if e.id = id then some (.fired e.target !t'.queue.isPending id) else none := by
      rw [sight?, hp]
      rfl
    by_cases hid : e.id = id
    · subst hid
      refine history_of_step (hsight.trans (if_pos rfl)) ?_
      rw [← hmove]
      exact history_fired h htaken
    · refine history_quiet h (hsight.trans (if_neg hid)) (fun x _ hx hr => ?_) fun x hx => ?_
      · rw [Removes, htaken, Option.some.injEq] at hr
        exact hid (by rw [hr, hx])
      · rw [queued?_popDue htaken] at hx
        obtain ⟨x', hx', rfl⟩ := Option.map_eq_some_iff.mp hx
        exact fun hxid => hid ((Event.next?_eq_some hx').1.symm.trans hxid)

theorem history_discard {t : Timeline κ} (h : t.queue.Valid) (id : Nat) :
    Sight.History (t.open? id) (t.sight? id .discard).toList ((t.move .discard).open? id) := by
  by_cases hpending : t.queue.isPending id
  · refine history_of_step (if_pos hpending) ?_
    have hopen : (t.move .discard).open? id = none :=
      open?_eq_none (valid_move h _) fun e he => absurd he EventQueue.mem_clear
    rw [← isSome_open? h] at hpending
    obtain ⟨interval, hwas⟩ := Option.isSome_iff_exists.mp hpending
    rw [hopen, hwas]
    exact .drop interval
  · refine history_quiet h (if_neg hpending) (fun e he hid => ?_) fun e he => by cases he
    exact absurd ((EventQueue.isPending_iff h).mpr ⟨e, he, hid⟩) hpending

/-- What one move means to a handle is a step of its history, or nothing. -/
theorem history_move {t : Timeline κ} (h : t.queue.Valid) (id : Nat) (m : Move κ) :
    Sight.History (t.open? id) (t.sight? id m).toList ((t.move m).open? id) := by
  cases m with
  | arm i delay interval deliver => exact history_arm h id i delay interval deliver
  | disarm i => exact history_disarm h id i
  | popDue limit => exact history_popDue h id limit
  | discard => exact history_discard h id
  | _ => exact history_quiet h rfl (fun _ _ _ hr => hr) fun e he => by cases he

/-- What some moves mean to a handle is its history. -/
theorem history_moves {t : Timeline κ} (h : t.queue.Valid) (id : Nat) (ms : List (Move κ)) :
    Sight.History (t.open? id) (t.sights id ms) ((t.moves ms).open? id) := by
  induction ms generalizing t with
  | nil => exact .nil _
  | cons m ms ih => exact (history_move h id m).append (ih (valid_move h m))

/-- The books of every handle balance after any moves in any order: each arming has exactly one
end or is still pending, and stopping or arming reports whether the latest arming is open. -/
theorem every_arming_accounted (at_ : Reading) (id : Nat) (ms : List (Move κ)) :
    Sight.Accounted ((start at_).sights id ms) (((start at_).moves ms).queue.isPending id) := by
  have hh := history_moves (valid_start at_) id ms
  rw [← isSome_open? (valid_moves (valid_start at_) ms)]
  exact hh.accounted

end Timeline

end VirtualClock
