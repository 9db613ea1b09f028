import VirtualClock.Proofs.Queue
import VirtualClock.Timer

/-! Moves: the steps that callers take with a timeline to themselves, in whatever order. Arming and
stopping a timer are moves, and an advance is a row of them, between which other callers and its
own callbacks make theirs. `mem_move` says for every move what is pending after it. -/

namespace VirtualClock

/-- A step of some caller on a timeline. -/
inductive Move (κ : Type) where
  | allocate
  /-- A timer or a ticker is started or reset. -/
  | arm (id : Nat) (delay interval : Delay) (deliver : Delivery κ)
  /-- A timer or a ticker is stopped. -/
  | disarm (id : Nat)
  /-- An advance to `limit` takes off the earliest due event, if there is one. -/
  | popDue (limit : Instant)
  /-- An advance to `limit` ends. -/
  | settle (limit : Instant)
  /-- The timeline is replaced in its provider. -/
  | discard
  | send (id : Nat) (value : Instant)
  | receive (id : Nat)
  | register (count : Nat)
  | cancel (waiter : Nat)

namespace Timeline

variable {κ : Type}

/-- The timeline after a move. -/
def move (t : Timeline κ) : Move κ → Timeline κ
  | .allocate => t.allocate.2
  | .arm id delay interval deliver => (t.arm id delay interval deliver).2
  | .disarm id => (t.disarm id).2
  | .popDue limit => ((t.popDue limit).map (·.2)).getD t
  | .settle limit => t.settle limit
  | .discard => t.discard.2
  | .send id value => t.send id value
  | .receive id => ((t.receive id).map (·.2)).getD t
  | .register count => ((t.register count).map (·.2)).getD t
  | .cancel waiter => t.cancel waiter

/-- The timeline after some moves. -/
def moves (t : Timeline κ) (ms : List (Move κ)) : Timeline κ := ms.foldl move t

/-- The event that a move takes off the queue to be fired. -/
def taken? (t : Timeline κ) : Move κ → Option (Event (Delivery κ))
  | .popDue limit => (t.popDue limit).bind fun _ => t.queue.first?
  | _ => none

/-- The event that a move puts into the queue: the one that is armed, or the next tick of the one
that fires. -/
def queued? (t : Timeline κ) : Move κ → Option (Event (Delivery κ))
  | .arm id delay interval deliver =>
    some ⟨id, t.now.deadline delay.clamp, t.queue.sequence + 1, interval, deliver⟩
  | .popDue limit =>
    (t.taken? (.popDue limit)).bind fun e => e.next?.map (·.withSequence (t.queue.sequence + 1))
  | _ => none

/-- Whether a move takes the pending event `x` away. -/
def Removes (t : Timeline κ) : Move κ → Event (Delivery κ) → Prop
  | .arm id .., x => x.id = id
  | .disarm id, x => x.id = id
  | .popDue limit, x => t.taken? (.popDue limit) = some x
  | .discard, _ => True
  | _, _ => False

/-- The timeline after `e` was popped. -/
def popped (t : Timeline κ) (e : Event (Delivery κ)) : Timeline κ :=
  { t with queue := (t.queue.without e).requeue e, now := t.now.later e.target }

@[simp] theorem moves_nil (t : Timeline κ) : t.moves [] = t := rfl

@[simp] theorem moves_cons (t : Timeline κ) (m : Move κ) (ms : List (Move κ)) :
    t.moves (m :: ms) = (t.move m).moves ms := rfl

theorem moves_append (t : Timeline κ) (ms ms' : List (Move κ)) :
    t.moves (ms ++ ms') = (t.moves ms).moves ms' := List.foldl_append

/-! ### Popping -/

theorem popDue_eq_none {t : Timeline κ} {limit : Instant} (h : t.queue.Valid) :
    t.popDue limit = none ↔ ∀ e ∈ t.queue, limit < e.target := by
  rw [popDue, Option.map_eq_none_iff]
  constructor
  · intro hp e he
    exact EventQueue.popDue_eq_none h hp he
  · intro hlt
    rw [Option.eq_none_iff_forall_not_mem]
    rintro ⟨f, q⟩ hp
    obtain ⟨e, he, hle, -⟩ := EventQueue.popDue_eq_some h hp
    have := hlt e (EventQueue.first?_eq_some h he).1
    rw [Instant.lt_def] at this
    rw [Instant.le_def] at hle
    omega

/-- What is popped is the earliest event, which is due. -/
theorem popDue_eq_some {t t' : Timeline κ} {limit : Instant} {f : Firing (Delivery κ)}
    (h : t.queue.Valid) (hp : t.popDue limit = some (f, t')) :
    ∃ e, t.taken? (.popDue limit) = some e ∧ e ∈ t.queue ∧ e.target ≤ limit ∧
      (∀ x ∈ t.queue, x ≠ e → e.key < x.key) ∧ f = e.firing ∧ t' = t.popped e := by
  obtain ⟨⟨g, q⟩, hq, heq⟩ := Option.map_eq_some_iff.mp hp
  obtain ⟨e, hf, hle, rfl, rfl⟩ := EventQueue.popDue_eq_some h hq
  obtain ⟨hmem, -, hleast⟩ := EventQueue.first?_eq_some h hf
  cases heq
  exact ⟨e, by rw [taken?, hp, Option.bind_some, hf], hmem, hle, hleast, rfl, rfl⟩

theorem taken?_eq_some {t : Timeline κ} {m : Move κ} {e : Event (Delivery κ)} (h : t.queue.Valid)
    (hm : t.taken? m = some e) :
    ∃ limit, m = .popDue limit ∧ t.popDue limit = some (e.firing, t.popped e) ∧
      t.move m = t.popped e ∧ e ∈ t.queue ∧ e.target ≤ limit ∧
      ∀ x ∈ t.queue, x ≠ e → e.key < x.key := by
  cases m with
  | popDue limit =>
    obtain ⟨⟨f, t'⟩, hp, -⟩ := Option.bind_eq_some_iff.mp hm
    obtain ⟨e', he', hmem, hle, hleast, rfl, rfl⟩ := popDue_eq_some h hp
    obtain rfl : e' = e := Option.some.inj (he'.symm.trans hm)
    exact ⟨limit, rfl, hp, by rw [move, hp]; rfl, hmem, hle, hleast⟩
  | _ => cases hm

/-- A move that takes no event off the queue, although it is there to do so, changes nothing. -/
theorem move_popDue_of_taken?_eq_none {t : Timeline κ} {limit : Instant} (h : t.queue.Valid)
    (hm : t.taken? (.popDue limit) = none) : t.move (.popDue limit) = t := by
  cases hp : t.popDue limit with
  | none => rw [move, hp]; rfl
  | some p =>
    obtain ⟨e, he, -⟩ := popDue_eq_some h hp
    rw [hm] at he
    cases he

/-! ### What a move does -/

/-- Arming reports whether the event was pending. -/
theorem arm_fst {t : Timeline κ} (h : t.queue.Valid) (id : Nat) (delay interval : Delay)
    (deliver : Delivery κ) : (t.arm id delay interval deliver).1 = t.queue.isPending id :=
  EventQueue.insert_fst h id (t.now.deadline delay.clamp) interval deliver

/-- Disarming reports whether the event was pending. -/
theorem disarm_fst {t : Timeline κ} (h : t.queue.Valid) (id : Nat) :
    (t.disarm id).1 = t.queue.isPending id :=
  EventQueue.remove_fst_isSome h id

theorem valid_move {t : Timeline κ} (h : t.queue.Valid) (m : Move κ) : (t.move m).queue.Valid := by
  cases m with
  | arm id delay interval deliver => exact EventQueue.valid_insert h id _ interval deliver
  | disarm id => exact EventQueue.valid_remove h id
  | popDue limit =>
    cases hm : t.taken? (.popDue limit) with
    | none => rw [move_popDue_of_taken?_eq_none h hm]; exact h
    | some e =>
      obtain ⟨_, -, -, hmove, hmem, -⟩ := taken?_eq_some h hm
      rw [hmove]
      exact EventQueue.valid_popped h hmem
  | discard => exact EventQueue.valid_clear t.queue
  | receive id => rw [move, receive]; cases t.waiting[id]? <;> exact h
  | register count =>
    rw [move, register, EventQueue.register]
    split
    · exact h
    · exact h.congr rfl rfl rfl
  | _ => exact h.congr rfl rfl rfl

/-- What is pending after a move: what was pending and the move did not take away, and what the
move put into the queue. -/
theorem mem_move {t : Timeline κ} (h : t.queue.Valid) (m : Move κ) {x : Event (Delivery κ)} :
    x ∈ (t.move m).queue ↔ x ∈ t.queue ∧ ¬t.Removes m x ∨ t.queued? m = some x := by
  have quiet : x ∈ t.queue ↔ x ∈ t.queue ∧ ¬False ∨ none = some x := by simp
  cases m with
  | arm id delay interval deliver =>
    rw [queued?, Option.some.injEq, eq_comm (b := x)]
    exact EventQueue.mem_insert h
  | disarm id => exact (EventQueue.mem_remove h).trans (by simp [Removes, queued?])
  | popDue limit =>
    cases hm : t.taken? (.popDue limit) with
    | none =>
      rw [move_popDue_of_taken?_eq_none h hm]
      simp [Removes, queued?, hm]
    | some e =>
      obtain ⟨_, -, -, hmove, hmem, -⟩ := taken?_eq_some h hm
      rw [hmove]
      have hkept : ¬t.Removes (.popDue limit) x ↔ x ≠ e := by
        rw [Removes, hm, Option.some.injEq, ne_comm]
      have hnext : t.queued? (.popDue limit) = some x ↔
          ∃ e', e.next? = some e' ∧ x = e'.withSequence (t.queue.sequence + 1) := by
        rw [queued?, hm, Option.bind_some, Option.map_eq_some_iff]
        exact exists_congr fun e' => and_congr_right fun _ => eq_comm
      rw [hkept, hnext]
      exact EventQueue.mem_popped h hmem
  | discard =>
    simp only [Removes, queued?, not_true, and_false, reduceCtorEq, or_self, iff_false]
    exact EventQueue.mem_clear
  | receive id => rw [move, receive]; cases t.waiting[id]? <;> exact quiet
  | register count =>
    rw [move, register, EventQueue.register]
    split <;> exact quiet
  | _ => exact quiet

/-- Every event that is put into the queue draws the next sequence number. -/
theorem sequence_move {t : Timeline κ} (h : t.queue.Valid) (m : Move κ) :
    (t.move m).queue.sequence = t.queue.sequence + (t.queued? m).toList.length := by
  cases m with
  | arm id delay interval deliver => exact EventQueue.sequence_insert t.queue id _ interval deliver
  | disarm id => exact EventQueue.sequence_remove t.queue id
  | popDue limit =>
    cases hm : t.taken? (.popDue limit) with
    | none =>
      rw [move_popDue_of_taken?_eq_none h hm]
      simp [queued?, hm]
    | some e =>
      obtain ⟨_, -, -, hmove, -⟩ := taken?_eq_some h hm
      rw [hmove, queued?, hm, Option.bind_some]
      refine (EventQueue.sequence_requeue (t.queue.without e) e).trans ?_
      cases e.next? <;> rfl
  | receive id => rw [move, receive]; cases t.waiting[id]? <;> rfl
  | register count =>
    rw [move, register, EventQueue.register]
    split <;> rfl
  | _ => rfl

theorem sequence_of_queued? {t : Timeline κ} {m : Move κ} {e : Event (Delivery κ)}
    (hm : t.queued? m = some e) : e.sequence = t.queue.sequence + 1 := by
  cases m with
  | arm id delay interval deliver => cases hm; rfl
  | popDue limit =>
    obtain ⟨x, -, hx⟩ := Option.bind_eq_some_iff.mp hm
    obtain ⟨x', -, rfl⟩ := Option.map_eq_some_iff.mp hx
    rfl
  | _ => cases hm

/-- What is armed is not armed for the past. -/
theorem now_le_of_queued? {t : Timeline κ} {m : Move κ} {e : Event (Delivery κ)}
    (hm : t.queued? m = some e) (hquiet : t.taken? m = none) : t.now ≤ e.target := by
  cases m with
  | arm id delay interval deliver =>
    cases hm
    exact Instant.le_deadline t.now delay
  | popDue limit =>
    rw [queued?, hquiet] at hm
    cases hm
  | _ => cases hm

/-- The next tick of an event that is taken is queued. -/
theorem queued?_popDue {t : Timeline κ} {limit : Instant} {e : Event (Delivery κ)}
    (hm : t.taken? (.popDue limit) = some e) :
    t.queued? (.popDue limit) = e.next?.map (·.withSequence (t.queue.sequence + 1)) := by
  rw [queued?, hm, Option.bind_some]

/-- What is pending after an event was taken comes after it. -/
theorem key_lt_of_taken? {t : Timeline κ} (h : t.queue.Valid) {m : Move κ}
    {e x : Event (Delivery κ)} (hm : t.taken? m = some e) (hx : x ∈ (t.move m).queue) :
    e.key < x.key := by
  obtain ⟨limit, rfl, -, -, -, -, hleast⟩ := taken?_eq_some h hm
  obtain ⟨hold, hkept⟩ | hnew := (mem_move h _).mp hx
  · exact hleast x hold fun hxe => hkept (by rw [Removes, hm, hxe])
  · -- The next tick is later by a positive interval.
    rw [queued?_popDue hm, Option.map_eq_some_iff] at hnew
    obtain ⟨x', hx', rfl⟩ := hnew
    obtain ⟨-, -, -, htick, hpos⟩ := Event.next?_eq_some hx'
    refine .inl ?_
    show e.target.nanos < x'.target.nanos
    omega

/-- Time never goes back. -/
theorem now_le_now_move {t : Timeline κ} (h : t.queue.Valid) (m : Move κ) :
    t.now ≤ (t.move m).now := by
  have quiet : t.now ≤ t.now := Int.le_refl _
  cases m with
  | popDue limit =>
    cases hm : t.taken? (.popDue limit) with
    | none => rw [move_popDue_of_taken?_eq_none h hm]; exact quiet
    | some e =>
      obtain ⟨_, -, -, hmove, -⟩ := taken?_eq_some h hm
      rw [hmove]
      exact Instant.le_later_left t.now e.target
  | settle limit => exact Instant.le_later_left t.now limit
  | receive id => rw [move, receive]; cases t.waiting[id]? <;> exact quiet
  | register count =>
    rw [move, register, EventQueue.register]
    split <;> exact quiet
  | _ => exact quiet

theorem valid_start (at_ : Reading) : (start at_ : Timeline κ).queue.Valid :=
  EventQueue.valid_empty

theorem not_mem_start (at_ : Reading) (e : Event (Delivery κ)) : e ∉ (start at_).queue := by
  simp [start, EventQueue.mem_iff]

theorem valid_moves {t : Timeline κ} (h : t.queue.Valid) (ms : List (Move κ)) :
    (t.moves ms).queue.Valid := by
  induction ms generalizing t with
  | nil => exact h
  | cons m ms ih => exact ih (valid_move h m)

theorem now_le_now_moves {t : Timeline κ} (h : t.queue.Valid) (ms : List (Move κ)) :
    t.now ≤ (t.moves ms).now := by
  induction ms generalizing t with
  | nil => exact Int.le_refl _
  | cons m ms ih => exact Int.le_trans (now_le_now_move h m) (ih (valid_move h m))

/-! ### Timers and tickers -/

/-- A new timer gets the next id and is armed with it. -/
theorem startTimer_eq (t : Timeline κ) (d : Delay) (deliver : Delivery κ) :
    t.startTimer d deliver =
      (t.allocate.1, (t.move .allocate).move (.arm t.allocate.1 d .zero deliver)) := rfl

theorem startTicker_eq_ok {t t' : Timeline κ} {d : Delay} {id : Nat} :
    t.startTicker d = .ok (id, t') ↔
      0 < d.nanos ∧ id = t.allocate.1 ∧ t' = (t.move .allocate).move (.arm id d d .channel) := by
  unfold startTicker
  split
  · simp only [reduceCtorEq, false_iff]
    omega
  · rw [Except.ok.injEq, Prod.mk.injEq]
    constructor
    · rintro ⟨rfl, rfl⟩
      exact ⟨by omega, rfl, rfl⟩
    · rintro ⟨-, rfl, rfl⟩
      exact ⟨rfl, rfl⟩

/-- A ticker that is reset is armed again, and it is said whether it was running. -/
theorem resetTicker_eq_ok {t t' : Timeline κ} (h : t.queue.Valid) {d : Delay} {id : Nat}
    {was : Bool} :
    t.resetTicker id d = .ok (was, t') ↔
      0 < d.nanos ∧ was = t.queue.isPending id ∧ t' = t.move (.arm id d d .channel) := by
  unfold resetTicker
  split
  · simp only [reduceCtorEq, false_iff]
    omega
  · rw [Except.ok.injEq, ← arm_fst h id d d .channel]
    constructor
    · intro harm
      rw [move, harm]
      exact ⟨by omega, rfl, rfl⟩
    · rintro ⟨-, rfl, rfl⟩
      rfl

end Timeline

end VirtualClock
