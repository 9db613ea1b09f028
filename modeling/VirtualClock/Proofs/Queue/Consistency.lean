import Mathlib.Data.List.Permutation
import VirtualClock.Proofs.Queue.Agenda

/-! What holds of the map, the index and the counters of a queue after every sequence of its
operations: `Consistent`, and as consequences that no insertion overwrites another event and that
every id found in the index belongs to an event that can be taken off (`Lossless`). -/

namespace VirtualClock

variable {δ : Type}

/-- An operation on a queue: a call, or a step of a caller that waits for pending events. -/
inductive QueueOperation (δ : Type) where
  | call (c : QueueCall δ)
  | register (count : Nat)
  | cancel (waiter : Nat)

namespace EventQueue

variable {q : EventQueue δ}

/-- The queue after an operation. -/
def operate (q : EventQueue δ) : QueueOperation δ → EventQueue δ
  | .call c => (q.perform c).2
  | .register count => ((q.register count).map (·.2)).getD q
  | .cancel waiter => q.cancel waiter

/-- Only an id that was handed out can be queued. -/
def Allows (q : EventQueue δ) : QueueOperation δ → Prop
  | .call (.insert id ..) => id ≤ q.lastId
  | _ => True

/-- The queues that sequences of operations lead to from a new one. -/
inductive Reached : EventQueue δ → Prop where
  | new : Reached {}
  | operate {q : EventQueue δ} {o : QueueOperation δ} :
      Reached q → q.Allows o → Reached (q.operate o)

/-- The map, the index and the counters agree. -/
structure Consistent (q : EventQueue δ) : Prop where
  /-- Every event is stored under its own target and sequence number. -/
  stored : ∀ (k : OrderKey) (e : Event δ), q.pending[k]? = some e → k = ⟨e.target, e.sequence⟩
  one_each : ∀ (k k' : OrderKey) (e e' : Event δ), q.pending[k]? = some e →
    q.pending[k']? = some e' → e.id = e'.id → k = k'
  found : ∀ (id : Nat) (k : OrderKey),
    q.index[id]? = some k ↔ ∃ e, q.pending[k]? = some e ∧ e.id = id
  absent : ∀ id : Nat, q.index[id]? = none ↔
    ∀ (k : OrderKey) (e : Event δ), q.pending[k]? = some e → e.id ≠ id
  distinct : ∀ (k k' : OrderKey) (e e' : Event δ), q.pending[k]? = some e →
    q.pending[k']? = some e' → e.sequence = e'.sequence → k = k'
  sequence_le : ∀ (k : OrderKey) (e : Event δ), q.pending[k]? = some e → e.sequence ≤ q.sequence
  id_le : ∀ (k : OrderKey) (e : Event δ), q.pending[k]? = some e → e.id ≤ q.lastId

/-- No operation on the queue costs an event that it is not about. -/
structure Lossless (q : EventQueue δ) : Prop where
  insert_keeps : ∀ id target interval deliver (k : OrderKey) (e : Event δ),
    q.pending[k]? = some e → e.id ≠ id →
      (q.insert id target interval deliver).2.pending[k]? = some e
  /-- An insertion adds an event, or replaces the one of its own id. -/
  insert_size : ∀ id target interval deliver, (q.insert id target interval deliver).2.size =
    q.size + (if q.isPending id then 0 else 1)
  /-- The next tick of the ticker that fires overwrites nothing either. -/
  pop_keeps : ∀ limit f q', q.popDue limit = some (f, q') →
    ∀ (k : OrderKey) (e : Event δ), q.pending[k]? = some e → e.id ≠ f.id →
      q'.pending[k]? = some e
  /-- An id that the index knows is that of an event, which is taken off. -/
  remove_found : ∀ (id : Nat) (k : OrderKey), q.index[id]? = some k →
    ∃ e, q.pending[k]? = some e ∧ e.id = id ∧ (q.remove id).1 = some e ∧
      (q.remove id).2.size + 1 = q.size

/-! ### Ids of pending events were handed out -/

/-- The map and the index agree, and every pending event has an id that was handed out. -/
structure Tended (q : EventQueue δ) : Prop where
  valid : q.Valid
  id_le : ∀ e ∈ q, e.id ≤ q.lastId

theorem tended_empty : Tended ({} : EventQueue δ) where
  valid := valid_empty
  id_le e he := by simp [mem_iff] at he

theorem lastId_requeue (q : EventQueue δ) (e : Event δ) : (q.requeue e).lastId = q.lastId := by
  rw [requeue_eq]
  cases e.next? <;> rfl

theorem Tended.insert (h : q.Tended) {id : Nat} (hid : id ≤ q.lastId) (target : Instant)
    (interval : Delay) (deliver : δ) : (q.insert id target interval deliver).2.Tended where
  valid := valid_insert h.valid id target interval deliver
  id_le x hx := by
    rw [lastId_insert]
    obtain ⟨hx, -⟩ | rfl := (mem_insert h.valid).mp hx
    · exact h.id_le x hx
    · exact hid

theorem Tended.remove (h : q.Tended) (id : Nat) : (q.remove id).2.Tended where
  valid := valid_remove h.valid id
  id_le x hx := by
    rw [lastId_remove]
    exact h.id_le x ((mem_remove h.valid).mp hx).1

theorem Tended.popped (h : q.Tended) {e : Event δ} (he : e ∈ q) :
    ((q.without e).requeue e).Tended where
  valid := valid_popped h.valid he
  id_le x hx := by
    rw [lastId_requeue]
    obtain ⟨hx, -⟩ | ⟨e', he', rfl⟩ := (mem_popped h.valid he).mp hx
    · exact h.id_le x hx
    · show e'.id ≤ q.lastId
      rw [(Event.next?_eq_some he').1]
      exact h.id_le e he

theorem Tended.call (h : q.Tended) {c : QueueCall δ} (hc : q.Allows (.call c)) :
    (q.perform c).2.Tended := by
  cases c with
  | allocate => exact ⟨h.valid.congr rfl rfl rfl, fun e he => Nat.le_succ_of_le (h.id_le e he)⟩
  | insert id target interval deliver => exact h.insert hc target interval deliver
  | remove id => exact h.remove id
  | popDue limit =>
    rw [perform]
    cases hp : q.popDue limit with
    | none => exact h
    | some p =>
      obtain ⟨f, q'⟩ := p
      obtain ⟨e, he, -, -, rfl⟩ := popDue_eq_some h.valid hp
      exact h.popped (first?_eq_some h.valid he).1
  | clear => exact ⟨valid_clear q, fun e he => absurd he mem_clear⟩
  | size => exact h
  | nextDeadline => exact h

theorem Tended.operate (h : q.Tended) {o : QueueOperation δ} (ho : q.Allows o) :
    (q.operate o).Tended := by
  cases o with
  | call c => exact h.call ho
  | register count =>
    rw [EventQueue.operate, register]
    split
    · exact h
    · exact ⟨h.valid.congr rfl rfl rfl, h.id_le⟩
  | cancel waiter => exact ⟨h.valid.congr rfl rfl rfl, h.id_le⟩

theorem Reached.tended (h : Reached q) : q.Tended := by
  induction h with
  | new => exact tended_empty
  | operate _ ho ih => exact ih.operate ho

/-! ### Consequences -/

/-- What is stored under a key is an event of the queue, and the key is its own. -/
theorem Valid.stored (h : q.Valid) {k : OrderKey} {e : Event δ} (he : q.pending[k]? = some e) :
    e ∈ q ∧ e.key = k := by
  have hkey := h.key_eq he
  exact ⟨by rw [mem_iff, hkey]; exact he, hkey⟩

theorem Valid.found (h : q.Valid) {id : Nat} {k : OrderKey} :
    q.index[id]? = some k ↔ ∃ e, q.pending[k]? = some e ∧ e.id = id := by
  rw [h.index_iff]
  constructor
  · rintro ⟨e, he, hid, rfl⟩
    exact ⟨e, he, hid⟩
  · rintro ⟨e, he, hid⟩
    obtain ⟨hmem, hkey⟩ := h.stored he
    exact ⟨e, hmem, hid, hkey⟩

theorem Tended.consistent (h : q.Tended) : q.Consistent where
  stored k e he := (h.valid.key_eq he).symm
  one_each k k' e e' he he' hid := by
    obtain ⟨hmem, rfl⟩ := h.valid.stored he
    obtain ⟨hmem', rfl⟩ := h.valid.stored he'
    rw [h.valid.eq_of_id hmem hmem' hid]
  found id k := h.valid.found
  absent id := by
    rw [Option.eq_none_iff_forall_ne_some]
    simp only [ne_eq, h.valid.found, not_exists, not_and]
  distinct k k' e e' he he' hs := by
    obtain ⟨hmem, rfl⟩ := h.valid.stored he
    obtain ⟨hmem', rfl⟩ := h.valid.stored he'
    rw [h.valid.sequence_inj hmem hmem' hs]
  sequence_le k e he := h.valid.sequence_le (h.valid.stored he).1
  id_le k e he := h.id_le e (h.valid.stored he).1

theorem size_without {e : Event δ} (he : e ∈ q) : (q.without e).size + 1 = q.size := by
  have hmem : e.key ∈ q.pending := by
    rw [Std.TreeMap.mem_iff_isSome_getElem?, mem_iff.mp he]
    rfl
  have hpos : q.pending.size ≠ 0 := by
    intro hsize
    have hempty : q.pending.isEmpty = true := by
      rw [Std.TreeMap.isEmpty_eq_size_eq_zero, hsize]
      rfl
    exact Std.TreeMap.not_mem_of_isEmpty hempty hmem
  have herase : (q.without e).size = q.size - 1 := Std.TreeMap.size_erase.trans (if_pos hmem)
  rw [herase]
  exact Nat.sub_add_cancel (Nat.pos_of_ne_zero hpos)

/-- An event that keeps its place in the queue stays where it is stored. -/
theorem Valid.stored_of_mem (h : q.Valid) {q' : EventQueue δ} {k : OrderKey} {e : Event δ}
    (he : q.pending[k]? = some e) (hkept : e ∈ q → e ∈ q') : q'.pending[k]? = some e := by
  obtain ⟨hmem, rfl⟩ := h.stored he
  exact hkept hmem

theorem Valid.lossless (h : q.Valid) : q.Lossless where
  insert_keeps id target interval deliver k e he hid :=
    h.stored_of_mem he fun hmem => (mem_insert h).mpr (.inl ⟨hmem, hid⟩)
  insert_size id target interval deliver := by
    have hsize : (q.insert id target interval deliver).2.size = (q.remove id).2.size + 1 :=
      size_push (valid_remove h id) _
    rw [hsize]
    obtain ⟨e, he, hid, hr⟩ | ⟨hne, hr⟩ := remove_eq h id
    · rw [if_pos ((isPending_iff h).mpr ⟨e, he, hid⟩), hr]
      exact size_without he
    · rw [if_neg fun hp => ?_, hr]
      obtain ⟨e, he, hid⟩ := (isPending_iff h).mp hp
      exact hne e he hid
  pop_keeps limit f q' hp k e he hid := by
    obtain ⟨first, hfirst, -, rfl, rfl⟩ := popDue_eq_some h hp
    have hmem := (first?_eq_some h hfirst).1
    refine h.stored_of_mem he fun he' => (mem_popped h hmem).mpr (.inl ⟨he', ?_⟩)
    rintro rfl
    exact hid rfl
  remove_found id k hk := by
    obtain ⟨e, he, rfl, rfl⟩ := h.index_iff.mp hk
    obtain ⟨e', he', hid, hr⟩ | ⟨hne, -⟩ := remove_eq h e.id
    · obtain rfl := h.eq_of_id he he' hid.symm
      exact ⟨e, he, rfl, by rw [hr], by rw [hr]; exact size_without he⟩
    · exact absurd rfl (hne e he)

/-- After every sequence of operations the map, the index and the counters of a queue agree: there
is at most one event of each id, which is the one that the index finds, no two events have one
sequence number, and no number is above its counter. So an insertion overwrites no event but that
of its own id, and whatever the index finds can be taken off. -/
theorem consistent_of_reached (h : Reached q) : q.Consistent ∧ q.Lossless :=
  ⟨h.tended.consistent, h.tended.valid.lossless⟩

/-- A ticker with period 2 and a timer for the same instant: when the ticker has fired, its next tick
is queued behind the timer, and the index finds both. -/
def tickedOnce : EventQueue Unit :=
  let at_ : Instant := ⟨2, by decide, by decide⟩
  let ticker := (({} : EventQueue Unit).operate (.call .allocate)).operate
    (.call (.insert 1 at_ ⟨2⟩ ()))
  let both := ((ticker.operate (.register 2)).operate (.call .allocate)).operate
    (.call (.insert 2 at_ .zero ()))
  both.operate (.call (.popDue at_))

theorem reached_tickedOnce : Reached tickedOnce := by
  have hticker := (Reached.new (δ := Unit)).operate (o := .call .allocate) trivial
  have hticker' := hticker.operate (o := .call (.insert 1 ⟨2, by decide, by decide⟩ ⟨2⟩ ()))
    (Nat.le_refl 1)
  have hboth := (hticker'.operate (o := .register 2) trivial).operate (o := .call .allocate) trivial
  exact (hboth.operate (o := .call (.insert 2 ⟨2, by decide, by decide⟩ .zero ()))
    (Nat.le_refl 2)).operate (o := .call (.popDue ⟨2, by decide, by decide⟩)) trivial

theorem consistent_of_reached_tickedOnce :
    Reached tickedOnce ∧ (tickedOnce.Consistent ∧ tickedOnce.Lossless) ∧
      tickedOnce.index[1]? = some ⟨⟨4, by decide, by decide⟩, 3⟩ ∧
      tickedOnce.index[2]? = some ⟨⟨2, by decide, by decide⟩, 2⟩ :=
  ⟨reached_tickedOnce, consistent_of_reached reached_tickedOnce, by cbv, by cbv⟩

end EventQueue

end VirtualClock
