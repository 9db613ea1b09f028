import VirtualClock.Proofs.Split
import VirtualClock.Proofs.Timeline.Spared

/-! What the turns of an advance do to its timeline, among them a turn whose callback panics: the
callback leaves time where it is and everything that it did not touch pending. Every turn counts, so
a timeline never becomes again what it was before. -/

namespace VirtualClock

variable {κ : Type}

namespace Timeline

variable {t t' : Timeline κ} {e : Event (Delivery κ)} {ms : List (Move κ)}

/-- The event `e` was taken off the timeline `t`, and its callback made the moves `ms`, which are no
advance, before it panicked. They lead to `t'`. -/
structure Interrupted (t : Timeline κ) (e : Event (Delivery κ)) (ms : List (Move κ))
    (t' : Timeline κ) : Prop where
  eq_moves : t' = (t.popped e).moves ms
  acts : ∀ m ∈ ms, m.isInner = false
  now_eq : t'.now = t.now.later e.target
  /-- A one-shot is not pending, unless the callback armed it again. -/
  gone : e.isTicker = false → (∀ d interval deliver, .arm e.id d interval deliver ∉ ms) →
    t'.queue.isPending e.id = false
  /-- What the callback found pending beside its own event is what was pending. -/
  others : ∀ x, x.id ≠ e.id → (x ∈ (t.popped e).queue ↔ x ∈ t.queue)
  /-- What the callback left alone is pending. -/
  kept : ∀ x ∈ t.queue, x ≠ e → (∀ m ∈ ms, m.spares x.id = true) → x ∈ t'.queue

/-! ### Moves that take nothing off the queue -/

theorem mem_moves_of_spares (hv : t.queue.Valid) (hms : ∀ m ∈ ms, m.isInner = false) {id : Nat}
    (hspares : ∀ m ∈ ms, m.spares id = true) {x : Event (Delivery κ)} (hx : x ∈ t.queue)
    (hid : x.id = id) : x ∈ (t.moves ms).queue := by
  induction ms generalizing t with
  | nil => exact hx
  | cons m ms ih =>
    rw [List.forall_mem_cons] at hms hspares
    refine ih (valid_move hv m) hms.2 hspares.2 ?_
    obtain ⟨-, hsame⟩ | ⟨y, htaken, -⟩ := move_spared hv hspares.1
    · exact (hsame x hid).mpr hx
    · obtain ⟨_, rfl, -⟩ := taken?_eq_some hv htaken
      cases hms.1

theorem interrupted_of_taken (hv : t.queue.Valid) {limit : Instant}
    (htaken : t.taken? (.popDue limit) = some e) (hms : ∀ m ∈ ms, m.isInner = false) :
    Interrupted t e ms ((t.popped e).moves ms) := by
  obtain ⟨_, -, -, hmove, he, -⟩ := taken?_eq_some hv htaken
  have hv' : (t.popped e).queue.Valid := EventQueue.valid_popped hv he
  have hmem (x : Event (Delivery κ)) : x ∈ (t.popped e).queue ↔ x ∈ t.queue ∧ x ≠ e ∨
      ∃ e', e.next? = some e' ∧ x = e'.withSequence (t.queue.sequence + 1) :=
    EventQueue.mem_popped hv he
  refine ⟨rfl, hms, now_moves _ hms, ?_, ?_, ?_⟩
  · intro hshot harm
    have hgone : ∀ x ∈ (t.popped e).queue, x.id ≠ e.id := by
      intro x hx hid
      obtain ⟨hold, hne⟩ | ⟨e', hnext, -⟩ := (hmem x).mp hx
      · exact hne (hv.eq_of_id hold he hid)
      · rw [Event.next?, hshot] at hnext
        cases hnext
    rw [Bool.eq_false_iff, ne_eq, EventQueue.isPending_iff (valid_moves hv' ms)]
    rintro ⟨x, hx, hid⟩
    exact (gone_moves hv' hgone harm).2 x hx hid
  · intro x hid
    rw [hmem]
    constructor
    · rintro (⟨hold, -⟩ | ⟨e', hnext, rfl⟩)
      · exact hold
      · exact absurd (Event.next?_eq_some hnext).1 hid
    · intro hx
      exact .inl ⟨hx, fun hxe => hid (congrArg (·.id) hxe)⟩
  · intro x hx hne hspares
    exact mem_moves_of_spares hv' hms hspares ((hmem x).mpr (.inl ⟨hx, hne⟩)) rfl

/-! ### Turns of the loop -/

/-- Some turns of the loop of an advance up to `limit` lead from `t` to `t'` and fire `done`. -/
structure Turned (limit : Instant) (t t' : Timeline κ) (done : List (Event (Delivery κ))) :
    Prop where
  moves : ∃ ms, t' = t.moves ms ∧ t.taken ms = done
  now_le : t.now ≤ limit → t'.now ≤ limit
  sound : ∀ at_, Solo.Sound at_ t → Solo.Sound at_ t'

variable {limit : Instant} {done : List (Event (Delivery κ))}

theorem Turned.refl (limit : Instant) (t : Timeline κ) : Turned limit t t [] :=
  ⟨⟨[], rfl, rfl⟩, id, fun _ => id⟩

theorem Turned.trans {t₁ t₂ t₃ : Timeline κ} {done' : List (Event (Delivery κ))}
    (h : Turned limit t₁ t₂ done) (h' : Turned limit t₂ t₃ done') :
    Turned limit t₁ t₃ (done ++ done') := by
  obtain ⟨ms, rfl, rfl⟩ := h.moves
  obtain ⟨ms', rfl, rfl⟩ := h'.moves
  refine ⟨⟨ms ++ ms', (moves_append t₁ ms ms').symm, taken_append t₁ ms ms'⟩, ?_, ?_⟩
  · exact fun hnow => h'.now_le (h.now_le hnow)
  · exact fun at_ hsound => h'.sound at_ (h.sound at_ hsound)

theorem Turned.valid (h : Turned limit t t' done) (hv : t.queue.Valid) : t'.queue.Valid := by
  obtain ⟨ms, rfl, -⟩ := h.moves
  exact valid_moves hv ms

theorem Turned.ordered (h : Turned limit t t' done) (hv : t.queue.Valid) : Ordered t' done := by
  obtain ⟨ms, rfl, rfl⟩ := h.moves
  have hempty : Ordered t [] := ⟨hv, .nil, by simp, by simp, by simp⟩
  exact hempty.moves ms

theorem turned_popped (hv : t.queue.Valid)
    (htaken : t.taken? (.popDue limit) = some e) : Turned limit t (t.popped e) [e] := by
  obtain ⟨_, heq, hp, hmove, -, hle, -⟩ := taken?_eq_some hv htaken
  cases heq
  refine ⟨⟨[.popDue limit], hmove.symm, ?_⟩, fun hnow => ?_, fun at_ hsound => ?_⟩
  · rw [taken, htaken]
    rfl
  · show (t.now.later e.target).nanos ≤ limit.nanos
    rw [Instant.nanos_later]
    exact Int.max_le.mpr ⟨hnow, hle⟩
  · obtain ⟨_, -, -, -, -, hsound'⟩ := hsound.popDue hp
    exact hsound'

theorem turned_send (limit : Instant) (t : Timeline κ) (id : Nat) (value : Instant) :
    Turned limit t (t.send id value) [] := by
  refine ⟨⟨[.send id value], rfl, rfl⟩, fun hnow => hnow, fun at_ h => ?_⟩
  exact ⟨h.valid, h.origin_eq, h.start_le_now, h.now_le_target⟩

theorem sound_moves {at_ : Reading} (hsound : Solo.Sound at_ t)
    (hms : ∀ m ∈ ms, m.isInner = false) : Solo.Sound at_ (t.moves ms) := by
  induction ms generalizing t with
  | nil => exact hsound
  | cons m ms ih =>
    rw [List.forall_mem_cons] at hms
    exact ih (hsound.move hms.1) hms.2

theorem turned_moves (hms : ∀ m ∈ ms, m.isInner = false) (limit : Instant) :
    Turned limit t (t.moves ms) [] := by
  refine ⟨⟨ms, rfl, Solo.taken_eq_nil hms⟩, ?_, fun at_ hsound => sound_moves hsound hms⟩
  rw [now_moves t hms]
  exact id

/-! ### No timeline comes back -/

/-- What is pending after some moves was pending before, or it is queued later than all that was. -/
theorem mem_moves_or_lt (hv : t.queue.Valid) {x : Event (Delivery κ)}
    (hx : x ∈ (t.moves ms).queue) : x ∈ t.queue ∨ t.queue.sequence < x.sequence := by
  induction ms generalizing t with
  | nil => exact .inl hx
  | cons m ms ih =>
    have hseq := sequence_move hv m
    obtain hold | hlater := ih (valid_move hv m) hx
    · refine ((mem_move hv m).mp hold).imp And.left fun hnew => ?_
      rw [sequence_of_queued? hnew]
      omega
    · right
      omega

/-- A timeline from which an event was just taken off is not what it was before. -/
theorem popped_ne (hv : t.queue.Valid) {limit : Instant}
    (htaken : (t.moves ms).taken? (.popDue limit) = some e) : (t.moves ms).popped e ≠ t := by
  intro hback
  have hv' := valid_moves hv ms
  obtain ⟨_, -, -, hmove, he, -⟩ := taken?_eq_some hv' htaken
  rw [hback] at hmove
  obtain hold | hlater := mem_moves_or_lt hv he
  · have hkey : e.key < e.key := key_lt_of_taken? hv' htaken (by rw [hmove]; exact hold)
    rw [OrderKey.lt_iff_nanos] at hkey
    omega
  · have hle := hv'.sequence_le he
    have hseq := sequence_move hv' (.popDue limit)
    rw [hmove] at hseq
    omega

end Timeline

end VirtualClock
