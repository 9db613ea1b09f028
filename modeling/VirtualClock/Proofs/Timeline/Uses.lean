import VirtualClock.Proofs.Timeline.Solo

/-! What the holders of timers and tickers do with a timeline: start new ones, reset those that they
have a handle of, and make calls that arm nothing. Ids are handed out in order, so a new timer never
has the id of a pending one. -/

namespace VirtualClock

/-- What a holder of timers and tickers does with a timeline. -/
inductive Use (κ : Type) where
  /-- A new timer or ticker, which gets an id of its own. -/
  | start (delay interval : Delay) (deliver : Delivery κ)
  /-- A timer or a ticker is armed again through its handle. -/
  | reset (id : Nat) (delay interval : Delay) (deliver : Delivery κ)
  /-- A step that arms nothing. -/
  | call (m : Move κ)

/-- A step of a caller that arms nothing and is no part of an advance. -/
def Move.isCall {κ : Type} : Move κ → Bool
  | .allocate | .disarm _ | .receive _ | .register _ | .cancel _ => true
  | _ => false

namespace Timeline

variable {κ : Type} {t t' : Timeline κ}

/-- The timeline after a use. -/
def use (t : Timeline κ) : Use κ → Timeline κ
  | .start delay interval deliver =>
    (t.move .allocate).move (.arm t.allocate.1 delay interval deliver)
  | .reset id delay interval deliver => t.move (.arm id delay interval deliver)
  | .call m => t.move m

/-- The moves that a use consists of. -/
def useMoves (t : Timeline κ) : Use κ → List (Move κ)
  | .start delay interval deliver => [.allocate, .arm t.allocate.1 delay interval deliver]
  | .reset id delay interval deliver => [.arm id delay interval deliver]
  | .call m => [m]

theorem use_eq_moves (t : Timeline κ) (u : Use κ) : t.use u = t.moves (t.useMoves u) := by
  cases u <;> rfl

/-- A handle has an id that was handed out. -/
def Allows (t : Timeline κ) : Use κ → Prop
  | .start .. => True
  | .reset id .. => id ≤ t.queue.lastId
  | .call m => m.isCall = true

instance (t : Timeline κ) : (u : Use κ) → Decidable (t.Allows u)
  | .start .. => inferInstanceAs (Decidable True)
  | .reset id .. => inferInstanceAs (Decidable (id ≤ t.queue.lastId))
  | .call m => inferInstanceAs (Decidable (m.isCall = true))

theorem isInner_of_mem_useMoves {u : Use κ} (hu : t.Allows u) :
    ∀ m ∈ t.useMoves u, m.isInner = false := by
  cases u with
  | start delay interval deliver => simp [useMoves, Move.isInner]
  | reset id delay interval deliver => simp [useMoves, Move.isInner]
  | call m =>
    simp only [useMoves, List.mem_singleton, forall_eq]
    cases m <;> first | rfl | cases hu

/-- Every pending event has an id that was handed out. -/
structure Tended (t : Timeline κ) : Prop where
  valid : t.queue.Valid
  id_le : ∀ e ∈ t.queue, e.id ≤ t.queue.lastId

theorem tended_start (at_ : Reading) : Tended (.start at_ : Timeline κ) where
  valid := valid_start at_
  id_le e he := absurd he (not_mem_start at_ e)

theorem lastId_le_move (hv : t.queue.Valid) (m : Move κ) :
    t.queue.lastId ≤ (t.move m).queue.lastId := by
  have quiet : t.queue.lastId ≤ t.queue.lastId := Nat.le_refl _
  cases m with
  | allocate => exact Nat.le_succ _
  | arm id delay interval deliver =>
    exact Nat.le_of_eq (EventQueue.lastId_insert t.queue id _ interval deliver).symm
  | disarm id => exact Nat.le_of_eq (EventQueue.lastId_remove t.queue id).symm
  | popDue limit =>
    cases hm : t.taken? (.popDue limit) with
    | none =>
      exact Nat.le_of_eq (congrArg (·.queue.lastId) (move_popDue_of_taken?_eq_none hv hm).symm)
    | some e =>
      obtain ⟨_, -, -, hmove, -⟩ := taken?_eq_some hv hm
      rw [hmove, popped, EventQueue.requeue_eq]
      cases e.next? <;> exact quiet
  | receive id => rw [move, receive]; cases t.waiting[id]? <;> exact quiet
  | register count =>
    rw [move, register, EventQueue.register]
    split <;> exact quiet
  | _ => exact quiet

/-- A move that puts nothing into the queue but the next tick of what it takes off. -/
theorem Tended.move (h : Tended t) {m : Move κ} (hm : ∀ id delay interval deliver,
    m ≠ .arm id delay interval deliver) : Tended (t.move m) := by
  refine ⟨valid_move h.valid m, fun x hx => ?_⟩
  have hle := lastId_le_move h.valid m
  obtain ⟨hold, -⟩ | hnew := (mem_move h.valid m).mp hx
  · exact Nat.le_trans (h.id_le x hold) hle
  · cases m with
    | arm id delay interval deliver => exact absurd rfl (hm id delay interval deliver)
    | popDue limit =>
      obtain ⟨e, he, hnext⟩ := Option.bind_eq_some_iff.mp hnew
      obtain ⟨e', he', rfl⟩ := Option.map_eq_some_iff.mp hnext
      obtain ⟨_, -, -, -, hmem, -⟩ := taken?_eq_some h.valid he
      have hid : e'.id = e.id := (Event.next?_eq_some he').1
      show e'.id ≤ _
      rw [hid]
      exact Nat.le_trans (h.id_le e hmem) hle
    | _ => cases hnew

theorem Tended.arm (h : Tended t) {id : Nat} (hid : id ≤ t.queue.lastId) (delay interval : Delay)
    (deliver : Delivery κ) : Tended (t.move (.arm id delay interval deliver)) := by
  have hle := lastId_le_move h.valid (.arm id delay interval deliver)
  refine ⟨valid_move h.valid _, fun x hx => ?_⟩
  obtain ⟨hold, -⟩ | hnew := (mem_move h.valid _).mp hx
  · exact Nat.le_trans (h.id_le x hold) hle
  · cases hnew
    exact Nat.le_trans hid hle

theorem Tended.use (h : Tended t) {u : Use κ} (hu : t.Allows u) : Tended (t.use u) := by
  cases u with
  | start delay interval deliver =>
    have h₁ : Tended (t.move .allocate) := h.move (by simp)
    exact h₁.arm (Nat.le_refl _) delay interval deliver
  | reset id delay interval deliver => exact h.arm hu delay interval deliver
  | call m =>
    refine h.move ?_
    rintro id delay interval deliver rfl
    cases hu

theorem valid_use (hv : t.queue.Valid) (u : Use κ) : (t.use u).queue.Valid := by
  cases u with
  | start delay interval deliver => exact valid_move (valid_move hv _) _
  | reset id delay interval deliver => exact valid_move hv _
  | call m => exact valid_move hv m

theorem lastId_start (t : Timeline κ) (delay interval : Delay) (deliver : Delivery κ) :
    (t.use (.start delay interval deliver)).queue.lastId = t.allocate.1 :=
  EventQueue.lastId_insert ..

theorem lastId_le_use (hv : t.queue.Valid) (u : Use κ) :
    t.queue.lastId ≤ (t.use u).queue.lastId := by
  cases u with
  | start delay interval deliver =>
    exact Nat.le_trans (lastId_le_move hv .allocate) (lastId_le_move (valid_move hv _) _)
  | reset id delay interval deliver => exact lastId_le_move hv _
  | call m => exact lastId_le_move hv m

/-- A use puts an event of an id into the queue if it starts a timer with a new id, or is a reset of
just this id. -/
theorem mem_use (hv : t.queue.Valid) {u : Use κ} (hu : t.Allows u) {x : Event (Delivery κ)}
    (hx : x ∈ (t.use u).queue) :
    x ∈ t.queue ∨ x.id = t.queue.lastId + 1 ∨
      ∃ delay interval deliver, u = .reset x.id delay interval deliver := by
  cases u with
  | start delay interval deliver =>
    obtain ⟨hold, -⟩ | hnew := (mem_move (valid_move hv .allocate) _).mp hx
    · exact .inl hold
    · cases hnew
      exact .inr (.inl rfl)
  | reset id delay interval deliver =>
    obtain ⟨hold, -⟩ | hnew := (mem_move hv _).mp hx
    · exact .inl hold
    · cases hnew
      exact .inr (.inr ⟨delay, interval, deliver, rfl⟩)
  | call m =>
    obtain ⟨hold, -⟩ | hnew := (mem_move hv m).mp hx
    · exact .inl hold
    · cases m with
      | arm id delay interval deliver => cases hu
      | popDue limit => cases hu
      | _ => cases hnew

/-- What is pending once a firing was delivered was pending before, or is a tick of a ticker that
was. -/
theorem mem_handOver (hv : t.queue.Valid) {limit : Instant} {f : Firing (Delivery κ)}
    (hp : t.popDue limit = some (f, t')) {x : Event (Delivery κ)}
    (hx : x ∈ (Solo.handOver t' f).queue) : ∃ e ∈ t.queue, e.id = x.id := by
  obtain ⟨e, htaken, hmem, -, -, rfl, rfl⟩ := popDue_eq_some hv hp
  have hqueue : (Solo.handOver (t.popped e) e.firing).queue = (t.popped e).queue := by
    unfold Solo.handOver
    split <;> rfl
  rw [hqueue] at hx
  obtain ⟨hold, -⟩ | ⟨e', he', rfl⟩ := (EventQueue.mem_popped hv hmem).mp hx
  · exact ⟨x, hold, rfl⟩
  · exact ⟨e, hmem, (Event.next?_eq_some he').1.symm⟩

theorem Tended.handOver (h : Tended t) {limit : Instant} {f : Firing (Delivery κ)}
    (hp : t.popDue limit = some (f, t')) : Tended (Solo.handOver t' f) := by
  have hmove : t.move (.popDue limit) = t' := by rw [Timeline.move, hp]; rfl
  have h' : Tended t' := hmove ▸ h.move (by simp)
  unfold Solo.handOver
  split
  · exact ⟨h'.valid, h'.id_le⟩
  · exact h'

theorem lastId_le_popDue (hv : t.queue.Valid) {limit : Instant} {f : Firing (Delivery κ)}
    (hp : t.popDue limit = some (f, t')) : t.queue.lastId ≤ t'.queue.lastId := by
  have hmove : t.move (.popDue limit) = t' := by rw [Timeline.move, hp]; rfl
  exact hmove ▸ lastId_le_move hv (.popDue limit)

theorem lastId_handOver (t : Timeline κ) (f : Firing (Delivery κ)) :
    (Solo.handOver t f).queue.lastId = t.queue.lastId := by
  unfold Solo.handOver
  split <;> rfl

end Timeline

end VirtualClock
