import VirtualClock.Proofs.Timeline.Moves

/-! The order of firing: over the whole life of a timeline, whoever moves it, the keys of the events
taken off the queue increase strictly, and the sequence number in a key counts the insertions up to
the last one of its event. -/

namespace VirtualClock.Timeline

variable {κ : Type}

/-- The events that some moves take off the queue to be fired, in order. -/
def taken (t : Timeline κ) : List (Move κ) → List (Event (Delivery κ))
  | [] => []
  | m :: ms => (t.taken? m).toList ++ (t.move m).taken ms

/-- The events that some moves put into the queue, in order. -/
def queued (t : Timeline κ) : List (Move κ) → List (Event (Delivery κ))
  | [] => []
  | m :: ms => (t.queued? m).toList ++ (t.move m).queued ms

theorem taken_append (t : Timeline κ) (ms ms' : List (Move κ)) :
    t.taken (ms ++ ms') = t.taken ms ++ (t.moves ms).taken ms' := by
  induction ms generalizing t with
  | nil => rfl
  | cons m ms ih => rw [List.cons_append, taken, taken, ih, moves_cons, List.append_assoc]

/-! ### Keys increase -/

/-- Everything pending on `t` comes after everything in `done`, which was taken in order. -/
structure Ordered (t : Timeline κ) (done : List (Event (Delivery κ))) : Prop where
  valid : t.queue.Valid
  sorted : done.Pairwise fun e x => e.key < x.key
  target_le : ∀ e ∈ done, e.target ≤ t.now
  sequence_le : ∀ e ∈ done, e.sequence ≤ t.queue.sequence
  lt_pending : ∀ e ∈ done, ∀ x ∈ t.queue, e.key < x.key

theorem key_lt_trans {e x y : Event (Delivery κ)} (h : e.key < x.key) (h' : x.key < y.key) :
    e.key < y.key := by
  rw [OrderKey.lt_iff_nanos] at *
  omega

/-- An event queued now comes after what was taken before. -/
theorem Ordered.lt_queued {t : Timeline κ} {done : List (Event (Delivery κ))} (h : Ordered t done)
    {m : Move κ} {e x : Event (Delivery κ)} (he : e ∈ done) (hx : t.queued? m = some x) :
    e.key < x.key := by
  cases hm : t.taken? m with
  | none =>
    have hnow := now_le_of_queued? hx hm
    have htarget := h.target_le e he
    have hseq := h.sequence_le e he
    have hfresh := sequence_of_queued? hx
    rw [Instant.le_def] at htarget hnow
    rw [OrderKey.lt_iff_nanos]
    show e.target.nanos < x.target.nanos ∨
      e.target.nanos = x.target.nanos ∧ e.sequence < x.sequence
    omega
  | some y =>
    obtain ⟨_, -, -, -, hmem, -⟩ := taken?_eq_some h.valid hm
    have hpending : x ∈ (t.move m).queue := (mem_move h.valid m).mpr (.inr hx)
    exact key_lt_trans (h.lt_pending e he y hmem) (key_lt_of_taken? h.valid hm hpending)

theorem Ordered.move {t : Timeline κ} {done : List (Event (Delivery κ))} (h : Ordered t done)
    (m : Move κ) : Ordered (t.move m) (done ++ (t.taken? m).toList) := by
  have hnow := now_le_now_move h.valid m
  have hseq := sequence_move h.valid m
  have htarget : ∀ e ∈ done, e.target ≤ (t.move m).now := fun e he =>
    Int.le_trans (h.target_le e he) hnow
  have hsequence : ∀ e ∈ done, e.sequence ≤ (t.move m).queue.sequence := fun e he => by
    have := h.sequence_le e he
    omega
  have hpending : ∀ e ∈ done, ∀ x ∈ (t.move m).queue, e.key < x.key := fun e he x hx => by
    obtain ⟨hx, -⟩ | hx := (mem_move h.valid m).mp hx
    · exact h.lt_pending e he x hx
    · exact h.lt_queued he hx
  cases hm : t.taken? m with
  | none =>
    rw [Option.toList_none, List.append_nil]
    exact ⟨valid_move h.valid m, h.sorted, htarget, hsequence, hpending⟩
  | some y =>
    obtain ⟨_, -, -, hmove, hmem, -⟩ := taken?_eq_some h.valid hm
    have hy_now : y.target ≤ (t.move m).now := by
      rw [hmove]
      show y.target.nanos ≤ (t.now.later y.target).nanos
      rw [Instant.nanos_later]
      omega
    have hy_seq : y.sequence ≤ (t.move m).queue.sequence := by
      have := h.valid.sequence_le hmem
      omega
    rw [Option.toList_some]
    refine ⟨valid_move h.valid m, ?_, ?_, ?_, ?_⟩
    · rw [List.pairwise_append]
      refine ⟨h.sorted, List.pairwise_singleton _ y, fun e he x hx => ?_⟩
      rw [List.mem_singleton.mp hx]
      exact h.lt_pending e he y hmem
    all_goals
      intro e he
      obtain he | he := List.mem_append.mp he
    · exact htarget e he
    · rw [List.mem_singleton.mp he]; exact hy_now
    · exact hsequence e he
    · rw [List.mem_singleton.mp he]; exact hy_seq
    · exact hpending e he
    · rw [List.mem_singleton.mp he]
      exact fun x hx => key_lt_of_taken? h.valid hm hx

theorem Ordered.moves {t : Timeline κ} {done : List (Event (Delivery κ))} (h : Ordered t done)
    (ms : List (Move κ)) : Ordered (t.moves ms) (done ++ t.taken ms) := by
  induction ms generalizing t done with
  | nil => rw [taken, List.append_nil]; exact h
  | cons m ms ih =>
    rw [taken, ← List.append_assoc]
    exact ih (h.move m)

theorem ordered_start (at_ : Reading) : Ordered (start at_ : Timeline κ) [] :=
  ⟨valid_start at_, .nil, by simp, by simp, by simp⟩

/-! ### Sequence numbers count insertions -/

/-- Of the events in `log`, in the order in which they were queued, `e` is the last one of its id,
and its place is its sequence number. -/
def LastQueued (log : List (Event (Delivery κ))) (e : Event (Delivery κ)) : Prop :=
  ∃ earlier later, log = earlier ++ e :: later ∧ e.sequence = earlier.length + 1 ∧
    ∀ x ∈ later, x.id ≠ e.id

/-- The events in `log` were queued so far, and each pending one is the last one of its id. -/
structure Recorded (t : Timeline κ) (log : List (Event (Delivery κ))) : Prop where
  valid : t.queue.Valid
  sequence_eq : t.queue.sequence = log.length
  last : ∀ e ∈ t.queue, LastQueued log e

theorem LastQueued.append {log log' : List (Event (Delivery κ))} {e : Event (Delivery κ)}
    (h : LastQueued log e) (hne : ∀ x ∈ log', x.id ≠ e.id) : LastQueued (log ++ log') e := by
  obtain ⟨earlier, later, rfl, hseq, hlater⟩ := h
  refine ⟨earlier, later ++ log', by simp, hseq, fun x hx => ?_⟩
  exact (List.mem_append.mp hx).elim (hlater x) (hne x)

/-- What stays pending while `x` is queued has another id. -/
theorem id_ne_of_queued? {t : Timeline κ} (h : t.queue.Valid) {m : Move κ}
    {e x : Event (Delivery κ)} (he : e ∈ t.queue) (hkept : ¬t.Removes m e)
    (hx : t.queued? m = some x) : x.id ≠ e.id := by
  cases m with
  | arm id delay interval deliver =>
    cases hx
    exact fun hid => hkept hid.symm
  | popDue limit =>
    obtain ⟨y, hy, hnext⟩ := Option.bind_eq_some_iff.mp hx
    obtain ⟨x', hx', rfl⟩ := Option.map_eq_some_iff.mp hnext
    obtain ⟨_, -, -, -, hmem, -⟩ := taken?_eq_some h hy
    intro hid
    have hye : y.id = e.id := (Event.next?_eq_some hx').1.symm.trans hid
    rw [Removes, hy, h.eq_of_id hmem he hye] at hkept
    exact hkept rfl
  | _ => cases hx

theorem Recorded.move {t : Timeline κ} {log : List (Event (Delivery κ))} (h : Recorded t log)
    (m : Move κ) : Recorded (t.move m) (log ++ (t.queued? m).toList) where
  valid := valid_move h.valid m
  sequence_eq := by rw [sequence_move h.valid, h.sequence_eq, List.length_append]
  last e he := by
    obtain ⟨he, hkept⟩ | he := (mem_move h.valid m).mp he
    · refine (h.last e he).append fun x hx => ?_
      exact id_ne_of_queued? h.valid he hkept (Option.mem_toList.mp hx)
    · refine ⟨log, [], by rw [he]; rfl, ?_, by simp⟩
      rw [sequence_of_queued? he, h.sequence_eq]

theorem Recorded.moves {t : Timeline κ} {log : List (Event (Delivery κ))} (h : Recorded t log)
    (ms : List (Move κ)) : Recorded (t.moves ms) (log ++ t.queued ms) := by
  induction ms generalizing t log with
  | nil => rw [queued, List.append_nil]; exact h
  | cons m ms ih =>
    rw [queued, ← List.append_assoc]
    exact ih (h.move m)

theorem recorded_start (at_ : Reading) : Recorded (start at_ : Timeline κ) [] :=
  ⟨valid_start at_, rfl, fun e he => absurd he (not_mem_start at_ e)⟩

end VirtualClock.Timeline
