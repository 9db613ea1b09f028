import VirtualClock.Proofs.Timeline.Order
import VirtualClock.Proofs.Timeline.Solo

/-! A handle that is left alone: it is neither armed nor stopped, and its timeline is not discarded.
Then its event changes only by firing. A single caller who is not left by a panic finds that it has
fired whenever time has come to its target and an advance has returned. -/

namespace VirtualClock

variable {κ : Type}

/-- Whether a move leaves the handle of `id` alone. -/
def Move.spares (id : Nat) : Move κ → Bool
  | .arm other .. | .disarm other => other != id
  | .discard => false
  | _ => true

/-- Whether a deed leaves the handle of `id` alone. -/
def Deed.spares (id : Nat) : Deed κ → Bool
  | .act m => m.spares id
  | _ => true

/-- Whether a deed is the end of an advance by a panic. -/
def Deed.isLeave : Deed κ → Bool
  | .leave => true
  | _ => false

namespace Timeline

/-- The events of `id` that some moves take off the queue to be fired, in order. -/
def takenOf (id : Nat) (t : Timeline κ) (ms : List (Move κ)) : List (Event (Delivery κ)) :=
  (t.taken ms).filter (·.id = id)

variable {t : Timeline κ} {id : Nat}

theorem takenOf_cons (t : Timeline κ) (m : Move κ) (ms : List (Move κ)) :
    t.takenOf id (m :: ms) = t.takenOf id [m] ++ (t.move m).takenOf id ms := by
  simp [takenOf, taken]

theorem takenOf_of_ne {m : Move κ} (h : ∀ e, t.taken? m = some e → e.id ≠ id) :
    t.takenOf id [m] = [] := by
  cases hm : t.taken? m with
  | none => simp [takenOf, taken, hm]
  | some e => simp [takenOf, taken, hm, h e hm]

theorem takenOf_of_some {m : Move κ} {e : Event (Delivery κ)} (h : t.taken? m = some e)
    (hid : e.id = id) : t.takenOf id [m] = [e] := by
  simp [takenOf, taken, h, hid]

/-- A move that leaves a handle alone leaves its event, or takes it to be fired. -/
theorem move_spared (hv : t.queue.Valid) {m : Move κ} (hm : m.spares id = true) :
    t.takenOf id [m] = [] ∧ (∀ x, x.id = id → (x ∈ (t.move m).queue ↔ x ∈ t.queue)) ∨
      ∃ e, t.taken? m = some e ∧ e ∈ t.queue ∧ e.id = id ∧ t.takenOf id [m] = [e] ∧
        ∀ x, x.id = id → (x ∈ (t.move m).queue ↔
          ∃ e', e.next? = some e' ∧ x = e'.withSequence (t.queue.sequence + 1)) := by
  cases htaken : t.taken? m with
  | none =>
    refine .inl ⟨takenOf_of_ne (by simp [htaken]), fun x hx => ?_⟩
    have hnot : ¬t.Removes m x ∧ t.queued? m ≠ some x := by
      cases m with
      | arm other delay interval deliver =>
        have hne : other ≠ id := by simpa [Move.spares] using hm
        refine ⟨fun hxo => hne (hxo.symm.trans hx), ?_⟩
        rintro ⟨⟩
        exact hne hx
      | disarm other =>
        have hne : other ≠ id := by simpa [Move.spares] using hm
        exact ⟨fun hxo => hne (hxo.symm.trans hx), by simp [queued?]⟩
      | popDue limit => simp [Removes, queued?, htaken]
      | discard => simp [Move.spares] at hm
      | _ => simp [Removes, queued?]
    rw [mem_move hv m]
    simp [hnot]
  | some e =>
    obtain ⟨limit, rfl, -, hmove, he, -⟩ := taken?_eq_some hv htaken
    have hmem (x : Event (Delivery κ)) : x ∈ (t.move (.popDue limit)).queue ↔ x ∈ t.queue ∧ x ≠ e ∨
        ∃ e', e.next? = some e' ∧ x = e'.withSequence (t.queue.sequence + 1) := by
      rw [hmove]
      exact EventQueue.mem_popped hv he
    by_cases hid : e.id = id
    · refine .inr ⟨e, rfl, he, hid, takenOf_of_some htaken hid, fun x hx => ?_⟩
      rw [hmem]
      refine or_iff_right fun hold => ?_
      exact hold.2 (hv.eq_of_id hold.1 he (hx.trans hid.symm))
    · refine .inl ⟨takenOf_of_ne (by simp [htaken, hid]), fun x hx => ?_⟩
      rw [hmem]
      constructor
      · rintro (⟨hold, -⟩ | ⟨e', hnext, rfl⟩)
        · exact hold
        · exact absurd ((Event.next?_eq_some hnext).1.symm.trans hx) hid
      · intro hold
        exact .inl ⟨hold, by rintro rfl; exact hid hx⟩

theorem target_le_now_of_taken? (hv : t.queue.Valid) {m : Move κ} {e : Event (Delivery κ)}
    (h : t.taken? m = some e) : e.target ≤ (t.move m).now := by
  obtain ⟨_, -, -, hmove, -⟩ := taken?_eq_some hv h
  rw [hmove, Instant.le_def]
  show e.target.nanos ≤ (t.now.later e.target).nanos
  rw [Instant.nanos_later]
  omega

theorem gone_move (hv : t.queue.Valid) (hgone : ∀ x ∈ t.queue, x.id ≠ id) {m : Move κ}
    (harm : ∀ d interval deliver, m ≠ .arm id d interval deliver) :
    t.takenOf id [m] = [] ∧ ∀ x ∈ (t.move m).queue, x.id ≠ id := by
  have htaken : ∀ e, t.taken? m = some e → e.id ≠ id := by
    intro e he
    obtain ⟨_, -, -, -, hmem, -⟩ := taken?_eq_some hv he
    exact hgone e hmem
  refine ⟨takenOf_of_ne htaken, fun x hx => ?_⟩
  obtain ⟨hold, -⟩ | hnew := (mem_move hv m).mp hx
  · exact hgone x hold
  · cases m with
    | arm other d interval deliver =>
      cases hnew
      rintro rfl
      exact harm d interval deliver rfl
    | popDue limit =>
      obtain ⟨e, he, hnext⟩ := Option.bind_eq_some_iff.mp hnew
      obtain ⟨e', he', rfl⟩ := Option.map_eq_some_iff.mp hnext
      intro hid
      exact htaken e he ((Event.next?_eq_some he').1.symm.trans hid)
    | _ => cases hnew

/-- An id that is not pending stays so and does not fire, unless it is armed. -/
theorem gone_moves (hv : t.queue.Valid) (hgone : ∀ x ∈ t.queue, x.id ≠ id) {ms : List (Move κ)}
    (harm : ∀ d interval deliver, .arm id d interval deliver ∉ ms) :
    t.takenOf id ms = [] ∧ ∀ x ∈ (t.moves ms).queue, x.id ≠ id := by
  induction ms generalizing t with
  | nil => exact ⟨rfl, hgone⟩
  | cons m ms ih =>
    obtain ⟨hnone, hgone'⟩ := gone_move hv hgone fun d interval deliver hm =>
      harm d interval deliver (hm ▸ List.mem_cons_self)
    rw [takenOf_cons, hnone]
    exact ih (valid_move hv m) hgone' fun d interval deliver hin =>
      harm d interval deliver (List.mem_cons_of_mem m hin)

theorem arm_not_mem_of_spares {ms : List (Move κ)} (hms : ∀ m ∈ ms, m.spares id = true)
    (d interval : Delay) (deliver : Delivery κ) : .arm id d interval deliver ∉ ms := by
  intro hin
  have hspares := hms _ hin
  simp [Move.spares] at hspares

end Timeline

namespace Solo

variable {c c' : Solo κ} {id : Nat}

theorem spares_made {d : Deed κ} (hd : d.spares id = true) :
    ∀ m ∈ c.made d, m.spares id = true := by
  intro m hm
  cases d with
  | act m' =>
    rw [made, List.mem_singleton] at hm
    rw [hm]
    exact hd
  | fire =>
    simp only [made] at hm
    split at hm
    · cases hm
    · obtain rfl | hm := List.mem_cons.mp hm
      · rfl
      · split at hm
        · rw [List.mem_singleton.mp hm]
          rfl
        · cases hm
  | finish =>
    rw [made, Option.mem_toList, Option.map_eq_some_iff] at hm
    obtain ⟨a, -, rfl⟩ := hm
    rfl
  | _ => cases hm

theorem spares_story {ds : List (Deed κ)} (hds : ∀ d ∈ ds, d.spares id = true) :
    ∀ m ∈ c.story ds, m.spares id = true := by
  induction ds generalizing c with
  | nil => simp [story]
  | cons d ds ih =>
    rw [List.forall_mem_cons] at hds
    intro m hm
    rw [story, List.mem_append] at hm
    obtain hm | hm := hm
    · exact spares_made hds.1 m hm
    · cases hstep : c.step d with
      | none => simp [hstep] at hm
      | some c₁ =>
        rw [hstep] at hm
        exact ih hds.2 m hm

/-- The event of `id` is later than now, or an advance goes on that has not passed its limit. -/
def Caught (id : Nat) (c : Solo κ) : Prop :=
  (∀ e ∈ c.timeline.queue, e.id = id → c.timeline.now < e.target) ∨
    ∃ a, c.advances.head? = some a ∧ c.timeline.now ≤ a.limit

/-- An advance that returns has fired whatever time has come to. -/
theorem Caught.finish (h : Caught id c) (hv : c.timeline.queue.Valid)
    (hd : c.step .finish = some c') :
    ∀ e ∈ c'.timeline.queue, e.id = id → c'.timeline.now < e.target := by
  obtain ⟨a, rest, hadv, hp, rfl⟩ := step_finish hd
  intro e he hid
  have hlater := (Timeline.popDue_eq_none hv).mp hp e he
  have hnow : (c.timeline.settle a.limit).now.nanos = max c.timeline.now.nanos a.limit.nanos :=
    Instant.nanos_later _ _
  show (c.timeline.settle a.limit).now < e.target
  rw [Instant.lt_def] at hlater ⊢
  obtain hahead | ⟨a', ha', hle⟩ := h
  · have := hahead e he hid
    rw [Instant.lt_def] at this
    omega
  · rw [hadv] at ha'
    cases ha'
    rw [Instant.le_def] at hle
    omega

theorem Caught.step {at_ : Reading} (h : Caught id c) (hsound : Sound at_ c.timeline) {d : Deed κ}
    (hd : c.step d = some c') (hspares : d.spares id = true) (hleave : d.isLeave = false) :
    Caught id c' := by
  cases d with
  | act m =>
    obtain ⟨hm, rfl⟩ := step_act hd
    have hnow : (c.timeline.move m).now = c.timeline.now := now_move hm
    refine h.imp (fun hahead e he hid => ?_) fun ⟨a, ha, hle⟩ => ⟨a, ha, hnow ▸ hle⟩
    have htaken : ∀ e, c.timeline.taken? m ≠ some e := by
      rintro e htaken
      obtain ⟨_, rfl, -⟩ := Timeline.taken?_eq_some hsound.valid htaken
      cases hm
    obtain ⟨-, hsame⟩ | ⟨e, he, -⟩ := Timeline.move_spared hsound.valid hspares
    · show (c.timeline.move m).now < e.target
      rw [hnow]
      exact hahead e ((hsame e hid).mp he) hid
    · exact absurd he (htaken e)
  | advance d =>
    cases hd
    exact .inr ⟨_, rfl, Instant.le_deadline c.timeline.now d⟩
  | fire =>
    obtain ⟨a, rest, f, t, hadv, hp, rfl⟩ := step_fire hd
    obtain ⟨e, -, htaken, rfl, hnow, -⟩ := hsound.popDue hp
    obtain ⟨limit, hlimit, -, -, -, hle, -⟩ := Timeline.taken?_eq_some hsound.valid htaken
    cases hlimit
    refine .inr ⟨a, congrArg List.head? hadv, ?_⟩
    show (handOver t e.firing).now ≤ a.limit
    rw [now_handOver, hnow]
    exact hle
  | finish => exact .inl (h.finish hsound.valid hd)
  | leave => cases hleave

theorem Caught.run {at_ : Reading} (h : Caught id c) (hsound : Sound at_ c.timeline)
    {ds : List (Deed κ)} (hrun : c.run ds = some c') (hspares : ∀ d ∈ ds, d.spares id = true)
    (hleave : ∀ d ∈ ds, d.isLeave = false) : Caught id c' := by
  induction ds generalizing c with
  | nil =>
    cases hrun
    exact h
  | cons d ds ih =>
    rw [List.forall_mem_cons] at hspares hleave
    rw [run_cons] at hrun
    obtain ⟨c₁, hd, hrest⟩ := Option.bind_eq_some_iff.mp hrun
    exact ih (h.step hsound hd hspares.1 hleave.1) (hsound.step hd).1 hrest hspares.2 hleave.2

end Solo

end VirtualClock
