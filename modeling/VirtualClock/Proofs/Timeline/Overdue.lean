import VirtualClock.Proofs.Timeline.Crowd

/-! Events that time has passed over. An advance that found nothing due settles on its limit in a
section of its own, so a timer that another caller arms in between may be left behind. It is the
only way: every other pending event lies ahead, whatever the callers do and in whatever order. -/

namespace VirtualClock

variable {κ : Type}

/-- The event that a use queues. -/
def Timeline.armed? (t : Timeline κ) : Use κ → Option (Event (Delivery κ))
  | .start delay interval deliver =>
    some ⟨t.allocate.1, t.now.deadline delay.clamp, t.queue.sequence + 1, interval, deliver⟩
  | .reset id delay interval deliver =>
    if id ≤ t.queue.lastId then
      some ⟨id, t.now.deadline delay.clamp, t.queue.sequence + 1, interval, deliver⟩
    else none
  | .call _ => none

namespace Timeline

variable {t : Timeline κ} {u : Use κ}

/-- What is armed is not armed for the past. -/
theorem now_le_of_armed? {e : Event (Delivery κ)} (he : t.armed? u = some e) :
    t.now ≤ e.target := by
  cases u with
  | start delay interval deliver =>
    cases he
    exact Instant.le_deadline t.now delay
  | reset id delay interval deliver =>
    rw [armed?] at he
    split at he
    · cases he
      exact Instant.le_deadline t.now delay
    · cases he
  | call m => cases he

/-- What is pending after a use was pending before, or it is armed by the use. -/
theorem mem_use_armed (h : t.queue.Valid) (hu : t.Allows u) {e : Event (Delivery κ)}
    (he : e ∈ (t.use u).queue) : e ∈ t.queue ∨ t.armed? u = some e := by
  cases u with
  | start delay interval deliver =>
    obtain ⟨hold, -⟩ | hnew := (mem_move (valid_move h .allocate) _).mp he
    · exact .inl hold
    · exact .inr hnew
  | reset id delay interval deliver =>
    obtain ⟨hold, -⟩ | hnew := (mem_move h _).mp he
    · exact .inl hold
    · exact .inr ((if_pos hu).trans hnew)
  | call m =>
    obtain ⟨hold, -⟩ | hnew := (mem_move h m).mp he
    · exact .inl hold
    · cases m with
      | arm _ _ _ _ | popDue _ => cases hu
      | _ => cases hnew

/-- No use moves time. -/
theorem now_use (hu : t.Allows u) : (t.use u).now = t.now := by
  cases u with
  | start delay interval deliver => rfl
  | reset id delay interval deliver => rfl
  | call m =>
    refine Solo.now_move ?_
    cases m with
    | popDue _ | settle _ | send _ _ => cases hu
    | _ => rfl

end Timeline

/-- Whether an advance is about to settle past an instant. -/
def Underway.passes (at_ : Instant) (a : Underway κ) : Bool :=
  match a.phase with
  | .settling => at_ < a.limit
  | _ => false

theorem Underway.passes_eq_false_of_le {s t : Instant} (hle : s ≤ t) {a : Underway κ}
    (hs : a.passes s = false) : a.passes t = false := by
  unfold passes at *
  split at hs
  · rw [decide_eq_false_iff_not, Instant.lt_def] at *
    rw [Instant.le_def] at hle
    omega
  · exact hs

namespace Crowd

variable {c : Crowd κ}

/-- The id that a turn arms while some advance is about to settle past its target. -/
def hurried? (c : Crowd κ) : Turn κ → Option Nat
  | .use u =>
    ((c.timeline.armed? u).filter fun e => c.advances.any (·.passes e.target)).map (·.id)
  | _ => none

/-- The ids that some turns arm while some advance is about to settle past their targets. -/
def hurried (c : Crowd κ) : List (Turn κ) → List Nat
  | [] => []
  | x :: xs => (c.hurried? x).toList ++ (c.turn x).hurried xs

theorem hurried_append (c : Crowd κ) (xs ys : List (Turn κ)) :
    c.hurried (xs ++ ys) = c.hurried xs ++ (c.turns xs).hurried ys := by
  induction xs generalizing c with
  | nil => rfl
  | cons x xs ih => rw [List.cons_append, hurried, hurried, ih, turns_cons, List.append_assoc]

/-- Except for the ids in `late`, what is pending lies ahead, and no advance settles past it. -/
structure Ahead (c : Crowd κ) (late : List Nat) : Prop where
  valid : c.timeline.queue.Valid
  now_le : ∀ e ∈ c.timeline.queue, e.id ∉ late → c.timeline.now ≤ e.target
  passes_eq : ∀ e ∈ c.timeline.queue, e.id ∉ late → ∀ a ∈ c.advances, a.passes e.target = false

theorem ahead_start (at_ : Reading) : (start at_ : Crowd κ).Ahead [] where
  valid := Timeline.valid_start at_
  now_le e he := absurd he (Timeline.not_mem_start at_ e)
  passes_eq e _ _ a ha := by cases ha

theorem Ahead.append {late : List Nat} (h : c.Ahead late) (l : List Nat) : c.Ahead (late ++ l) where
  valid := h.valid
  now_le e he hlate := h.now_le e he fun hin => hlate (List.mem_append_left l hin)
  passes_eq e he hlate := h.passes_eq e he fun hin => hlate (List.mem_append_left l hin)

theorem Ahead.use {late : List Nat} (h : c.Ahead late) {u : Use κ} (hu : c.timeline.Allows u) :
    Ahead { c with timeline := c.timeline.use u } (late ++ (c.hurried? (.use u)).toList) := by
  have hnow : (c.timeline.use u).now = c.timeline.now := Timeline.now_use hu
  refine ⟨Timeline.valid_use h.valid u, fun e he hlate => ?_, fun e he hlate a ha => ?_⟩
  · show (c.timeline.use u).now ≤ e.target
    rw [hnow]
    obtain hold | harmed := Timeline.mem_use_armed h.valid hu he
    · exact (h.append _).now_le e hold hlate
    · exact Timeline.now_le_of_armed? harmed
  · obtain hold | harmed := Timeline.mem_use_armed h.valid hu he
    · exact (h.append _).passes_eq e hold hlate a ha
    · -- An advance that passes it would make it late.
      by_contra hpasses
      have hany : c.advances.any (·.passes e.target) = true :=
        List.any_eq_true.mpr ⟨a, ha, by simpa using hpasses⟩
      have hhurried : c.hurried? (.use u) = some e.id := by
        rw [hurried?, harmed, Option.filter_some, if_pos hany]
        rfl
      exact hlate (List.mem_append_right _ (by simp [hhurried]))

theorem Ahead.pop {late : List Nat} (h : c.Ahead late) {limit : Instant} {f : Firing (Delivery κ)}
    {t : Timeline κ} (hp : c.timeline.popDue limit = some (f, t)) (i : Nat) :
    Ahead ⟨t, c.advances.set i ⟨limit, .delivering f⟩⟩ late := by
  obtain ⟨e, -, hmem, -, hleast, rfl, rfl⟩ := Timeline.popDue_eq_some h.valid hp
  have hpopped (x : Event (Delivery κ)) (hx : x ∈ (c.timeline.popped e).queue)
      (hlate : x.id ∉ late) : e.target ≤ x.target ∧ c.timeline.now ≤ x.target ∧
        ∀ a ∈ c.advances, a.passes x.target = false := by
    obtain ⟨hold, hne⟩ | ⟨e', hnext, rfl⟩ := (EventQueue.mem_popped h.valid hmem).mp hx
    · have hkey := OrderKey.lt_iff_nanos.mp (hleast x hold hne)
      refine ⟨?_, h.now_le x hold hlate, h.passes_eq x hold hlate⟩
      rw [Instant.le_def]
      simp only [Event.key] at hkey
      omega
    · -- The next tick is later than the one that is taken.
      obtain ⟨hid, -, -, htick, hpos⟩ := Event.next?_eq_some hnext
      have hlate' : e.id ∉ late := hid ▸ hlate
      have hnow := h.now_le e hmem hlate'
      have hle : e.target ≤ e'.target := by
        rw [Instant.le_def]
        omega
      refine ⟨hle, Int.le_trans hnow hle, fun a ha => ?_⟩
      exact Underway.passes_eq_false_of_le hle (h.passes_eq e hmem hlate' a ha)
  refine ⟨EventQueue.valid_popped h.valid hmem, fun x hx hlate => ?_, fun x hx hlate a ha => ?_⟩
  · obtain ⟨htarget, hnow, -⟩ := hpopped x hx hlate
    show (c.timeline.now.later e.target).nanos ≤ x.target.nanos
    rw [Instant.nanos_later]
    exact Int.max_le.mpr ⟨hnow, htarget⟩
  · obtain ha | rfl := List.mem_or_eq_of_mem_set ha
    · exact (hpopped x hx hlate).2.2 a ha
    · rfl

theorem Steps.ahead {c' : Crowd κ} {x : Turn κ} {late : List Nat} (hs : Steps c x c')
    (h : c.Ahead late) : c'.Ahead (late ++ (c.hurried? x).toList) := by
  have hvalid := hs.valid h.valid
  cases hs with
  | idle x hfired huse hdiscard => exact h.append _
  | use hu => exact h.use hu
  | advance d =>
    refine .append ⟨hvalid, h.now_le, fun e he hlate a ha => ?_⟩ _
    obtain ha | ha := List.mem_append.mp ha
    · exact h.passes_eq e he hlate a ha
    · rw [List.mem_singleton.mp ha]
      rfl
  | pop hi hp => exact (h.pop hp _).append _
  | @rest i limit hi hp =>
    refine .append ⟨hvalid, h.now_le, fun e he hlate a ha => ?_⟩ _
    obtain ha | rfl := List.mem_or_eq_of_mem_set ha
    · exact h.passes_eq e he hlate a ha
    · have hahead := (Timeline.popDue_eq_none h.valid).mp hp e he
      rw [Instant.lt_def] at hahead
      refine decide_eq_false ?_
      show ¬e.target.nanos < limit.nanos
      omega
  | @deliver i limit f hi =>
    refine .append ⟨hvalid, fun e he hlate => ?_, fun e he hlate a ha => ?_⟩ _
    · rw [Solo.now_handOver]
      rw [Timeline.queue_handOver] at he
      exact h.now_le e he hlate
    · rw [Timeline.queue_handOver] at he
      obtain ha | rfl := List.mem_or_eq_of_mem_set ha
      · exact h.passes_eq e he hlate a ha
      · rfl
  | @leave i limit f k hi hk =>
    refine .append ⟨hvalid, h.now_le, fun e he hlate a ha => ?_⟩ _
    exact h.passes_eq e he hlate a (List.mem_of_mem_eraseIdx ha)
  | @settle i limit hi =>
    refine .append ⟨hvalid, fun e he hlate => ?_, fun e he hlate a ha => ?_⟩ _
    · have hpasses : decide (e.target < limit) = false :=
        h.passes_eq e he hlate _ (List.mem_of_getElem? hi)
      have hnow := h.now_le e he hlate
      rw [decide_eq_false_iff_not, Instant.lt_def] at hpasses
      rw [Instant.le_def] at hnow
      show (c.timeline.now.later limit).nanos ≤ e.target.nanos
      rw [Instant.nanos_later]
      omega
    · exact h.passes_eq e he hlate a (List.mem_of_mem_eraseIdx ha)
  | discard =>
    exact ⟨hvalid, fun e he => absurd he EventQueue.mem_clear,
      fun e he => absurd he EventQueue.mem_clear⟩

theorem Ahead.turns {late : List Nat} (h : c.Ahead late) (xs : List (Turn κ)) :
    (c.turns xs).Ahead (late ++ c.hurried xs) := by
  induction xs generalizing c late with
  | nil => exact h.append []
  | cons x xs ih =>
    have hrest := ih ((steps_turn c x).ahead h)
    rw [List.append_assoc] at hrest
    exact hrest

/-- While an advance by 10 is about to settle, a timer is armed for 5. -/
def armedInBetween : List (Turn Nat) :=
  [.advance ⟨10⟩, .look 0, .use (.start ⟨5⟩ .zero .channel), .settle 0]

/-- The advance finds nothing, and settles where the timer is behind. -/
theorem turns_armedInBetween :
    (start default).turns armedInBetween =
      ⟨((Timeline.start default).use (.start ⟨5⟩ .zero .channel)).settle
        ⟨10, by decide, by decide⟩, []⟩ := by
  have hlimit : (Timeline.start default : Timeline Nat).limit ⟨10⟩ =
      ⟨10, by decide, by decide⟩ := rfl
  have hnone : (Timeline.start default : Timeline Nat).popDue ⟨10, by decide, by decide⟩ = none :=
    (Timeline.popDue_eq_none (Timeline.valid_start default)).mpr
      fun e he => absurd he (Timeline.not_mem_start default e)
  have hallows : (Timeline.start default : Timeline Nat).Allows (.start ⟨5⟩ .zero .channel) :=
    trivial
  simp [armedInBetween, turn, start, hlimit, hnone, hallows]

theorem exists_overdue_armedInBetween :
    ∃ e ∈ ((start default).turns armedInBetween).timeline.queue,
      e.target < ((start default).turns armedInBetween).timeline.now := by
  rw [turns_armedInBetween]
  refine ⟨⟨1, ⟨5, by decide, by decide⟩, 1, .zero, .channel⟩, ?_, by decide⟩
  rw [EventQueue.mem_iff]
  rfl

end Crowd

end VirtualClock
