import Mathlib.Data.List.Nodup
import VirtualClock.Proofs.Timeline.Moves

/-! The waiters of a timeline, who wait until a number of events is pending at once. Every waiter
has a number of its own. It stays registered while fewer events are pending than it waits for, and once
it was notified, was cancelled or saw the timeline discarded, it is never registered again. -/

namespace VirtualClock

namespace EventQueue

variable {δ : Type} {q q' : EventQueue δ}

theorem isWaiting_iff {waiter : Nat} : q.isWaiting waiter ↔ ∃ w ∈ q.waiters, w.id = waiter := by
  simp [isWaiting]

theorem wasNotified_iff {waiter : Nat} : q.wasNotified waiter ↔ waiter ∈ q.notified := by
  simp [wasNotified]

/-- No two waiters, registered or notified, have the same number, and none is above the last one. -/
structure Numbered (q : EventQueue δ) : Prop where
  nodup : (q.waiters.map (·.id) ++ q.notified).Nodup
  id_le : ∀ i ∈ q.waiters.map (·.id) ++ q.notified, i ≤ q.lastWaiter

/-- Every registered waiter waits for more events than are pending. -/
structure Attended (q : EventQueue δ) : Prop extends Numbered q where
  lt_count : ∀ w ∈ q.waiters, q.size < w.count

theorem Numbered.eq_of_id (h : Numbered q) {w w' : Waiter} (hw : w ∈ q.waiters)
    (hw' : w' ∈ q.waiters) (hid : w.id = w'.id) : w = w' :=
  List.inj_on_of_nodup_map (List.nodup_append.mp h.nodup).1 hw hw' hid

theorem Numbered.not_mem_notified (h : Numbered q) {w : Waiter} (hw : w ∈ q.waiters) :
    w.id ∉ q.notified := fun hn =>
  (List.nodup_append.mp h.nodup).2.2 w.id (List.mem_map_of_mem hw) w.id hn rfl

theorem attended_empty : Attended ({} : EventQueue δ) where
  nodup := by simp
  id_le := by simp
  lt_count := by simp

/-- A queue with fewer waiters, the same that were notified, and at most as many events. -/
theorem Attended.of_sublist (h : Attended q) (hw : q'.waiters.Sublist q.waiters)
    (hn : q'.notified = q.notified) (hl : q'.lastWaiter = q.lastWaiter) (hsize : q'.size ≤ q.size) :
    Attended q' := by
  have hsub : (q'.waiters.map (·.id) ++ q'.notified).Sublist
      (q.waiters.map (·.id) ++ q.notified) := by
    rw [hn]
    exact (hw.map _).append_right _
  refine ⟨⟨h.nodup.sublist hsub, fun i hi => ?_⟩, fun w hmem => ?_⟩
  · rw [hl]
    exact h.id_le i (hsub.subset hi)
  · exact Nat.lt_of_le_of_lt hsize (h.lt_count w (hw.subset hmem))

/-- Notifying only moves waiters from those registered to those notified. -/
theorem perm_notify (q : EventQueue δ) :
    (q.notify.waiters.map (·.id) ++ q.notify.notified).Perm
      (q.waiters.map (·.id) ++ q.notified) := by
  have hreached : q.waiters.filter (fun w => !decide (q.size < w.count)) =
      q.waiters.filter (·.count ≤ q.size) := by
    refine List.filter_congr fun w _ => ?_
    rw [← decide_not, decide_eq_decide]
    exact Nat.not_lt
  have hsplit := List.filter_append_perm (fun w : Waiter => decide (q.size < w.count)) q.waiters
  rw [hreached] at hsplit
  have hmap := hsplit.map (·.id)
  rw [List.map_append] at hmap
  show (_ ++ (_ ++ q.notified)).Perm _
  rw [← List.append_assoc]
  exact (((List.reverse_perm _).map _).append_left _ |>.trans hmap).append_right _

theorem Numbered.notify (h : Numbered q) : Attended q.notify where
  nodup := (perm_notify q).nodup_iff.mpr h.nodup
  id_le i hi := h.id_le i ((perm_notify q).mem_iff.mp hi)
  lt_count _ hw := of_decide_eq_true (List.mem_filter.mp hw).2

theorem mem_notified_notify {waiter : Nat} :
    waiter ∈ q.notify.notified ↔
      waiter ∈ q.notified ∨ ∃ w ∈ q.waiters, w.id = waiter ∧ w.count ≤ q.size := by
  simp only [notify, List.mem_append, List.mem_map, List.mem_reverse, List.mem_filter,
    decide_eq_true_eq]
  rw [or_comm]
  refine or_congr_right (exists_congr fun w => ?_)
  rw [and_assoc, and_comm (a := w.count ≤ q.size)]

theorem mem_waiters_notify {w : Waiter} :
    w ∈ q.notify.waiters ↔ w ∈ q.waiters ∧ q.size < w.count := by
  simp [notify]

theorem Attended.register (h : Attended q) {count : Nat} {new : Nat × EventQueue δ}
    (hnew : q.register count = some new) : Attended new.2 := by
  rw [EventQueue.register] at hnew
  split at hnew
  · cases hnew
  · rename_i hlt
    cases hnew
    have hfresh : q.lastWaiter + 1 ∉ q.waiters.map (·.id) ++ q.notified := fun hmem =>
      absurd (h.id_le _ hmem) (Nat.not_succ_le_self _)
    let w : Waiter := ⟨q.lastWaiter + 1, count⟩
    have hperm : ((q.waiters ++ [w]).map (·.id) ++ q.notified).Perm
        ((q.lastWaiter + 1) :: (q.waiters.map (·.id) ++ q.notified)) := by
      rw [List.map_append, List.append_assoc]
      exact List.perm_middle
    refine ⟨⟨hperm.nodup_iff.mpr (List.nodup_cons.mpr ⟨hfresh, h.nodup⟩), fun i hi => ?_⟩,
      fun w hw => ?_⟩
    · obtain rfl | hi := List.mem_cons.mp (hperm.mem_iff.mp hi)
      · exact Nat.le_refl _
      · exact Nat.le_succ_of_le (h.id_le i hi)
    · obtain hw | hw := List.mem_append.mp hw
      · exact h.lt_count w hw
      · rw [List.mem_singleton.mp hw]
        exact Nat.not_le.mp hlt

theorem size_without_le (q : EventQueue δ) (e : Event δ) : (q.without e).size ≤ q.size :=
  Std.TreeMap.size_erase_le

theorem size_remove_le (h : Valid q) (id : Nat) : (q.remove id).2.size ≤ q.size := by
  obtain ⟨e, -, -, hr⟩ | ⟨-, hr⟩ := remove_eq h id
  · rw [hr]
    exact size_without_le q e
  · exact Nat.le_of_eq (by rw [hr])

end EventQueue

namespace Timeline

open EventQueue

variable {κ : Type} {t : Timeline κ} {m : Move κ}

/-- What a move does to the waiters. -/
inductive Calls (t : Timeline κ) (m : Move κ) : Prop where
  /-- Nothing is queued, and nobody hears of it. -/
  | quiet (hqueued : t.queued? m = none) (hdiscard : m ≠ .discard)
      (hw : (t.move m).queue.waiters = t.queue.waiters)
      (hn : (t.move m).queue.notified = t.queue.notified)
      (hl : (t.move m).queue.lastWaiter = t.queue.lastWaiter)
      (hsize : (t.move m).queue.size ≤ t.queue.size)
  /-- An event is queued, and the waiters are notified. -/
  | queued (hqueued : (t.queued? m).isSome) (hdiscard : m ≠ .discard) (q : EventQueue (Delivery κ))
      (hq : (t.move m).queue = q.notify) (hw : q.waiters = t.queue.waiters)
      (hn : q.notified = t.queue.notified) (hl : q.lastWaiter = t.queue.lastWaiter)
  | discard (hm : m = .discard)
  | register (count : Nat) (hm : m = .register count) (new : Nat × EventQueue (Delivery κ))
      (hnew : t.queue.register count = some new)
  | cancel (waiter : Nat) (hm : m = .cancel waiter)

theorem waiters_remove (q : EventQueue (Delivery κ)) (id : Nat) :
    (q.remove id).2.waiters = q.waiters ∧ (q.remove id).2.notified = q.notified ∧
      (q.remove id).2.lastWaiter = q.lastWaiter := by
  unfold EventQueue.remove
  split <;> exact ⟨rfl, rfl, rfl⟩

theorem calls_of_queue_eq (hqueued : t.queued? m = none) (hdiscard : m ≠ .discard)
    (hqueue : (t.move m).queue = t.queue) : Calls t m :=
  .quiet hqueued hdiscard (by rw [hqueue]) (by rw [hqueue]) (by rw [hqueue])
    (Nat.le_of_eq (by rw [hqueue]))

theorem calls_popDue (h : t.queue.Valid) (limit : Instant) : Calls t (.popDue limit) := by
  cases hm : t.taken? (.popDue limit) with
  | none =>
    have hmove := move_popDue_of_taken?_eq_none h hm
    exact calls_of_queue_eq (by rw [queued?, hm]; rfl) (by simp) (by rw [hmove])
  | some e =>
    obtain ⟨_, -, -, hmove, -⟩ := taken?_eq_some h hm
    have hqueue : (t.move (.popDue limit)).queue = (t.queue.without e).requeue e := by
      rw [hmove]
      rfl
    rw [requeue_eq] at hqueue
    cases hnext : e.next? with
    | none =>
      rw [hnext] at hqueue
      refine .quiet (by rw [queued?_popDue hm, hnext]; rfl) (by simp) ?_ ?_ ?_ ?_ <;> rw [hqueue]
      · rfl
      · rfl
      · rfl
      · exact size_without_le t.queue e
    | some e' =>
      rw [hnext] at hqueue
      exact .queued (by rw [queued?_popDue hm, hnext]; rfl) (by simp)
        ((t.queue.without e).push e') hqueue rfl rfl rfl

theorem calls_move (h : t.queue.Valid) (m : Move κ) : Calls t m := by
  cases m with
  | arm id delay interval deliver =>
    obtain ⟨hw, hn, hl⟩ := waiters_remove t.queue id
    exact .queued rfl (by simp) ((t.queue.remove id).2.push
      ⟨id, t.now.deadline delay.clamp, 0, interval, deliver⟩) rfl hw hn hl
  | disarm id =>
    obtain ⟨hw, hn, hl⟩ := waiters_remove t.queue id
    exact .quiet rfl (by simp) hw hn hl (size_remove_le h id)
  | popDue limit => exact calls_popDue h limit
  | discard => exact .discard rfl
  | receive id =>
    refine calls_of_queue_eq rfl (by simp) ?_
    rw [move, receive]
    cases t.waiting[id]? <;> rfl
  | register count =>
    cases hnew : t.queue.register count with
    | none =>
      have hmove : t.move (.register count) = t := by rw [move, register, hnew]; rfl
      exact calls_of_queue_eq rfl (by simp) (by rw [hmove])
    | some new => exact .register count rfl new hnew
  | cancel waiter => exact .cancel waiter rfl
  | allocate => exact .quiet rfl (by simp) rfl rfl rfl (Nat.le_refl _)
  | _ => exact calls_of_queue_eq rfl (by simp) rfl

theorem move_register {count : Nat} {new : Nat × EventQueue (Delivery κ)}
    (hnew : t.queue.register count = some new) : (t.move (.register count)).queue = new.2 := by
  rw [move, register, hnew]
  rfl

theorem attended_move (h : t.queue.Valid) (ha : t.queue.Attended) (m : Move κ) :
    (t.move m).queue.Attended := by
  cases calls_move h m with
  | quiet hqueued hdiscard hw hn hl hsize => exact ha.of_sublist (hw ▸ .refl _) hn hl hsize
  | queued hqueued hdiscard q hq hw hn hl =>
    rw [hq]
    refine Numbered.notify ⟨?_, ?_⟩
    · rw [hw, hn]
      exact ha.nodup
    · rw [hw, hn, hl]
      exact ha.id_le
  | discard hm =>
    subst hm
    refine ⟨⟨?_, fun i hi => ha.id_le i (List.mem_append_right _ hi)⟩, fun w hw => by cases hw⟩
    exact (List.nodup_append.mp ha.nodup).2.1
  | register count hm new hnew =>
    subst hm
    rw [move_register hnew]
    exact ha.register hnew
  | cancel waiter hm =>
    subst hm
    exact ha.of_sublist List.filter_sublist rfl rfl (Nat.le_refl _)

theorem attended_moves (h : t.queue.Valid) (ha : t.queue.Attended) (ms : List (Move κ)) :
    (t.moves ms).queue.Attended := by
  induction ms generalizing t with
  | nil => exact ha
  | cons m ms ih => exact ih (valid_move h m) (attended_move h ha m)

theorem lastWaiter_le_move (h : t.queue.Valid) (m : Move κ) :
    t.queue.lastWaiter ≤ (t.move m).queue.lastWaiter := by
  cases calls_move h m with
  | quiet hqueued hdiscard hw hn hl hsize => exact Nat.le_of_eq hl.symm
  | queued hqueued hdiscard q hq hw hn hl =>
    rw [hq]
    exact Nat.le_of_eq hl.symm
  | discard hm =>
    subst hm
    exact Nat.le_refl _
  | register count hm new hnew =>
    subst hm
    rw [move_register hnew]
    rw [EventQueue.register] at hnew
    split at hnew
    · cases hnew
    · cases hnew
      exact Nat.le_succ _
  | cancel waiter hm =>
    subst hm
    exact Nat.le_refl _

theorem lastWaiter_le_moves (h : t.queue.Valid) (ms : List (Move κ)) :
    t.queue.lastWaiter ≤ (t.moves ms).queue.lastWaiter := by
  induction ms generalizing t with
  | nil => exact Nat.le_refl _
  | cons m ms ih => exact Nat.le_trans (lastWaiter_le_move h m) (ih (valid_move h m))

/-! ### One waiter -/

/-- In the course of some moves `count` events are pending when one has been queued, and the
timeline was not discarded before. -/
def Reaches (t : Timeline κ) (count : Nat) (ms : List (Move κ)) : Prop :=
  ∃ before m after, ms = before ++ m :: after ∧ .discard ∉ before ∧
    ((t.moves before).queued? m).isSome ∧ count ≤ (t.moves (before ++ [m])).pending

theorem not_reaches_nil {count : Nat} : ¬t.Reaches count [] := by
  rintro ⟨before, m, after, heq, -⟩
  simp at heq

theorem reaches_cons {count : Nat} {ms : List (Move κ)} :
    t.Reaches count (m :: ms) ↔
      (t.queued? m).isSome ∧ count ≤ (t.move m).pending ∨
        m ≠ .discard ∧ (t.move m).Reaches count ms := by
  constructor
  · rintro ⟨before, m', after, heq, hkept, hqueued, hcount⟩
    obtain _ | ⟨x, before⟩ := before
    · obtain ⟨rfl, rfl⟩ := List.cons.inj heq
      exact .inl ⟨hqueued, hcount⟩
    · obtain ⟨rfl, rfl⟩ := List.cons.inj heq
      rw [List.mem_cons, not_or] at hkept
      obtain ⟨hx, hkept⟩ := hkept
      exact .inr ⟨Ne.symm hx, before, m', after, rfl, hkept, hqueued, hcount⟩
  · rintro (⟨hqueued, hcount⟩ | ⟨hm, before, m', after, rfl, hkept, hqueued, hcount⟩)
    · exact ⟨[], m, ms, rfl, by simp, hqueued, hcount⟩
    · have hkept' : .discard ∉ m :: before := by
        rw [List.mem_cons, not_or]
        exact ⟨Ne.symm hm, hkept⟩
      exact ⟨m :: before, m', after, rfl, hkept', hqueued, hcount⟩

/-- The number was given to a waiter that is not registered any more. -/
structure Gone (t : Timeline κ) (waiter : Nat) : Prop where
  id_le : waiter ≤ t.queue.lastWaiter
  absent : ∀ w ∈ t.queue.waiters, w.id ≠ waiter

theorem Gone.move (h : t.queue.Valid) {waiter : Nat} (hg : t.Gone waiter) (m : Move κ) :
    (t.move m).Gone waiter ∧
      (waiter ∈ (t.move m).queue.notified ↔ waiter ∈ t.queue.notified) := by
  have hle := Nat.le_trans hg.id_le (lastWaiter_le_move h m)
  cases calls_move h m with
  | quiet hqueued hdiscard hw hn hl hsize => exact ⟨⟨hle, hw ▸ hg.absent⟩, by rw [hn]⟩
  | queued hqueued hdiscard q hq hw hn hl =>
    rw [hq, mem_notified_notify, hn]
    refine ⟨⟨hle, fun w hmem => ?_⟩, or_iff_left ?_⟩
    · rw [hq] at hmem
      exact hg.absent w (hw ▸ (mem_waiters_notify.mp hmem).1)
    · rintro ⟨w, hmem, hid, -⟩
      exact hg.absent w (hw ▸ hmem) hid
  | discard hm =>
    subst hm
    exact ⟨⟨hle, fun w hw => by cases hw⟩, .rfl⟩
  | register count hm new hnew =>
    subst hm
    have hqueue := move_register hnew
    rw [EventQueue.register] at hnew
    split at hnew
    · cases hnew
    · cases hnew
      rw [hqueue]
      refine ⟨⟨hle, fun w hw => ?_⟩, .rfl⟩
      rw [hqueue] at hw
      obtain hw | hw := List.mem_append.mp hw
      · exact hg.absent w hw
      · -- A new waiter has a number above all that were given before.
        have hold := hg.id_le
        rw [List.mem_singleton.mp hw]
        simp only [ne_eq]
        omega
  | cancel waiter' hm =>
    subst hm
    exact ⟨⟨hle, fun w hw => hg.absent w (List.mem_filter.mp hw).1⟩, .rfl⟩

theorem Gone.moves (h : t.queue.Valid) {waiter : Nat} (hg : t.Gone waiter) (ms : List (Move κ)) :
    (t.moves ms).Gone waiter ∧
      (waiter ∈ (t.moves ms).queue.notified ↔ waiter ∈ t.queue.notified) := by
  induction ms generalizing t with
  | nil => exact ⟨hg, .rfl⟩
  | cons m ms ih =>
    obtain ⟨hg', hsame⟩ := hg.move h m
    obtain ⟨hg'', hsame'⟩ := ih (valid_move h m) hg'
    exact ⟨hg'', hsame'.trans hsame⟩

theorem Gone.isWaiting {waiter : Nat} (hg : t.Gone waiter) : t.queue.isWaiting waiter = false := by
  rw [Bool.eq_false_iff, ne_eq, isWaiting_iff]
  rintro ⟨w, hw, hid⟩
  exact hg.absent w hw hid

/-- What a move of others means to a registered waiter: it is notified if its count is reached when
an event is queued, it is forgotten if the timeline is discarded, and else it stays. -/
theorem mem_waiters_move (h : t.queue.Valid) (ha : t.queue.Attended) {waiter count : Nat}
    (hw : ⟨waiter, count⟩ ∈ t.queue.waiters) (hm : m ≠ .cancel waiter) :
    ((t.queued? m).isSome ∧ count ≤ (t.move m).pending) ∧ (t.move m).Gone waiter ∧
        waiter ∈ (t.move m).queue.notified ∨
      m = .discard ∧ (t.move m).Gone waiter ∧ waiter ∉ (t.move m).queue.notified ∨
      ¬((t.queued? m).isSome ∧ count ≤ (t.move m).pending) ∧ m ≠ .discard ∧
        ⟨waiter, count⟩ ∈ (t.move m).queue.waiters := by
  have hle : waiter ≤ t.queue.lastWaiter :=
    ha.id_le waiter (List.mem_append_left _ (List.mem_map_of_mem hw))
  cases calls_move h m with
  | quiet hqueued hdiscard hw' hn hl hsize =>
    refine .inr (.inr ⟨?_, hdiscard, hw' ▸ hw⟩)
    rw [hqueued]
    simp
  | queued hqueued hdiscard q hq hw' hn hl =>
    have hsize : (t.move m).pending = q.size := by rw [pending, hq]; rfl
    by_cases hreached : count ≤ q.size
    · refine .inl ⟨⟨hqueued, hsize ▸ hreached⟩, ⟨?_, fun w hmem hid => ?_⟩, ?_⟩
      · rw [hq]
        exact hl ▸ hle
      · rw [hq] at hmem
        obtain ⟨hmem, hlt⟩ := mem_waiters_notify.mp hmem
        -- Another waiter with its number is the same one, which was notified.
        have heq := ha.eq_of_id (hw' ▸ hmem) hw hid
        rw [heq] at hlt
        exact absurd hreached (Nat.not_le.mpr hlt)
      · rw [hq, mem_notified_notify]
        exact .inr ⟨_, hw' ▸ hw, rfl, hreached⟩
    · refine .inr (.inr ⟨fun hr => hreached (hsize ▸ hr.2), hdiscard, ?_⟩)
      rw [hq]
      exact mem_waiters_notify.mpr ⟨hw' ▸ hw, Nat.not_le.mp hreached⟩
  | discard hm' =>
    subst hm'
    exact .inr (.inl ⟨rfl, ⟨hle, fun w hmem => by cases hmem⟩, ha.not_mem_notified hw⟩)
  | register count' hm' new hnew =>
    subst hm'
    refine .inr (.inr ⟨by simp [queued?], by simp, ?_⟩)
    rw [move_register hnew]
    rw [EventQueue.register] at hnew
    split at hnew
    · cases hnew
    · cases hnew
      exact List.mem_append_left _ hw
  | cancel waiter' hm' =>
    subst hm'
    refine .inr (.inr ⟨by simp [queued?], by simp, ?_⟩)
    exact List.mem_filter.mpr ⟨hw, bne_iff_ne.mpr fun hid => hm (by rw [← hid])⟩

/-- A registered waiter is notified exactly if its count is reached before a discard, and it stays
registered as long as neither happens. -/
theorem notified_iff_reaches (h : t.queue.Valid) (ha : t.queue.Attended) {waiter count : Nat}
    (hw : ⟨waiter, count⟩ ∈ t.queue.waiters) {ms : List (Move κ)} (hms : .cancel waiter ∉ ms) :
    (waiter ∈ (t.moves ms).queue.notified ↔ t.Reaches count ms) ∧
      ((t.moves ms).queue.isWaiting waiter ↔ ¬t.Reaches count ms ∧ .discard ∉ ms) := by
  induction ms generalizing t with
  | nil =>
    refine ⟨iff_of_false (ha.not_mem_notified hw) not_reaches_nil, iff_of_true ?_ ?_⟩
    · exact isWaiting_iff.mpr ⟨_, hw, rfl⟩
    · exact ⟨not_reaches_nil, by simp⟩
  | cons m ms ih =>
    rw [List.mem_cons, not_or] at hms
    rw [reaches_cons, moves_cons]
    have hv' := valid_move h m
    obtain ⟨hreached, hgone, hn⟩ | ⟨hdiscard, hgone, hn⟩ | ⟨hreached, hdiscard, hw'⟩ :=
      mem_waiters_move h ha hw (Ne.symm hms.1)
    · obtain ⟨hgone', hsame⟩ := hgone.moves hv' ms
      refine ⟨iff_of_true (hsame.mpr hn) (.inl hreached), iff_of_false ?_ ?_⟩
      · simp [hgone'.isWaiting]
      · exact fun hnot => hnot.1 (.inl hreached)
    · obtain ⟨hgone', hsame⟩ := hgone.moves hv' ms
      subst hdiscard
      refine ⟨iff_of_false (fun hn' => hn (hsame.mp hn')) ?_, iff_of_false ?_ ?_⟩
      · simp [queued?]
      · simp [hgone'.isWaiting]
      · exact fun hnot => hnot.2 List.mem_cons_self
    · obtain ⟨hn, hwaiting⟩ := ih hv' (attended_move h ha m) hw' hms.2
      have hne : Move.discard ≠ m := Ne.symm hdiscard
      rw [hn, hwaiting, List.mem_cons]
      simp only [hreached, hdiscard, hne, ne_eq, not_false_eq_true, true_and, false_or, and_self]

end Timeline

end VirtualClock
