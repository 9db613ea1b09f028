import VirtualClock.Proofs.Script.Run
import VirtualClock.Proofs.Timeline.Channels

/-! Sleeping on a frozen clock. A thread that sleeps waits for the value of a channel of its own, so
it is released as every receiver is: by the firing of its event, or when nothing is left that could
send. -/

namespace VirtualClock.Script

variable {s : Session}

/-- A thread that is to sleep for a positive delay starts a timer and waits for its channel. -/
theorem Exec.startSleep_frozen {i : Nat} {d : Delay} (hd : 0 < d.nanos) :
    startSleep (.frozen i) d s =
      (.ok (.ok (.asleep (.frozen i) ((s.clocks.timeline (.frozen i)).startTimer d .channel).1)),
        s.update (.frozen i) ((s.clocks.timeline (.frozen i)).startTimer d .channel).2) := by
  rw [startSleep, if_neg (Int.not_le.mpr hd)]
  rfl

/-- A thread sleeps on while its channel is empty and its event pending. -/
theorem Session.result?_asleep_eq_none {q : Source} {id : Nat} :
    s.result? (.asleep q id) = none ↔ (s.clocks.timeline q).waiting[id]? = none ∧
      (s.clocks.timeline q).queue.isPending id = true := by
  rw [← Timeline.isReady_eq_false_iff, result?]
  cases (s.clocks.timeline q).isReady id false <;> simp

/-- Who receives from a channel, and who sleeps, is released exactly on time, whatever turns others
take before the channel is handed out, while it is, and afterwards. -/
theorem released_on_time (at_ : Reading) (before between after : List (Turn Nat)) (d : Delay)
    (hothers : ∀ x ∈ between ++ after,
      ¬x.Handles ((Crowd.start at_).turns before).timeline.allocate.1) :
    let c : Crowd Nat := (Crowd.start at_).turns before
    let id := c.timeline.allocate.1
    let now := (c.allocated between).timeline.now
    let due := now.deadline d.clamp
    (c.opened between d .zero).Once id due after ∧
    due.nanos = min (now.nanos + max d.nanos 0) Instant.last.nanos ∧
    (0 < d.nanos → c.timeline.startTicker d = .ok (id, (c.opened [] d d).timeline) ∧
      (c.opened between d d).Ticks id d after) ∧
    ∀ i s, s.clocks.timeline (.frozen i) = c.timeline → 0 < d.nanos →
      Exec.startSleep (.frozen i) d s = (.ok (.ok (.asleep (.frozen i) id)),
        s.update (.frozen i) (c.opened [] d .zero).timeline) ∧
      ∀ s' : Session, let c' := (c.opened [] d .zero).turns after
        s'.clocks.timeline (.frozen i) = c'.timeline → .use (.call (.receive id)) ∉ after →
        c'.carried id = [] →
        (s'.result? (.asleep (.frozen i) id) = none ↔ c'.timeline.queue.isPending id = true) := by
  intro c id now due
  rw [List.forall_mem_append] at hothers
  have hc : c.Tended := (Crowd.tended_start at_).turns before
  -- Nobody uses the id until it is armed.
  have hunused (between : List (Turn Nat)) (hbetween : ∀ x ∈ between, ¬x.Handles id) :
      (c.allocated between).Unused id ∧ (c.allocated between).timeline.queue.Valid := by
    have hvalid := ((Crowd.steps_turn c (.use (.call .allocate))).tended hc).timeline.valid
    exact ⟨hc.unused.turns hvalid hbetween, Crowd.valid_turns hvalid between⟩
  have hopened (between : List (Turn Nat)) (hbetween : ∀ x ∈ between, ¬x.Handles id) :
      (c.opened between d .zero).Once id ((c.allocated between).timeline.now.deadline d.clamp)
        after := by
    obtain ⟨hu, hvalid⟩ := hunused between hbetween
    obtain ⟨hconnected, hpromised⟩ := hu.armed hvalid d .zero
    exact Crowd.once_of_promised ((Crowd.steps_turn _ _).valid hvalid) hconnected hpromised
      hothers.2
  refine ⟨hopened between hothers.1, Instant.nanos_deadline_clamp now d, fun hd => ?_, ?_⟩
  · obtain ⟨hu, hvalid⟩ := hunused between hothers.1
    exact ⟨c.startTicker_eq_opened hd, Crowd.ticks_of_connected
      ((Crowd.steps_turn _ _).valid hvalid) hd (hu.armed hvalid d d).1 hothers.2⟩
  · intro i s hs hd
    refine ⟨?_, fun s' => ?_⟩
    · rw [Exec.startSleep_frozen hd, hs, c.startTimer_eq_opened]
    · intro c' hs' halone hcarried
      have honce := hopened [] (by simp)
      rw [Session.result?_asleep_eq_none, hs']
      exact (honce.empty_iff hcarried).symm.trans (honce.blocked_iff halone hcarried)

/-- A clock with a callback that is due at 3. -/
def withCallback : List (Turn Nat) := [.use (.start ⟨3⟩ .zero (.callback 0))]

/-- Some caller advances to 1. -/
def aMoment : List (Turn Nat) := [.advance ⟨1⟩, .look 0, .settle 0]

/-- In an advance the callback is called, and makes an advance of its own before it returns. -/
def nestedAdvance : List (Turn Nat) :=
  [.advance ⟨10⟩, .look 0, .advance ⟨7⟩, .look 1, .deliver 1, .look 1, .settle 1, .deliver 0,
    .look 0, .settle 0]

/-- A channel that is handed out while another caller advances has its value once the advance of a
callback is over. A ticker has gone on by then, and a sleeper is awake. -/
theorem released_on_time_nested :
    (∀ x ∈ aMoment ++ nestedAdvance, ¬x.Handles 2) ∧
    ∃ c : Crowd Nat, c = (Crowd.start default).turns withCallback ∧
      (∃ due, due.nanos = 6 ∧
        ((c.opened aMoment ⟨5⟩ .zero).turns nestedAdvance).found 2 = .got due) ∧
      (∀ at_ ∈ (c.opened aMoment ⟨5⟩ ⟨5⟩).firings 2 nestedAdvance, at_.add? ⟨5⟩ ≠ none) ∧
      ∃ s s' : Session, ∃ thread, Exec.startSleep (.frozen 1) ⟨5⟩ s = (.ok (.ok thread), s') ∧
        s'.clocks.timeline (.frozen 1) = (c.opened [] ⟨5⟩ .zero).timeline ∧
        ∀ s'' : Session, s''.clocks.timeline (.frozen 1) =
          ((c.opened [] ⟨5⟩ .zero).turns nestedAdvance).timeline → s''.result? thread ≠ none := by
  have hothers : ∀ x ∈ aMoment ++ nestedAdvance, ¬x.Handles 2 := by
    simp [aMoment, nestedAdvance, Turn.Handles]
  obtain ⟨honce, hdue, hticks, hsleep⟩ :=
    released_on_time default withCallback aMoment nestedAdvance ⟨5⟩ hothers
  have hid : ((Crowd.start default : Crowd Nat).turns withCallback).timeline.allocate.1 = 2 := rfl
  rw [hid] at honce hticks hsleep
  generalize hc : (Crowd.start default : Crowd Nat).turns withCallback = c at *
  refine ⟨hothers, c, rfl, ⟨_, hdue.trans ?_, ?_⟩, ?_, ?_⟩
  · subst hc
    cbv
  · obtain ⟨v, hv⟩ : ∃ v, ((c.opened aMoment ⟨5⟩ .zero).turns nestedAdvance).timeline.waiting[2]? =
        some v := by
      refine Option.isSome_iff_exists.mp ?_
      subst hc
      cbv
    rw [← honce.slot_eq v hv]
    exact (honce.got_iff v).mpr hv
  · intro at_ hat hlast
    have hgone := (hticks (by decide)).2.gone_iff.mpr (.inr ⟨at_, hat, hlast⟩)
    have hpending : ((c.opened aMoment ⟨5⟩ ⟨5⟩).turns nestedAdvance).timeline.queue.isPending 2 =
        true := by
      subst hc
      cbv
    exact Bool.false_ne_true (hgone.symm.trans hpending)
  · let s : Session := (Session.start default .locked).update (.frozen 1) c.timeline
    have hs : s.clocks.timeline (.frozen 1) = c.timeline :=
      Clocks.timeline_setTimeline _ (.frozen 1) _
    obtain ⟨hcall, hasleep⟩ := hsleep 1 s hs (by decide)
    refine ⟨s, _, _, hcall, Clocks.timeline_setTimeline _ (.frozen 1) _, fun s'' hs'' => ?_⟩
    have hfired : ((c.opened [] ⟨5⟩ .zero).turns nestedAdvance).timeline.queue.isPending 2 =
        false := by
      subst hc
      cbv
    rw [ne_eq, hasleep s'' hs'' (by simp [nestedAdvance]), hfired]
    · exact Bool.false_ne_true
    · subst hc
      cbv

end VirtualClock.Script
