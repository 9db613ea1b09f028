import VirtualClock.Clocks

/-! What freezing does to the sources of the providers and to the timelines. -/

namespace VirtualClock.Clocks

variable {κ : Type}

theorem source_setTimeline (c : Clocks κ) (s : Source) (t : Timeline κ) (p : Nat) :
    (c.setTimeline s t).source p = c.source p := by
  cases s <;> rfl

theorem source_swap (c : Clocks κ) (p : Nat) (s : Source) : (c.swap p s).2.source p = s := by
  simp [source, provider, swap]

theorem timeline_swap (c : Clocks κ) (p : Nat) (s s' : Source) :
    (c.swap p s).2.timeline s' = c.timeline s' := by
  cases s' <;> rfl

theorem timeline_newTimeline (c : Clocks κ) (at_ : Reading) :
    (c.newTimeline at_).2.timeline (c.newTimeline at_).1 = .start at_ := by
  simp [newTimeline, timeline]

theorem source_discard (c : Clocks κ) (s : Source) (p : Nat) :
    (c.discard s).2.source p = c.source p := by
  cases s <;> rfl

theorem timeline_discard (c : Clocks κ) (i : Nat) :
    (c.discard (.frozen i)).2.timeline (.frozen i) = (c.timeline (.frozen i)).discard.2 :=
  timeline_setTimeline c (.frozen i) _

theorem timeline_discard_ne (c : Clocks κ) {s s' : Source} (h : s' ≠ s) :
    (c.discard s).2.timeline s' = c.timeline s' := by
  cases s with
  | real => rfl
  | frozen i => exact timeline_setTimeline_ne c h _

/-- A freeze installs a timeline of a new number. -/
theorem source_freeze (c : Clocks κ) (p : Nat) (r : Reading) :
    (c.freeze p r).2.source p = .frozen (c.lastTimeline + 1) :=
  (source_discard _ _ p).trans (source_swap _ p _)

/-- The timeline that a freeze installs is fresh, even if its number was in use. -/
theorem timeline_freeze (c : Clocks κ) (p : Nat) (r : Reading) :
    (c.freeze p r).2.timeline (.frozen (c.lastTimeline + 1)) = .start r := by
  let c₁ := ((c.newTimeline r).2.swap p (.frozen (c.lastTimeline + 1))).2
  have hfresh : c₁.timeline (.frozen (c.lastTimeline + 1)) = .start r :=
    (timeline_swap _ p _ _).trans (timeline_newTimeline c r)
  show (c₁.discard (c.source p)).2.timeline _ = _
  by_cases hprevious : Source.frozen (c.lastTimeline + 1) = c.source p
  · rw [← hprevious, timeline_discard, hfresh]
    rfl
  · rw [timeline_discard_ne c₁ hprevious, hfresh]

theorem source_swap_ne (c : Clocks κ) {p p' : Nat} (h : p' ≠ p) (s : Source) :
    (c.swap p s).2.source p' = c.source p' := by
  have hne : ¬p = p' := fun heq => h heq.symm
  simp [source, provider, swap, Std.TreeMap.getD_insert, hne]

theorem timeline_newTimeline_ne (c : Clocks κ) (at_ : Reading) {s : Source}
    (h : s ≠ .frozen (c.lastTimeline + 1)) : (c.newTimeline at_).2.timeline s = c.timeline s := by
  cases s with
  | real => rfl
  | frozen i =>
    have hne : ¬c.lastTimeline + 1 = i := fun heq => h (by rw [heq])
    simp [newTimeline, timeline, Std.TreeMap.getD_insert, hne]

theorem lastProvider_setTimeline (c : Clocks κ) (s : Source) (t : Timeline κ) :
    (c.setTimeline s t).lastProvider = c.lastProvider := by
  cases s <;> rfl

theorem source_newProvider (c : Clocks κ) (guard : GuardMode) (p : Nat) :
    (c.newProvider guard).2.source p = if p = c.lastProvider + 1 then .real else c.source p := by
  by_cases h : p = c.lastProvider + 1
  · simp [newProvider, source, provider, h]
  · have h' : ¬c.lastProvider + 1 = p := fun heq => h heq.symm
    simp [newProvider, source, provider, Std.TreeMap.getD_insert, h, h']

/-- Installs a fresh frozen timeline that starts at a reading, or goes back to real time. The source
that was installed is not discarded. -/
def exchange (c : Clocks κ) (p : Nat) : Option Reading → Clocks κ
  | some r => ((c.newTimeline r).2.swap p (c.newTimeline r).1).2
  | none => (c.swap p .real).2

theorem timeline_exchange (c : Clocks κ) (p : Nat) (r : Reading) :
    (c.exchange p (some r)).timeline (.frozen (c.lastTimeline + 1)) = .start r :=
  (timeline_swap _ p _ _).trans (timeline_newTimeline c r)

theorem timeline_exchange_ne (c : Clocks κ) (p : Nat) (at_ : Option Reading) {s : Source}
    (hnew : at_.isSome → s ≠ .frozen (c.lastTimeline + 1)) :
    (c.exchange p at_).timeline s = c.timeline s := by
  cases at_ with
  | none => exact timeline_swap c p .real s
  | some r => exact (timeline_swap _ p _ s).trans (timeline_newTimeline_ne c r (hnew rfl))

theorem source_exchange (c : Clocks κ) (p : Nat) (at_ : Option Reading) :
    (c.exchange p at_).source p = at_.elim .real fun _ => .frozen (c.lastTimeline + 1) := by
  cases at_ with
  | none => exact source_swap c p .real
  | some r => exact source_swap _ p _

theorem source_exchange_ne (c : Clocks κ) {p p' : Nat} (h : p' ≠ p) (at_ : Option Reading) :
    (c.exchange p at_).source p' = c.source p' := by
  cases at_ with
  | none => exact source_swap_ne c h .real
  | some r => exact source_swap_ne _ h _

theorem lastTimeline_exchange (c : Clocks κ) (p : Nat) (at_ : Option Reading) :
    (c.exchange p at_).lastTimeline = c.lastTimeline + at_.toList.length := by
  cases at_ <;> rfl

theorem lastProvider_exchange (c : Clocks κ) (p : Nat) (at_ : Option Reading) :
    (c.exchange p at_).lastProvider = c.lastProvider := by
  cases at_ <;> rfl

/-- The exchange itself does nothing to the timelines that there were. -/
theorem timeline_discard_exchange (c : Clocks κ) (p : Nat) (at_ : Option Reading) {s : Source}
    (hnew : at_.isSome → s ≠ .frozen (c.lastTimeline + 1)) :
    ((c.exchange p at_).discard (c.source p)).2.timeline s =
      (c.discard (c.source p)).2.timeline s := by
  have hold := timeline_exchange_ne c p at_ hnew
  by_cases hs : s = c.source p
  · cases s with
    | real =>
      rw [← hs]
      exact hold
    | frozen i => rw [← hs, timeline_discard, timeline_discard, hold]
  · rw [timeline_discard_ne _ hs, timeline_discard_ne c hs, hold]

theorem lastTimeline_discard (c : Clocks κ) (s : Source) :
    (c.discard s).2.lastTimeline = c.lastTimeline := by
  cases s <;> rfl

/-- A freeze does to the other timelines what it does to the one that it replaces. -/
theorem timeline_freeze_ne (c : Clocks κ) (p : Nat) (r : Reading) {s : Source}
    (h : s ≠ .frozen (c.lastTimeline + 1)) :
    (c.freeze p r).2.timeline s = (c.discard (c.source p)).2.timeline s :=
  timeline_discard_exchange c p (some r) fun _ => h

theorem source_freeze_ne (c : Clocks κ) {p p' : Nat} (h : p' ≠ p) (r : Reading) :
    (c.freeze p r).2.source p' = c.source p' :=
  (source_discard _ _ p').trans (source_swap_ne _ h _)

theorem source_unfreeze (c : Clocks κ) (p : Nat) : (c.unfreeze p).2.source p = .real :=
  (source_discard _ _ p).trans (source_swap c p .real)

theorem source_unfreeze_ne (c : Clocks κ) {p p' : Nat} (h : p' ≠ p) :
    (c.unfreeze p).2.source p' = c.source p' :=
  (source_discard _ _ p').trans (source_swap_ne c h .real)

theorem timeline_unfreeze (c : Clocks κ) (p : Nat) (s : Source) :
    (c.unfreeze p).2.timeline s = (c.discard (c.source p)).2.timeline s :=
  timeline_discard_exchange c p none fun h => absurd h Bool.false_ne_true

end VirtualClock.Clocks
