import Mathlib
import VirtualClock.Proofs.Conduct
import VirtualClock.Proofs.Timeline.Solo

/-! Advances of a timeline in a larger state are what a single caller does, whatever else the state
holds and whatever callbacks do to it, as long as they use the timeline in the same way. Fixed runs
are evaluated by `cbv`, here and in the modules that build on this one; the equations that it has of
the operations of state monads are spread over the whole library. -/

namespace VirtualClock

namespace Site

variable {σ κ α β : Type} {site : Site σ κ}

/-- What `x` does to the timeline is done by a single caller, who is in the same advances after it
as before, however it ends. -/
def Acts (site : Site σ κ) (x : Act σ α) : Prop :=
  ∀ s as, ∃ ds,
    (⟨site.timeline s, as⟩ : Solo κ).run ds = some ⟨site.timeline (x s).2, as⟩

/-- A single caller of the timeline beside the states that hold it, whose place is the advances that
the caller is in. -/
def solo (site : Site σ κ) : Conduct σ (List Advancing) where
  Leads as s as' s' := ∃ ds,
    (⟨site.timeline s, as⟩ : Solo κ).run ds = some ⟨site.timeline s', as'⟩
  Follows _ := True
  refl _ _ := ⟨[], rfl⟩
  trans := by
    rintro as as' as'' s s' s'' ⟨ds, hrun⟩ ⟨ds', hrun'⟩
    exact ⟨ds ++ ds', (Solo.run_of_append hrun).trans hrun'⟩

theorem acts_iff {x : Act σ α} : site.Acts x ↔ site.solo.Acts x := by
  rw [Conduct.acts_iff]
  exact ⟨fun h as s _ => h s as, fun h s as => h as s fun _ _ => trivial⟩

theorem acts_pure (a : α) : site.Acts (pure a) := acts_iff.mpr (Conduct.acts_pure a)

theorem acts_throw (stop : Stop) : site.Acts (throw stop : Act σ α) :=
  acts_iff.mpr (Conduct.acts_throw stop)

theorem acts_modify {f : σ → σ} (h : ∀ s, site.timeline (f s) = site.timeline s ∨
    ∃ m : Move κ, m.isInner = false ∧ site.timeline (f s) = (site.timeline s).move m) :
    site.Acts (modify f) := by
  refine acts_iff.mpr (Conduct.acts_modify fun as s => ?_)
  obtain heq | ⟨m, hm, heq⟩ := h s
  · exact ⟨[], by rw [heq]; rfl⟩
  · refine ⟨[.act m], ?_⟩
    rw [heq, Solo.run_cons, Solo.step, hm]
    rfl

theorem Acts.bind {x : Act σ α} {f : α → Act σ β} (hx : site.Acts x) (hf : ∀ a, site.Acts (f a)) :
    site.Acts (x >>= f) :=
  acts_iff.mpr ((acts_iff.mp hx).bind fun a => acts_iff.mp (hf a))

/-- The caller fires what goes to a channel. -/
theorem run_fire_send (site : Site σ κ) {a : Advancing} {s : σ} {f : Firing (Delivery κ)}
    {t : Timeline κ} (hp : (site.timeline s).popDue a.limit = some (f, t))
    (hto : f.deliver = .channel) (as : List Advancing) :
    (⟨site.timeline s, a :: as⟩ : Solo κ).run [.fire] = some ⟨site.timeline (site.update
      ((site.timeline (site.record (site.firing f) (site.update t s))).send f.id f.at_)
      (site.record (site.firing f) (site.update t s))), a :: as⟩ := by
  rw [site.timeline_update, site.timeline_record, site.timeline_update, Solo.run_cons]
  simp only [Solo.step, hp, Option.map_some, Solo.handOver, hto]
  rfl

/-- The caller fires what goes to a callback. What the callback does follows. -/
theorem run_fire_call (site : Site σ κ) {a : Advancing} {s : σ} {f : Firing (Delivery κ)}
    {t : Timeline κ} {k : κ} (hp : (site.timeline s).popDue a.limit = some (f, t))
    (hto : f.deliver = .callback k) (as : List Advancing) :
    (⟨site.timeline s, a :: as⟩ : Solo κ).run [.fire] =
      some ⟨site.timeline (site.record (site.firing f) (site.update t s)), a :: as⟩ := by
  rw [site.timeline_record, site.timeline_update, Solo.run_cons]
  simp only [Solo.step, hp, Option.map_some, Solo.handOver, hto]
  rfl

theorem step_finish (site : Site σ κ) {a : Advancing} {s : σ}
    (hp : (site.timeline s).popDue a.limit = none) (as : List Advancing) :
    (⟨site.timeline s, a :: as⟩ : Solo κ).step .finish =
      some ⟨(site.timeline s).settle a.limit, as⟩ := by
  simp [Solo.step, hp]

theorem solo_loops (site : Site σ κ) (a : Advancing) (as : List Advancing) :
    site.solo.Loops site a.limit as (a :: as) fun _ => a :: as where
  send hp hto := ⟨[.fire], site.run_fire_send hp hto as⟩
  call hp hto := ⟨[.fire], site.run_fire_call hp hto as⟩
  back s _ := site.solo.refl _ s
  leave _ _ _ := ⟨[.leave], rfl⟩
  exhausted _ _ := ⟨[.leave], rfl⟩

/-- An advance is what a single caller does, and when it returns it found nothing left to fire. -/
theorem advance_run {call : κ → Act σ Unit} (hcall : ∀ k, site.Acts (call k))
    (as : List Advancing) (fuel : Nat) (d : Delay) (s : σ) :
    ∃ ds, (⟨site.timeline s, as⟩ : Solo κ).run (.advance d :: ds) =
        some ⟨site.timeline (site.advance call fuel d s).2, as⟩ ∧
      ∀ r, (site.advance call fuel d s).1 = .ok r →
        r = (site.timeline (site.advance call fuel d s).2).elapsed ∧
        ∃ c ds', (⟨site.timeline s, as⟩ : Solo κ).run (.advance d :: ds') = some c ∧
          c.step .finish = some ⟨site.timeline (site.advance call fuel d s).2, as⟩ ∧
          c.advances = ⟨(site.timeline s).now, d⟩ :: as := by
  let a : Advancing := ⟨(site.timeline s).now, d⟩
  have hbegin (ds : List (Deed κ)) : (⟨site.timeline s, as⟩ : Solo κ).run (.advance d :: ds) =
      (⟨site.timeline (site.entered d s), a :: as⟩ : Solo κ).run ds := by
    rw [timeline_entered, Solo.run_cons]
    rfl
  obtain ⟨hreturned, hstopped⟩ :=
    (solo_loops site a as).advance (d := d) (fun k => acts_iff.mp (hcall k)) fuel
  cases hz : (site.advance call fuel d s).1 with
  | error stop =>
    obtain ⟨ds, hrun⟩ := hstopped stop hz trivial
    exact ⟨ds, (hbegin ds).trans hrun, fun r h => by cases h⟩
  | ok result =>
    obtain ⟨fired, s', ⟨ds, hrun⟩, hdone, hadvance⟩ := hreturned result hz
    have hfinish := site.step_finish (a := a) hdone as
    rw [hadvance] at hz ⊢
    simp only [timeline_settled]
    refine ⟨ds ++ [.finish], ?_, fun r h => ⟨?_, _, ds, (hbegin ds).trans hrun, hfinish, rfl⟩⟩
    · rw [hbegin, Solo.run_of_append hrun, Solo.run_cons, hfinish]
      rfl
    · exact (Except.ok.inj h).symm.trans (Except.ok.inj hz).symm

/-- Callbacks may advance the timeline they are called from. -/
theorem acts_advance {call : κ → Act σ Unit} (hcall : ∀ k, site.Acts (call k)) (fuel : Nat)
    (d : Delay) : site.Acts (site.advance call fuel d) := by
  intro s as
  obtain ⟨ds, hrun, -⟩ := advance_run hcall as fuel d s
  exact ⟨_, hrun⟩

/-- A timeline with nothing around it. -/
def alone : Site (Timeline κ) κ where
  timeline t := t
  update t _ := t
  record _ t := t
  stamp _ := ""
  timeline_update _ _ := rfl
  timeline_record _ _ := rfl

/-- A callback that arms its timer again, one that advances further, and one that panics. -/
def unruly : Nat → Act (Timeline Nat) Unit
  | 0 => modify fun t => (t.resetTimer 1 ⟨5⟩ (.callback 0)).2
  | 1 => alone.advance (fun _ => pure ()) 10 ⟨6⟩ >>= fun _ => pure ()
  | _ => throw (.panic "out of order")

/-- The timers of the `unruly` callbacks are armed for 5, 7 and 20 ns. -/
def arms : List (Move Nat) :=
  [.arm 1 ⟨5⟩ .zero (.callback 0), .arm 2 ⟨7⟩ .zero (.callback 1), .arm 3 ⟨20⟩ .zero (.callback 2)]

theorem acts_unruly : ∀ k, alone.Acts (unruly k)
  | 0 => acts_modify fun _ => .inr ⟨.arm 1 ⟨5⟩ .zero (.callback 0), rfl, rfl⟩
  | 1 => (acts_advance (fun _ => acts_pure ()) 10 ⟨6⟩).bind fun _ => acts_pure ()
  | _ + 2 => acts_throw _

end Site

end VirtualClock
