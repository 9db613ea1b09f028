import VirtualClock.Proofs.Process.Replaced
import VirtualClock.Proofs.Script.Run

/-! Freezing and unfreezing in running programs: by a step, in a callback of an advance, and at the
end of a scope, which unfreezes even if its steps panic. -/

namespace VirtualClock

namespace Script.Exec

theorem onClocks_apply (f : Clocks Nat → List LogEvent × Clocks Nat) (s : Session) :
    onClocks f s = (.ok (.ok ()), s.commit (f s.clocks)) := rfl

/-- However the steps of a scope end, the scope ends with an unfreeze. -/
theorem scoped_apply (r : Runner) (s : Session) (p : Nat) (t : Instant) (steps : List Step) :
    command r (.provider p) (.scoped (some t) steps) s =
      match r.scope steps (s.commit (s.clocks.install p (some t.reading))) with
      | (.ok reports, s₁) => (.ok (.ok (.scope reports)), s₁.commit (s₁.clocks.install p none))
      | (.error stop, s₁) => (.error stop, s₁.commit (s₁.clocks.install p none)) := by
  rw [command]
  refine (bind_of_ok (show provider (.provider p) s = (.ok (.ok p), s) from rfl)).trans ?_
  refine (bind_of_ok (show operand "at" (some t) s = (.ok (.ok t), s) from rfl)).trans ?_
  refine (bind_of_ok (onClocks_apply _ s)).trans ?_
  refine (bind_of_ok (attempt_apply _ _)).trans ?_
  refine (bind_of_ok (onClocks_apply _ _)).trans ?_
  simp only [Clocks.install]
  obtain ⟨x, s₁⟩ := r.scope steps (s.commit (s.clocks.freeze p t.reading))
  cases x <;> rfl

/-- The steps of a scope are done by the thread of a process between the freeze and the unfreeze. -/
theorem scoped_run (fuel depth : Nat) {s : Session} {as : List (Source × Advancing)}
    (hs : s.Proper) (hsane : Process.Sane ⟨s.clocks, as⟩) (p : Nat) (t : Instant)
    (steps : List Step) :
    ∃ ys, ∃ s₁ : Session, (⟨s.clocks, as⟩ : Process Nat).run (.install p (some t.reading) :: ys) =
        some ⟨s₁.clocks, as⟩ ∧
      (command ⟨runCallback fuel depth, runScope fuel depth, fuel⟩ (.provider p)
        (.scoped (some t) steps) s).2 = s₁.commit (s₁.clocks.install p none) := by
  have hfreeze := Session.leads_install (s := s) p (some t.reading)
  have hscope := (acts_runner fuel depth).scope steps
    (s.commit (s.clocks.install p (some t.reading)))
  have hstep : (⟨s.clocks, as⟩ : Process Nat).step (.install p (some t.reading)) =
      some ⟨(s.clocks.install p (some t.reading)).2, as⟩ := rfl
  obtain ⟨-, ys, hrun⟩ := hscope as (hfreeze as hs hsane).1 (hsane.step hstep)
  refine ⟨ys, _, hrun, ?_⟩
  rw [scoped_apply]
  dsimp only
  generalize runScope fuel depth steps (s.commit (s.clocks.install p (some t.reading))) = y
  obtain ⟨x, s₁⟩ := y
  cases x <;> rfl

end Script.Exec

namespace Process

/-- In every run of a single thread, a freeze or an unfreeze of a provider replaces its source, also
in a callback of an advance of that source, and `Replaced` says what holds from then on. An advance
is such a run, whatever its callbacks do: it returns the time that has passed on the timeline on
which it began, replaced or not. A scope is such a run too, from a freeze to an unfreeze, whether
its steps return or panic. -/
theorem replaced_never_fires {origin : Instant} {xs : List (Action Nat)} {c : Process Nat}
    (hrun : (start origin).run xs = some c) (p : Nat) (at_ : Option Reading) :
    (∃ c', c.step (.install p at_) = some c' ∧ Replaced p at_ c c') ∧
    (∀ {σ : Type} (b : Base σ Nat) (call : Nat → Act σ Unit), (∀ k, b.Acts (call k)) →
      ∀ (fuel : Nat) (d : Delay) (s : σ) (i : Nat), b.Proper s → b.clocks s = c.clocks →
        c.clocks.Knows (.frozen i) →
        (∃ ys, c.run (.advance (.frozen i) d :: ys) =
          some ⟨b.clocks ((b.site (.frozen i)).advance call fuel d s).2, c.advances⟩) ∧
        ∀ r, ((b.site (.frozen i)).advance call fuel d s).1 = .ok r →
          r = ((b.clocks ((b.site (.frozen i)).advance call fuel d s).2).timeline
            (.frozen i)).elapsed) ∧
    ∀ (fuel depth : Nat) (s : Script.Session), s.Proper → s.clocks = c.clocks →
      let r : Script.Exec.Runner :=
        ⟨Script.runCallback fuel depth, Script.runScope fuel depth, fuel⟩
      (∀ t, (Script.Exec.command r (.provider p) (.freeze (some t)) s).2 =
        s.commit (s.clocks.install p (some t.reading))) ∧
      (Script.Exec.command r (.provider p) .unfreeze s).2 = s.commit (s.clocks.install p none) ∧
      (∀ t, (Script.Exec.command r (.provider p) (.freezeUnfreeze (some t)) s).2 =
        (s.commit (s.clocks.install p (some t.reading))).commit
          ((s.clocks.install p (some t.reading)).2.install p none)) ∧
      ∀ t steps, ∃ ys, ∃ s₁ : Script.Session, c.run (.install p (some t.reading) :: ys) =
          some ⟨s₁.clocks, c.advances⟩ ∧
        Replaced p none ⟨s₁.clocks, c.advances⟩ ⟨(s₁.clocks.install p none).2, c.advances⟩ ∧
        (Script.Exec.command r (.provider p) (.scoped (some t) steps) s).2 =
          s₁.commit (s₁.clocks.install p none) := by
  have hs : Sane c := (sane_start origin).run hrun
  refine ⟨⟨_, rfl, hs.replaced p at_⟩, ?_, ?_⟩
  · intro σ b call hcall fuel d s i hp hclocks hknown
    rw [← hclocks] at hknown
    have hsane : Sane ⟨b.clocks s, c.advances⟩ := by
      rw [hclocks]
      exact hs
    obtain ⟨-, hadvance, hreturn⟩ :=
      Base.advance_run (q := .frozen i) hcall fuel d s c.advances hp hsane hknown (by simp)
    rw [hclocks] at hadvance
    exact ⟨hadvance, hreturn⟩
  · intro fuel depth s hp hclocks r
    refine ⟨fun t => rfl, rfl, fun t => rfl, fun t steps => ?_⟩
    have hsane : Sane ⟨s.clocks, c.advances⟩ := by
      rw [hclocks]
      exact hs
    obtain ⟨ys, s₁, hscope, hend⟩ := Script.Exec.scoped_run fuel depth hp hsane p t steps
    have hreplaced := (hsane.run hscope).replaced p none
    rw [hclocks] at hscope
    exact ⟨ys, s₁, hscope, hreplaced, hend⟩

/-- Clocks with nothing around them. -/
def bare : Base (Clocks Nat) Nat where
  clocks c := c
  site q :=
    { timeline := fun c => c.timeline q
      update := fun t c => c.setTimeline q t
      record := fun _ c => c
      stamp := fun _ => ""
      timeline_update := fun t c => c.timeline_setTimeline q t
      timeline_record := fun _ _ => rfl }
  Proper _ := True
  timeline_eq _ _ := rfl
  clocks_update _ _ _ := rfl
  clocks_record _ _ _ := rfl
  proper_update _ _ _ _ _ := trivial
  proper_record _ _ _ _ := trivial

/-- A callback that freezes the provider 1 again. -/
def refreezing (_ : Nat) : Act (Clocks Nat) Unit :=
  modify fun c => (c.freeze 1 ⟨⟨100, by decide, by decide⟩, false⟩).2

theorem acts_refreezing (k : Nat) : bare.Acts (refreezing k) :=
  Base.acts_modify (fun _ _ => trivial) fun _ _ _ _ =>
    .inr ⟨.install 1 (some ⟨⟨100, by decide, by decide⟩, false⟩), rfl⟩

/-- A provider is frozen, and a callback at 5 ns and a timer at 7 ns are started. -/
def frozenTwice : List (Action Nat) :=
  [.newProvider .locked, .install 1 (some ⟨default, false⟩),
    .use (.frozen 1) (.start ⟨5⟩ .zero (.callback 0)), .use (.frozen 1) (.start ⟨7⟩ .zero .channel)]

/-- An advance by 12 ns in which a callback freezes the provider again: the provider has a new
timeline with nothing pending, and the advance returns 12 ns. -/
theorem replaced_never_fires_refreeze :
    ∃ c : Process Nat, (start default).run frozenTwice = some c ∧
      (∃ c', c.step (.install 1 none) = some c' ∧ Replaced 1 none c c') ∧
      (∀ k, bare.Acts (refreezing k)) ∧
      let a := (bare.site (.frozen 1)).advance refreezing 10 ⟨12⟩ c.clocks
      a.1 = .ok ⟨12⟩ ∧ (a.2.timeline (.frozen 1)).elapsed = ⟨12⟩ ∧ a.2.source 1 = .frozen 2 ∧
        (a.2.timeline (.frozen 2)).pending = 0 := by
  obtain ⟨c, hrun, hknown, hresult, hsource, hpending⟩ : ∃ c : Process Nat,
      (start default).run frozenTwice = some c ∧ c.clocks.Knows (.frozen 1) ∧
      let a := (bare.site (.frozen 1)).advance refreezing 10 ⟨12⟩ c.clocks
      a.1 = .ok ⟨12⟩ ∧ a.2.source 1 = .frozen 2 ∧ (a.2.timeline (.frozen 2)).pending = 0 := by
    refine ⟨_, rfl, by decide, ?_, ?_, ?_⟩
    · cbv
    · cbv
    · cbv
  obtain ⟨hinstall, hadvance, -⟩ := replaced_never_fires hrun 1 none
  obtain ⟨-, hreturn⟩ :=
    hadvance bare refreezing acts_refreezing 10 ⟨12⟩ c.clocks 1 trivial rfl hknown
  exact ⟨c, hrun, hinstall, acts_refreezing, hresult, (hreturn _ hresult).symm, hsource, hpending⟩

end Process

end VirtualClock
