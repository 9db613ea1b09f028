import VirtualClock.Proofs.Script.Sections

/-! Scripts of prompt steps, whose callbacks take prompt steps too. Whatever such a script does is
done by one thread of a crew, and what its callbacks do between the sections of its advances. -/

namespace VirtualClock.Script

theorem Session.filter_of_lookup_eq_none {α : Type} {name : String} {l : List (String × α)}
    (h : lookup name l = none) : l.filter (·.1 != name) = l := by
  refine List.filter_eq_self.mpr fun x hx => bne_iff_ne.mpr fun heq => ?_
  have hfind := List.find?_eq_none.mp (Option.map_eq_none_iff.mp h) x hx
  exact hfind (beq_iff_eq.mpr heq)

namespace Crew

variable {i : Nat} {w : Crew} {s s' : Session} {α β : Type} {r : Exec.Runner} {target : Target}
  {c : Command Step} {clock : String}

/-! ### Runs of one thread -/

theorem reaches_refl (h : w.session.Mirrors s) : w.Reaches i s := ⟨[], h, rfl⟩

theorem reaches_step {x : Deed} {s₁ : Session} (hstep : (w.step i x).2 = { w with session := s₁ })
    (h : s₁.Mirrors s) : w.Reaches i s := by
  refine ⟨[x], ?_⟩
  rw [runBy_cons, hstep]
  exact ⟨h, rfl⟩

theorem Reaches.trans (h : w.Reaches i s) (h' : ∀ v : Crew, v.session.Mirrors s → v.Reaches i s') :
    w.Reaches i s' := by
  obtain ⟨xs, hmirrors, htasks⟩ := h
  obtain ⟨ys, hmirrors', htasks'⟩ := h' _ hmirrors
  refine ⟨xs ++ ys, ?_⟩
  rw [runBy_append]
  exact ⟨hmirrors', htasks'.trans htasks⟩

theorem acts_pure (a : α) : Acts i (pure a) := acts_iff.mpr (Conduct.acts_pure a)

theorem acts_throw (stop : Stop) : Acts i (throw stop : Act Session α) :=
  acts_iff.mpr (Conduct.acts_throw stop)

theorem Acts.bind {x : Act Session α} {f : α → Act Session β} (hx : Acts i x)
    (hf : ∀ a, Acts i (f a)) : Acts i (x >>= f) :=
  acts_iff.mpr ((acts_iff.mp hx).bind fun a => acts_iff.mp (hf a))

/-- A change that has nothing to do with clocks and names. -/
theorem acts_modify {f : Session → Session}
    (h : ∀ s s' : Session, s.Mirrors s' → s.Mirrors (f s')) : Acts i (modify f) :=
  fun _ s hs _ => reaches_refl (h _ s hs)

theorem acts_mapM {f : α → Act Session β} {l : List α} (hf : ∀ a ∈ l, Acts i (f a)) :
    Acts i (l.mapM f) :=
  acts_iff.mpr (Conduct.acts_mapM fun a ha => acts_iff.mp (hf a ha))

theorem acts_forIn {f : α → β → Act Session (ForInStep β)} {l : List α}
    (hf : ∀ a ∈ l, ∀ b, Acts i (f a b)) (b : β) : Acts i (forIn l b f) :=
  acts_iff.mpr (Conduct.acts_forIn (fun a ha b => acts_iff.mp (hf a ha b)) b)

/-! ### Commands -/

/-- A command on a clock that is carried out at once. -/
theorem reaches_onClock (hc : c.isOnClock = true) (hs : w.session.Mirrors s)
    (hclock : Session.lookup clock w.session.targets = some target) :
    w.Reaches i (Exec.command r target c s).2 := by
  obtain ⟨p, hp⟩ := Plan.exists_onClock hc (s.sourceOf target != .real) target.provider?
    (s.clocks.timeline (s.sourceOf target))
  have hg : w.grip i (.onClock clock c) = some (s.sourceOf target, .clock target.provider?) :=
    grip_eq_some.mpr (.clock rfl hclock (hs.sourceOf target).symm rfl)
  have htimeline : w.timeline (s.sourceOf target) = s.clocks.timeline (s.sourceOf target) :=
    (congrArg (·.timeline (s.sourceOf target)) hs.clocks_eq).symm
  have hstep := step_eq hg
  simp only [Deed.course, htimeline, hp, Option.map_some, Option.getD_some] at hstep
  rw [take_planned] at hstep
  rw [Exec.command_onClock hp]
  exact reaches_step (congrArg (·.2) hstep) (hs.apply _ p.2)

theorem command_of_lookup_eq_none {name : String} (hc : c.handle? = some name)
    (h : Session.lookup name s.handles = none) : (Exec.command r target c s).2 = s := by
  have hhandle := Exec.handle_of_lookup_eq_none h
  cases c with
  | drop n =>
    cases hc
    have hforgot : (Exec.command r target (.drop name) s).2 =
        { s with handles := s.handles.filter (·.1 != name) } := rfl
    rw [hforgot, Session.filter_of_lookup_eq_none h]
  | stop n | reset n d | tryReset n d | id n | length n | receive n =>
    cases hc
    exact congrArg Prod.snd (Exec.bind_of_fault hhandle)
  | _ => cases hc

/-- A command on a handle that is carried out at once. -/
theorem reaches_onHandle {name : String} (hc : c.handle? = some name) (hs : w.session.Mirrors s) :
    w.Reaches i (Exec.command r target c s).2 := by
  cases hlookup : Session.lookup name s.handles with
  | none =>
    rw [command_of_lookup_eq_none hc hlookup]
    exact reaches_refl hs
  | some y =>
    obtain ⟨n, hmem⟩ := Session.mem_of_lookup hlookup
    obtain ⟨q, k, hy⟩ := hs.parted _ hmem
    obtain rfl : y = k.of q := hy
    obtain ⟨p, hp⟩ := Plan.exists_onHandle hc (q != .real) k (s.clocks.timeline q)
    have htimeline : w.timeline q = s.clocks.timeline q :=
      (congrArg (·.timeline q) hs.clocks_eq).symm
    have hg : w.grip i (.onHandle c) = some (q, .handle k) :=
      grip_eq_some.mpr (.handle hc (hs.handles_eq ▸ hlookup))
    have hstep := step_eq hg
    simp only [Deed.course, htimeline, hp, Option.map_some, Option.getD_some] at hstep
    rw [take_planned] at hstep
    rw [Exec.command_onHandle hc hlookup hp]
    exact reaches_step (congrArg (·.2) hstep) (hs.apply q p.2)

theorem reaches_advance (hcall : ∀ k, Acts i (r.call k)) (hs : w.session.Mirrors s)
    (hclock : Session.lookup clock w.session.targets = some target) {n : Nat}
    (hq : s.sourceOf target = .frozen n) (d : Delay)
    (hfuel : ((Session.site (.frozen n)).advance r.call r.fuel d s).1 ≠ .error .outOfFuel) :
    w.Reaches i ((Session.site (.frozen n)).advance r.call r.fuel d s).2 := by
  have hsource := (hs.sourceOf target).symm.trans hq
  have hsections := advance_sections hcall hs hclock hsource r.fuel d hfuel
  generalize (Session.site (.frozen n)).advance r.call r.fuel d s = y at hsections ⊢
  obtain ⟨result, s'⟩ := y
  cases result with
  | ok elapsed =>
    obtain ⟨xs, hreturned, -⟩ := hsections
    obtain ⟨-, hmirrors, htasks⟩ := hreturned elapsed rfl
    refine ⟨.advance clock d :: xs ++ [.go], ?_⟩
    rw [runBy_append]
    exact ⟨hmirrors, htasks⟩
  | error stop =>
    obtain ⟨xs, -, hpanicked⟩ := hsections
    exact ⟨.advance clock d :: xs, hpanicked stop rfl⟩

/-- What follows on an advance only tells its result. -/
theorem reaches_lift {y : Act Session α} {g : α → Answer Report}
    (hy : (y s).1 ≠ .error .outOfFuel → w.Reaches i (y s).2)
    (hfuel : ((ExceptT.lift y >>= fun a => pure (g a) : Exec (Answer Report)) s).1 ≠
      .error .outOfFuel) :
    w.Reaches i ((ExceptT.lift y >>= fun a => pure (g a) : Exec (Answer Report)) s).2 := by
  rw [Exec.bind_apply, Exec.lift_apply] at hfuel ⊢
  generalize y s = z at hy hfuel ⊢
  obtain ⟨result, s'⟩ := z
  cases result with
  | ok a => exact hy fun h => by cases h
  | error stop => exact hy fun h => hfuel (by cases h; rfl)

theorem reaches_freezeUnfreeze (at_ : Option Instant) (hs : w.session.Mirrors s)
    (hclock : Session.lookup clock w.session.targets = some target) :
    w.Reaches i (Exec.command r target (.freezeUnfreeze at_) s).2 := by
  cases target with
  | source q => exact reaches_refl hs
  | provider p =>
    cases at_ with
    | none => exact reaches_refl hs
    | some t =>
      have hboth : Exec.command r (.provider p) (.freezeUnfreeze (some t)) s =
        Exec.command r (.provider p) .unfreeze
          (Exec.command r (.provider p) (.freeze (some t)) s).2 := rfl
      have htargets : (Exec.command r (.provider p) (.freeze (some t)) s).2.targets =
        s.targets := rfl
      have hfreeze := reaches_onClock (i := i) (r := r) (c := .freeze (some t)) rfl hs hclock
      rw [hboth]
      refine hfreeze.trans fun v hv => ?_
      have hclock' : Session.lookup clock v.session.targets = some (.provider p) := by
        rw [← hv.targets_eq, htargets, hs.targets_eq]
        exact hclock
      exact reaches_onClock rfl hv hclock'

theorem reaches_func (name : String) (d : Option Delay) {steps : List Step} (limit : Nat)
    (hsteps : ∀ x ∈ steps, x.Prompt) (hs : w.session.Mirrors s)
    (hclock : Session.lookup clock w.session.targets = some target) :
    w.Reaches i (Exec.command r target (.func name d steps limit) s).2 := by
  cases d with
  | none => exact reaches_refl hs
  | some d =>
    obtain ⟨k, s₁, hadd⟩ : ∃ k s₁, s.addCallback ⟨name, target, steps, limit⟩ = (k, s₁) :=
      ⟨_, _, rfl⟩
    have hs₁ : w.session.Mirrors s₁ := by
      cases hadd
      have hadded := hs.insertCallback (s.lastCallback + 1)
        (c := ⟨name, target, steps, limit⟩) hsteps
      exact hadded.congr rfl rfl rfl rfl
    let new := (w.timeline (s₁.sourceOf target)).startTimer d (.callback k)
    have hfunc : (Exec.command r target (.func name (some d) steps limit) s).2 =
        (Exec.newTimer (s₁.sourceOf target) name d (.callback k) s₁).2 := by
      cases hadd
      rfl
    have hnew : (Exec.newTimer (s₁.sourceOf target) name d (.callback k) s₁).2 =
        (Effect.keep new.2 name (.timer new.1 (.callback k))).apply (s₁.sourceOf target) s₁ := by
      simp only [new, timeline, ← hs₁.clocks_eq]
      rfl
    have hg : w.grip i (.callback clock name d k) =
        some (s₁.sourceOf target, .clock target.provider?) :=
      grip_eq_some.mpr (.clock rfl hclock (hs₁.sourceOf target).symm rfl)
    have hstep := step_eq hg
    simp only [Deed.course] at hstep
    rw [take_planned] at hstep
    rw [hfunc, hnew]
    exact reaches_step (congrArg Prod.snd hstep) (hs₁.apply _ _)

theorem command_describe (handle : Option String) :
    (Exec.command r target (.describe handle) s).2 = s := by
  cases handle with
  | none => cases target <;> rfl
  | some name =>
    cases hlookup : Session.lookup name s.handles with
    | none =>
      rw [Exec.command, Exec.bind_of_fault (Exec.handle_of_lookup_eq_none hlookup)]
    | some y =>
      rw [Exec.command, Exec.bind_of_ok (Exec.handle_of_lookup hlookup)]
      cases y <;> rfl

/-- A prompt command on a clock, however it ends. -/
theorem reaches_command (hcall : ∀ k, Acts i (r.call k)) (hc : c.isPrompt = true)
    (hcallback : ∀ x ∈ c.callback, x.Prompt) (hs : w.session.Mirrors s)
    (hclock : Session.lookup clock w.session.targets = some target)
    (hfuel : (Exec.command r target c s).1 ≠ .error .outOfFuel) :
    w.Reaches i (Exec.command r target c s).2 := by
  by_cases honClock : c.isOnClock = true
  · exact reaches_onClock honClock hs hclock
  by_cases honHandle : ∃ name, c.handle? = some name
  · obtain ⟨name, hname⟩ := honHandle
    exact reaches_onHandle hname hs
  cases c with
  | newProvider name guard =>
    obtain _ | _ | guard := guard
    · exact reaches_step (x := .newProvider name .locked) rfl (hs.addProvider name .locked)
    · exact reaches_refl hs
    · exact reaches_step (x := .newProvider name guard) rfl (hs.addProvider name guard)
  | newSource name t =>
    cases t with
    | none => exact reaches_refl hs
    | some t => exact reaches_step (x := .newSource name t) rfl (hs.addSource name t)
  | guardMode => cases target <;> exact reaches_refl hs
  | configureGlobal | realPending | unknown => exact reaches_refl hs
  | freezeUnfreeze at_ => exact reaches_freezeUnfreeze at_ hs hclock
  | func name d steps limit => exact reaches_func name d limit hcallback hs hclock
  | describe handle =>
    rw [command_describe]
    exact reaches_refl hs
  | advance d =>
    cases d with
    | none => exact reaches_refl hs
    | some d =>
      rw [Exec.command, Exec.bind_of_ok (x := Exec.operand _ _) rfl,
        Exec.bind_of_ok (x := Exec.source _) rfl] at hfuel ⊢
      cases hq : s.sourceOf target with
      | real => cases target <;> exact reaches_refl hs
      | frozen n =>
        rw [hq] at hfuel
        have hadvance := reaches_advance hcall hs hclock hq d
        cases target <;> exact reaches_lift hadvance hfuel
  | tryAdvance d =>
    cases target with
    | source q => exact reaches_refl hs
    | provider p =>
      cases d with
      | none => exact reaches_refl hs
      | some d =>
        rw [Exec.command, Exec.bind_of_ok (x := Exec.provider _) rfl,
          Exec.bind_of_ok (x := Exec.operand _ _) rfl,
          Exec.bind_of_ok (x := Exec.source _) rfl] at hfuel ⊢
        cases hq : s.sourceOf (.provider p) with
        | real => exact reaches_refl hs
        | frozen n =>
          rw [hq] at hfuel
          exact reaches_lift (reaches_advance hcall hs hclock hq d) hfuel
  | _ => first | exact absurd rfl honClock | exact absurd ⟨_, rfl⟩ honHandle | cases hc

/-! ### Steps, callbacks and scripts -/

theorem acts_outcome (hcall : ∀ k, Acts i (r.call k)) (inner : Bool) {step : Step}
    (h : step.Prompt) : Acts i (step.outcome r inner) := by
  intro w s hs hfuel
  obtain @⟨on, uncaught, c, hc, hcallback⟩ := h
  rw [Step.outcome, Act.bind_of_ok (Act.get_apply s)] at hfuel ⊢
  cases hclock : Session.lookup on s.targets with
  | none => exact reaches_refl hs
  | some target =>
    rw [hclock] at hfuel
    dsimp only at hfuel ⊢
    have hclock' : Session.lookup on w.session.targets = some target := hs.targets_eq ▸ hclock
    have hcommand := reaches_command hcall hc hcallback hs hclock'
    have hstopped : (Exec.command r target c s).1 = .error .outOfFuel →
        (caught (Exec.command r target c) s).1 = .error .outOfFuel := by
      intro h
      unfold caught
      split
      · rename_i heq
        rw [heq] at h
        cases h
      · exact h
    rw [Act.bind_apply] at hfuel ⊢
    rw [← caught_snd] at hcommand
    generalize caught (Exec.command r target c) s = y at hfuel hcommand hstopped ⊢
    obtain ⟨result, s'⟩ := y
    cases result with
    | error stop => exact hcommand fun h => hfuel (hstopped h)
    | ok outcome =>
      have hrest := hcommand fun h => nomatch hstopped h
      -- The session stays as the command left it, whether its panic is raised again or not.
      dsimp only at hfuel ⊢
      split
      · split <;> exact hrest
      · exact hrest

theorem acts_report (hcall : ∀ k, Acts i (r.call k)) (inner : Bool) {step : Step}
    (h : step.Prompt) : Acts i (step.report r inner) := by
  intro w s hs hfuel
  have houtcome := acts_outcome hcall inner h
  obtain @⟨on, uncaught, c, hc, hcallback⟩ := h
  rw [Step.report, Act.bind_of_ok (Act.get_apply s)] at hfuel ⊢
  refine houtcome.bind (fun outcome => ?_) w s hs hfuel
  -- What is drained is neither clocks nor names.
  exact fun v s' hs' _ => reaches_refl (hs'.congr rfl rfl rfl rfl)

/-- Callbacks that nest at most `depth` deep, by induction on `depth`. -/
theorem acts_runCallback (fuel depth k : Nat) : Acts i (runCallback fuel depth k) := by
  induction depth generalizing k with
  | zero => exact acts_throw _
  | succ depth ih =>
    intro w s hs hfuel
    rw [runCallback, Act.bind_of_ok (Act.get_apply s)] at hfuel ⊢
    cases hk : s.callbacks[k]? with
    | none => exact reaches_refl hs
    | some c =>
      have hprompt := hs.prompt k c hk
      rw [hk] at hfuel
      dsimp only at hfuel ⊢
      rw [Act.bind_of_ok (Act.modify_apply _ s)] at hfuel ⊢
      have hcounted := hs.insertCallback k (c := { c with runs := c.runs - 1 }) hprompt
      refine (?_ : Acts i _) w _ (hcounted.congr rfl rfl rfl rfl) hfuel
      split
      · refine (acts_forIn (fun step hstep _ => ?_) _).bind fun _ => acts_pure _
        refine (acts_outcome ih true (hprompt step hstep)).bind fun _ => ?_
        refine Acts.bind (acts_modify fun _ _ h => ?_) fun _ => acts_pure _
        exact h.congr rfl rfl rfl rfl
      · exact acts_pure _

/-- Whatever a script of prompt steps does is done by one thread of a crew, which is in the middle
of nothing afterwards. -/
theorem reaches_run (fuel depth : Nat) (origin : Instant) (guard : GuardMode) {steps : List Step}
    (hsteps : ∀ x ∈ steps, x.Prompt)
    (hfuel : (Script.run fuel depth origin guard steps).1 ≠ .error .outOfFuel) (i : Nat) :
    (start origin guard).Reaches i (Script.run fuel depth origin guard steps).2 := by
  have hstart : (start origin guard).session.Mirrors (Session.start origin guard) := by
    refine ⟨rfl, rfl, rfl, (fun x hx => ?_), fun k c hc => ?_⟩
    · exact absurd hx List.not_mem_nil
    · simp [Session.start] at hc
  have hacts : Acts i (steps.mapM (Step.report ⟨runCallback fuel depth, runScope fuel depth, fuel⟩
      false)) :=
    acts_mapM fun x hx => acts_report (acts_runCallback fuel depth) false (hsteps x hx)
  exact hacts _ _ hstart hfuel

end Crew

end VirtualClock.Script
