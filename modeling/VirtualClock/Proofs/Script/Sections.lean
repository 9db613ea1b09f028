import VirtualClock.Proofs.Conduct
import VirtualClock.Proofs.Script.Beside
import VirtualClock.Proofs.Script.Crew

/-! What a session does in one go, a thread of a crew does in steps. An advance is made of sections,
and between two of them the thread does what a callback does. A freeze exchanges the source of its
provider, and then discards the one that was installed. -/

namespace VirtualClock.Script

/-! ### Prompt steps -/

/-- Whether a command waits for nothing, neither for other threads nor for the end of other steps,
and keeps no thread. -/
def Command.isPrompt : Command Step → Bool
  | .scoped .. | .receiveWithin .. | .wait .. | .sleep _ | .spawnSleep .. | .spawnWait .. | .join ..
  | .waitFired .. => false
  | _ => true

/-- The steps of the callback that a command makes. -/
def Command.callback : Command Step → List Step
  | .func _ _ steps _ => steps
  | _ => []

/-- A step that is prompt, and the callback that it makes takes prompt steps only. -/
inductive Step.Prompt : Step → Prop where
  | mk {on : String} {uncaught : Bool} {c : Command Step} (hc : c.isPrompt = true)
      (hcallback : ∀ x ∈ c.callback, x.Prompt) : Prompt (.mk on uncaught c)

/-- The session `s'` of a script of prompt steps has the clocks of `s`, and names stand for the same
in both. -/
structure Session.Mirrors (s s' : Session) : Prop where
  clocks_eq : s'.clocks = s.clocks
  targets_eq : s'.targets = s.targets
  handles_eq : s'.handles = s.handles
  /-- No handle is a thread that sleeps or has ended. -/
  parted : ∀ x ∈ s'.handles, ∃ (q : Source) (k : Kind), x.2 = k.of q
  prompt : ∀ (k : Nat) (c : Callback), s'.callbacks[k]? = some c → ∀ x ∈ c.steps, x.Prompt

namespace Session

variable {s s' s'' : Session}

/-- What else belongs to a session has nothing to do with it. -/
theorem Mirrors.congr (h : s.Mirrors s') (hclocks : s''.clocks = s'.clocks)
    (htargets : s''.targets = s'.targets) (hhandles : s''.handles = s'.handles)
    (hcallbacks : s''.callbacks = s'.callbacks) : s.Mirrors s'' where
  clocks_eq := hclocks.trans h.clocks_eq
  targets_eq := htargets.trans h.targets_eq
  handles_eq := hhandles.trans h.handles_eq
  parted := hhandles ▸ h.parted
  prompt := hcallbacks ▸ h.prompt

theorem Mirrors.update (h : s.Mirrors s') (q : Source) (t : Timeline Nat) :
    (s.update q t).Mirrors (s'.update q t) :=
  ⟨congrArg (·.setTimeline q t) h.clocks_eq, h.targets_eq, h.handles_eq, h.parted, h.prompt⟩

theorem Mirrors.keep (h : s.Mirrors s') (name : String) (q : Source) (k : Kind) :
    (s.keep name (k.of q)).Mirrors (s'.keep name (k.of q)) where
  clocks_eq := h.clocks_eq
  targets_eq := h.targets_eq
  handles_eq := by rw [Session.keep, Session.keep, h.handles_eq]
  parted x hx := by
    obtain rfl | hx := List.mem_cons.mp hx
    · exact ⟨q, k, rfl⟩
    · exact h.parted x (List.mem_filter.mp hx).1
  prompt := h.prompt

theorem Mirrors.aim (h : s.Mirrors s') (name : String) (t : Target) :
    (s.aim name t).Mirrors (s'.aim name t) :=
  ⟨h.clocks_eq, by rw [Session.aim, Session.aim, h.targets_eq], h.handles_eq, h.parted, h.prompt⟩

theorem Mirrors.withClocks (h : s.Mirrors s') (f : Clocks Nat → Clocks Nat) :
    Mirrors { s with clocks := f s.clocks } { s' with clocks := f s'.clocks } :=
  ⟨congrArg f h.clocks_eq, h.targets_eq, h.handles_eq, h.parted, h.prompt⟩

theorem Mirrors.addProvider (h : s.Mirrors s') (name : String) (guard : GuardMode) :
    (s.addProvider name guard).Mirrors (s'.addProvider name guard) := by
  have hnew := (h.withClocks fun c => (c.newProvider guard).2).aim name
    (.provider (s.clocks.newProvider guard).1)
  have hnumber : (s'.clocks.newProvider guard).1 = (s.clocks.newProvider guard).1 :=
    congrArg (fun c : Clocks Nat => (c.newProvider guard).1) h.clocks_eq
  rw [Session.addProvider, Session.addProvider, hnumber]
  exact hnew

theorem Mirrors.addSource (h : s.Mirrors s') (name : String) (t : Instant) :
    (s.addSource name t).Mirrors (s'.addSource name t) := by
  have hnew := (h.withClocks fun c => (c.newTimeline t.reading).2).aim name
    (.source (s.clocks.newTimeline t.reading).1)
  have hnumber : (s'.clocks.newTimeline t.reading).1 = (s.clocks.newTimeline t.reading).1 :=
    congrArg (fun c : Clocks Nat => (c.newTimeline t.reading).1) h.clocks_eq
  rw [Session.addSource, Session.addSource, hnumber]
  exact hnew

theorem Mirrors.apply (h : s.Mirrors s') (q : Source) (e : Effect) :
    (e.apply q s).Mirrors (e.apply q s') := by
  cases e with
  | none => exact h
  | update t => exact h.update q t
  | keep t name k => exact (h.update q t).keep name q k
  | aim name => exact h.aim name (.source q)
  | install p at_ =>
    exact ⟨congrArg (fun c => (c.install p at_).2) h.clocks_eq, h.targets_eq, h.handles_eq,
      h.parted, h.prompt⟩
  | exchange p at_ => exact h.withClocks (·.exchange p at_)
  | forget name =>
    refine ⟨h.clocks_eq, h.targets_eq, ?_, (fun x hx => ?_), h.prompt⟩
    · simp only [Effect.apply, h.handles_eq]
    · exact h.parted x (List.mem_filter.mp hx).1

theorem Mirrors.insertCallback (h : s.Mirrors s') (k : Nat) {c : Callback}
    (hc : ∀ x ∈ c.steps, x.Prompt) :
    s.Mirrors { s' with callbacks := s'.callbacks.insert k c } := by
  refine ⟨h.clocks_eq, h.targets_eq, h.handles_eq, h.parted, fun k' c' hc' => ?_⟩
  rw [Std.TreeMap.getElem?_insert] at hc'
  split at hc'
  · cases hc'
    exact hc
  · exact h.prompt k' c' hc'

theorem Mirrors.sourceOf (h : s.Mirrors s') (t : Target) : s'.sourceOf t = s.sourceOf t := by
  cases t with
  | provider p => exact congrArg (·.source p) h.clocks_eq
  | source q => rfl

end Session

/-! ### Sections -/

namespace Crew

variable {w : Crew} {i : Nat} {s s' : Session} {α : Type}

/-- The state after the thread `i` has taken some steps. -/
def runBy (i : Nat) (w : Crew) (xs : List Deed) : Crew := w.run (xs.map (i, ·))

@[simp] theorem runBy_nil (w : Crew) (i : Nat) : w.runBy i [] = w := rfl

@[simp] theorem runBy_cons (w : Crew) (i : Nat) (x : Deed) (xs : List Deed) :
    w.runBy i (x :: xs) = (w.step i x).2.runBy i xs := rfl

theorem runBy_append (w : Crew) (i : Nat) (xs ys : List Deed) :
    w.runBy i (xs ++ ys) = (w.runBy i xs).runBy i ys := by
  rw [runBy, List.map_append, run_append]
  rfl

/-- The thread `i` comes from `w` to the session `s`, and is then in the middle of the same as
before. -/
def Reaches (i : Nat) (w : Crew) (s : Session) : Prop :=
  ∃ xs, (w.runBy i xs).session.Mirrors s ∧ (w.runBy i xs).tasks = w.tasks

/-- What `x` does is done in steps of the thread `i`, whether it returns or panics. -/
def Acts (i : Nat) (x : Act Session α) : Prop :=
  ∀ (w : Crew) (s : Session), w.session.Mirrors s → (x s).1 ≠ .error .outOfFuel →
    w.Reaches i (x s).2

variable {call : Nat → Act Session Unit} {q : Source} {limit : Instant} {y : Task}
  {rest : List (Source × Task)}

/-- A thread goes on with its innermost task. -/
theorem step_go (h : w.tasks i = (q, y) :: rest) :
    w.step i .go = ((Course.next (w.timeline q) y).reply,
      ⟨(Course.next (w.timeline q) y).effect.apply q w.session,
        Function.update w.tasks i ((Course.next (w.timeline q) y).begun.map (q, ·) ++ rest)⟩) := by
  rw [step_eq (grip_eq_some.mpr (.task (.inl rfl) h)), take, h]
  simp only [Deed.course, Course.ended_next, List.drop_succ_cons, List.drop_zero]

theorem step_leave {f : Firing (Delivery Nat)} {k : Nat} (hk : f.deliver = .callback k)
    (h : w.tasks i = (q, .advance ⟨limit, .delivering f⟩) :: rest) :
    w.step i .leave = (.left, { w with tasks := Function.update w.tasks i rest }) := by
  obtain ⟨id, at_, deliver⟩ := f
  cases hk
  rw [step_eq (grip_eq_some.mpr (.task (.inr rfl) h)), take, h]
  rfl

/-- Something is due: it is taken off the queue. -/
theorem step_go_fire {f : Firing (Delivery Nat)} {t : Timeline Nat}
    (h : w.tasks i = (q, .advance ⟨limit, .looking⟩) :: rest)
    (hp : (w.timeline q).popDue limit = some (f, t)) :
    w.step i .go = (.fired f, ⟨w.session.update q t,
      Function.update w.tasks i ((q, .advance ⟨limit, .delivering f⟩) :: rest)⟩) := by
  rw [step_go h]
  simp only [Course.next, Course.advance, hp]
  rfl

/-- Nothing is due. -/
theorem step_go_rest (h : w.tasks i = (q, .advance ⟨limit, .looking⟩) :: rest)
    (hp : (w.timeline q).popDue limit = none) :
    w.step i .go = (.nothingDue, { w with
      tasks := Function.update w.tasks i ((q, .advance ⟨limit, .settling⟩) :: rest) }) := by
  rw [step_go h]
  simp only [Course.next, Course.advance, hp]
  rfl

/-- The advance returns. -/
theorem step_go_settle (h : w.tasks i = (q, .advance ⟨limit, .settling⟩) :: rest) :
    w.step i .go = (.returned ((w.timeline q).settle limit).elapsed,
      ⟨w.session.update q ((w.timeline q).settle limit), Function.update w.tasks i rest⟩) :=
  step_go h

/-- The thread `i` beside the sessions that a crew mirrors, whose place is what the thread is in the
middle of. A script that runs out of fuel is not followed to its end. -/
def thread (i : Nat) : Conduct Session (List (Source × Task)) where
  Leads l s l' s' := ∀ w : Crew, w.session.Mirrors s → w.tasks i = l →
    ∃ xs, (w.runBy i xs).session.Mirrors s' ∧
      (w.runBy i xs).tasks = Function.update w.tasks i l'
  Follows stop := stop ≠ .outOfFuel
  refl l s w hs hw := ⟨[], hs, by rw [runBy_nil, ← hw, Function.update_eq_self]⟩
  trans := by
    intro l l' l'' s s' s'' h h' w hs hw
    obtain ⟨xs, hmirrors, htasks⟩ := h w hs hw
    obtain ⟨ys, hmirrors', htasks'⟩ := h' _ hmirrors (by rw [htasks, Function.update_self])
    refine ⟨xs ++ ys, ?_⟩
    rw [runBy_append]
    exact ⟨hmirrors', by rw [htasks', htasks, Function.update_idem]⟩

theorem acts_iff {x : Act Session α} : Acts i x ↔ (thread i).Acts x := by
  rw [Conduct.acts_iff]
  constructor
  · rintro h _ s hfollows w hs rfl
    obtain ⟨xs, hmirrors, htasks⟩ := h w s hs fun hfuel => hfollows _ hfuel rfl
    exact ⟨xs, hmirrors, htasks.trans (Function.update_eq_self i w.tasks).symm⟩
  · intro h w s hs hfuel
    obtain ⟨xs, hmirrors, htasks⟩ := h (w.tasks i) s
      (fun stop hstop hout => hfuel (hout ▸ hstop)) w hs rfl
    exact ⟨xs, hmirrors, htasks.trans (Function.update_eq_self i w.tasks)⟩

/-- A step that leads from one task of the thread to another. -/
theorem leads_of_step {x : Deed} {l l' : List (Source × Task)}
    (h : ∀ w : Crew, w.session.Mirrors s → w.tasks i = l →
      (w.step i x).2.session.Mirrors s' ∧ (w.step i x).2.tasks = Function.update w.tasks i l') :
    (thread i).Leads l s l' s' :=
  fun w hs hw => ⟨[x], h w hs hw⟩

theorem timeline_of_mirrors (hs : w.session.Mirrors s) (q : Source) :
    (Session.site q).timeline s = w.timeline q :=
  congrArg (·.timeline q) hs.clocks_eq

/-- As long as something is due, a section takes it off the queue, and it is delivered before the
next one. -/
theorem thread_loops (i : Nat) (q : Source) (limit : Instant) (rest : List (Source × Task)) :
    (thread i).Loops (Session.site q) limit rest ((q, .advance ⟨limit, .looking⟩) :: rest)
      fun f => (q, .advance ⟨limit, .delivering f⟩) :: rest where
  send {s f t} hp hto := by
    obtain ⟨id, at_, deliver⟩ := f
    cases hto
    have htaken : (thread i).Leads ((q, .advance ⟨limit, .looking⟩) :: rest) s
        ((q, .advance ⟨limit, .delivering ⟨id, at_, .channel⟩⟩) :: rest)
        ((Session.site q).record ((Session.site q).firing ⟨id, at_, .channel⟩)
          ((Session.site q).update t s)) := by
      refine leads_of_step (x := .go) fun w hs hw => ?_
      rw [step_go_fire hw (timeline_of_mirrors hs q ▸ hp)]
      exact ⟨(hs.update q t).congr rfl rfl rfl rfl, rfl⟩
    refine (thread i).trans htaken (leads_of_step (x := .go) fun w hs hw => ?_)
    rw [step_go hw, timeline_of_mirrors hs q]
    exact ⟨hs.update q _, rfl⟩
  call {s f t k} hp hto := by
    refine leads_of_step (x := .go) fun w hs hw => ?_
    rw [step_go_fire hw (timeline_of_mirrors hs q ▸ hp)]
    exact ⟨(hs.update q t).congr rfl rfl rfl rfl, rfl⟩
  back {f k} s hto := by
    obtain ⟨id, at_, deliver⟩ := f
    cases hto
    refine leads_of_step (x := .go) fun w hs hw => ?_
    rw [step_go hw]
    exact ⟨hs, rfl⟩
  leave s hto _ := by
    refine leads_of_step (x := .leave) fun w hs hw => ?_
    rw [step_leave hto hw]
    exact ⟨hs, rfl⟩
  exhausted s hfollows := absurd rfl hfollows

/-- An advance of a clock is begun by a step of a thread and goes on section by section, with the
steps of callbacks in between. If it returns, its last section tells what it returns, and if a
callback panics, it is left. -/
theorem advance_sections (hcall : ∀ k, Acts i (call k)) (hs : w.session.Mirrors s)
    {clock : String} {target : Target} {n : Nat}
    (hclock : Session.lookup clock w.session.targets = some target)
    (hq : w.session.sourceOf target = .frozen n) (fuel : Nat) (d : Delay)
    (hfuel : ((Session.site (.frozen n)).advance call fuel d s).1 ≠ .error .outOfFuel) :
    ∃ xs, let v := w.runBy i (.advance clock d :: xs)
      let z := (Session.site (.frozen n)).advance call fuel d s
      (∀ r, z.1 = .ok r → (v.step i .go).1 = .returned r ∧
        (v.step i .go).2.session.Mirrors z.2 ∧ (v.step i .go).2.tasks = w.tasks) ∧
      ∀ stop, z.1 = .error stop → v.session.Mirrors z.2 ∧ v.tasks = w.tasks := by
  let limit := (w.timeline (.frozen n)).limit d
  have hg : w.grip i (.advance clock d) = some (.frozen n, .clock target.provider?) :=
    grip_eq_some.mpr (.clock rfl hclock hq rfl)
  obtain ⟨w₁, hw₁⟩ : ∃ w₁ : Crew, w₁ = { w with
    tasks := Function.update w.tasks i ((.frozen n, .advance ⟨limit, .looking⟩) :: w.tasks i) } :=
    ⟨_, rfl⟩
  have hbegin : (w.step i (.advance clock d)).2 = w₁ := hw₁ ▸ congrArg Prod.snd (step_eq hg)
  have htasks₁ := congrArg Crew.tasks hw₁
  have hlooking : w₁.tasks i = (.frozen n, .advance ⟨limit, .looking⟩) :: w.tasks i := by
    rw [htasks₁]
    exact Function.update_self ..
  have hentered : w₁.session.Mirrors ((Session.site (.frozen n)).entered d s) := by
    rw [hw₁]
    exact (Session.site (.frozen n)).entered_keeps (P := w.session.Mirrors)
      (fun _ _ h => h.congr rfl rfl rfl rfl) d hs
  have hlimit : ((Session.site (.frozen n)).timeline s).limit d = limit := by
    rw [timeline_of_mirrors hs]
  have hloops := thread_loops i (.frozen n) limit (w.tasks i)
  rw [← hlimit] at hloops
  obtain ⟨hreturned, hstopped⟩ := hloops.advance (fun k => acts_iff.mp (hcall k)) fuel
  rw [hlimit] at hreturned hstopped
  cases hz : ((Session.site (.frozen n)).advance call fuel d s).1 with
  | error stop =>
    obtain ⟨xs, hmirrors, htasks⟩ :=
      hstopped stop hz (fun hout => hfuel (hout ▸ hz)) w₁ hentered hlooking
    refine ⟨xs, fun r hr => ?_, fun _ _ => ?_⟩
    · cases hz.symm.trans hr
    · rw [runBy_cons, hbegin]
      refine ⟨hmirrors, ?_⟩
      rw [htasks, htasks₁, Function.update_idem, Function.update_eq_self]
  | ok result =>
    obtain ⟨fired, s', hleads, hdone, hadvance⟩ := hreturned result hz
    obtain ⟨xs, hmirrors, htasks⟩ := hleads w₁ hentered hlooking
    have htimeline := timeline_of_mirrors hmirrors (.frozen n)
    have hrest := step_go_rest (by rw [htasks, Function.update_self]) (htimeline ▸ hdone)
    have hlast : (w.runBy i (.advance clock d :: (xs ++ [.go]))).step i .go =
        (.returned (((Session.site (.frozen n)).timeline s').settle limit).elapsed,
          ⟨(w₁.runBy i xs).session.update (.frozen n)
            (((Session.site (.frozen n)).timeline s').settle limit), w.tasks⟩) := by
      rw [runBy_cons, hbegin, runBy_append, runBy_cons, hrest, runBy_nil,
        step_go_settle (Function.update_self ..), htimeline, htasks, htasks₁]
      simp only [Function.update_idem, Function.update_eq_self]
      rfl
    refine ⟨xs ++ [.go], fun r hr => ?_, fun stop hstop => ?_⟩
    · rw [hlast, hadvance]
      rw [hadvance] at hr
      refine ⟨congrArg _ (Except.ok.inj hr), ?_, rfl⟩
      exact (hmirrors.update (.frozen n) _).congr rfl rfl rfl rfl
    · cases hz.symm.trans hstop

/-- A freeze or an unfreeze of a provider is done in two steps, if there is anything to discard. -/
theorem install_sections {clock : String} {p : Nat}
    (hclock : Session.lookup clock w.session.targets = some (.provider p)) (at_ : Option Reading) :
    ∃ xs, w.runBy i (.exchange clock at_ :: xs) =
      { w with session := { w.session with clocks := (w.session.clocks.install p at_).2 } } := by
  have hg : w.grip i (.exchange clock at_) = some (w.session.clocks.source p, .clock (some p)) :=
    grip_eq_some.mpr (.clock rfl hclock rfl rfl)
  have hbegin := congrArg Prod.snd (step_eq hg)
  rw [Clocks.install_eq]
  cases hq : w.session.clocks.source p with
  | real =>
    rw [hq] at hbegin
    refine ⟨[], hbegin.trans ?_⟩
    exact congrArg (Crew.mk _) (Function.update_eq_self i w.tasks)
  | frozen n =>
    rw [hq] at hbegin
    refine ⟨[.go], ?_⟩
    rw [runBy_cons, hbegin, runBy_cons, step_go (Function.update_self ..)]
    refine congrArg (Crew.mk _) ?_
    exact (Function.update_idem ..).trans (Function.update_eq_self i w.tasks)

end Crew

end VirtualClock.Script
