import VirtualClock.Proofs.Process
import VirtualClock.Proofs.Script.Brief
import VirtualClock.Proofs.Timeline.Crowd

/-! Threads that share a session. Each step of a thread is on one source: that of its clock, of its
handle, or of what the thread is in the middle of. Advances, and freezes that are not carried out at
once, go on in further steps, and between two of them every thread may take any step. What a
callback does is what its thread does before its advance goes on, so nothing is assumed of it. -/

namespace VirtualClock.Script

/-- What a thread is in the middle of. -/
inductive Task where
  | advance (u : Underway Nat)
  /-- It has exchanged a source, and is to discard it. -/
  | discard

/-- A session, and for each thread what it is in the middle of, innermost first. -/
structure Crew where
  session : Session
  tasks : Nat → List (Source × Task)

inductive Deed where
  | newProvider (name : String) (guard : GuardMode)
  | newSource (name : String) (at_ : Instant)
  | onClock (clock : String) (c : Command Step)
  | onHandle (c : Command Step)
  /-- A timer with the callback `k?`, or a ticker, that is yet to be armed. -/
  | reserve (clock name : String) (k? : Option Nat)
  /-- A timer with the callback `k`. -/
  | callback (clock name : String) (d : Delay) (k : Nat)
  /-- Begins to wait for pending events. -/
  | startWait (clock name : String) (count : Nat) (giveUp : Instant)
  | stopWait (name : String)
  | advance (clock : String) (d : Delay)
  /-- Exchanges the source of a provider, and is to discard the one that was installed. -/
  | exchange (clock : String) (at_ : Option Reading)
  /-- The thread goes on with what it is in the middle of. -/
  | go
  /-- The callback of the innermost advance of the thread panics, and the advance is left. -/
  | leave
  /-- Real time goes on, in whatever way. -/
  | pass (m : Move Nat)

/-- What a thread is told of a step. -/
inductive Reply where
  | ending (ending : Ending)
  /-- Whether as many events are pending as a thread waits for. -/
  | counted (reached : Bool)
  | begun
  | fired (f : Firing (Delivery Nat))
  | delivered
  | nothingDue
  | returned (elapsed : Delay)
  | discarded (count : Nat)
  | left
  | passed
  | refused

/-- What a step takes hold of on its source. -/
inductive Hold where
  /-- A clock, which may be a provider. -/
  | clock (p? : Option Nat)
  | handle (k : Kind)
  | task (x : Task)

/-- What becomes of a step on its source. -/
structure Course where
  reply : Reply
  effect : Effect := .none
  /-- How many tasks are taken off. -/
  ended : Nat := 0
  /-- The tasks that are put on. -/
  begun : List Task := []

namespace Course

def refused : Course := { reply := .refused }

def planned (p : Ending × Effect) : Course := { reply := .ending p.1, effect := p.2 }

/-- The next section of an advance. -/
def advance (t : Timeline Nat) (limit : Instant) : Phase Nat → Course
  | .looking =>
    match t.popDue limit with
    | some (f, t) => ⟨.fired f, .update t, 1, [.advance ⟨limit, .delivering f⟩]⟩
    | none => ⟨.nothingDue, .none, 1, [.advance ⟨limit, .settling⟩]⟩
  | .delivering ⟨id, at_, .channel⟩ =>
    ⟨.delivered, .update (t.send id at_), 1, [.advance ⟨limit, .looking⟩]⟩
  | .delivering ⟨_, _, .callback _⟩ => ⟨.delivered, .none, 1, [.advance ⟨limit, .looking⟩]⟩
  | .settling => ⟨.returned (t.settle limit).elapsed, .update (t.settle limit), 1, []⟩

/-- What a thread does to go on. -/
def next (t : Timeline Nat) : Task → Course
  | .advance u => .advance t u.limit u.phase
  | .discard => ⟨.discarded t.discard.1, .update t.discard.2, 1, []⟩

end Course

/-- The handle of a timer with a callback, or of a ticker. -/
def Kind.reserved (k? : Option Nat) (id : Nat) : Kind :=
  k?.elim (.ticker id) fun k => .timer id (.callback k)

/-- What becomes of a step is decided by what it takes hold of and by the timeline `t` of its
source. -/
def Deed.course (frozen : Bool) (t : Timeline Nat) : Deed → Hold → Course
  | .onClock _ c, .clock p? => ((Plan.onClock frozen p? t c).map .planned).getD .refused
  | .onHandle c, .handle k => ((Plan.onHandle frozen k t c).map .planned).getD .refused
  | .reserve _ name k?, .clock _ =>
    .planned (Plan.created frozen name (.reserved k? t.allocate.1) t.allocate)
  | .callback _ name d k, .clock _ =>
    let new := t.startTimer d (.callback k)
    .planned (Plan.created frozen name (.timer new.1 (.callback k)) new)
  | .startWait _ name count giveUp, .clock _ =>
    match t.register count with
    | some (waiter, t) =>
      { reply := .counted false, effect := .keep t name (.counting waiter giveUp) }
    | none => { reply := .counted true }
  | .stopWait _, .handle (.counting waiter _) =>
    .planned (Plan.answer (.bool (t.queue.wasNotified waiter)) (.update (t.cancel waiter)))
  | .advance _ d, .clock _ =>
    if frozen then { reply := .begun, begun := [.advance ⟨t.limit d, .looking⟩] } else .refused
  | .exchange _ at_, .clock (some p) =>
    { reply := .begun, effect := .exchange p at_, begun := if frozen then [.discard] else [] }
  | .go, .task x => .next t x
  | .leave, .task (.advance ⟨_, .delivering ⟨_, _, .callback _⟩⟩) => { reply := .left, ended := 1 }
  | .pass m, _ => { reply := .passed, effect := .update (t.move m) }
  | _, _ => .refused

/-- The clock that a step is on. -/
def Deed.clock? : Deed → Option String
  | .onClock clock _ | .reserve clock .. | .callback clock .. | .startWait clock ..
  | .advance clock _ | .exchange clock _ => some clock
  | _ => none

/-- The name of the handle that a step is on. -/
def Deed.handle? : Deed → Option String
  | .onHandle c => c.handle?
  | .stopWait name => some name
  | _ => none

namespace Crew

/-- Threads that begin to share the clocks of a process, which starts at `origin`. -/
def start (origin : Instant) (guard : GuardMode) : Crew := ⟨.start origin guard, fun _ => []⟩

/-- The source that a step of the thread `i` is on, and what it takes hold of there. -/
def grip (w : Crew) (i : Nat) : Deed → Option (Source × Hold)
  | .onClock clock _ | .reserve clock .. | .callback clock .. | .startWait clock ..
  | .advance clock _ | .exchange clock _ =>
    (Session.lookup clock w.session.targets).map fun t =>
      (w.session.sourceOf t, .clock t.provider?)
  | .onHandle c => c.handle?.bind fun name =>
    (Session.lookup name w.session.handles).bind fun h => h.parts?.map fun (q, k) => (q, .handle k)
  | .stopWait name =>
    (Session.lookup name w.session.handles).bind fun h => h.parts?.map fun (q, k) => (q, .handle k)
  | .go | .leave => (w.tasks i).head?.map fun (q, x) => (q, .task x)
  | .pass _ => some (.real, .clock none)
  | .newProvider .. | .newSource .. => none

/-- The timeline of a source. -/
def timeline (w : Crew) (q : Source) : Timeline Nat := w.session.clocks.timeline q

/-- Carries out a computation on the session. -/
def perform (w : Crew) (x : Exec (Answer Report)) : Reply × Crew :=
  (.ending (x w.session).1, { w with session := (x w.session).2 })

/-- The thread `i` takes a step on the source `q`. -/
def take (w : Crew) (i : Nat) (q : Source) (x : Course) : Reply × Crew :=
  (x.reply, ⟨x.effect.apply q w.session,
    Function.update w.tasks i (x.begun.map (q, ·) ++ (w.tasks i).drop x.ended)⟩)

/-- A command that is carried out at once has no use for it. -/
def idle : Exec.Runner := ⟨fun _ => pure (), fun _ => pure [], 0⟩

/-- What the thread `i` is told of a step, and the state after it. A step that finds nothing to take
hold of is refused. -/
def step (w : Crew) (i : Nat) (x : Deed) : Reply × Crew :=
  match x with
  | .newProvider name guard =>
    w.perform (Exec.command idle (.source .real) (.newProvider name (some (some guard))))
  | .newSource name at_ =>
    w.perform (Exec.command idle (.source .real) (.newSource name (some at_)))
  | x =>
    match w.grip i x with
    | none => (.refused, w)
    | some (q, hold) =>
      match x, hold with
      | .onClock _ c, .clock p? =>
        if c.isOnClock then w.perform (Exec.command idle (p?.elim (.source q) .provider) c)
        else (.refused, w)
      | .onHandle c, .handle _ => w.perform (Exec.command idle (.source .real) c)
      | .callback _ name d k, .clock _ => w.perform (Exec.newTimer q name d (.callback k))
      | .stopWait _, .handle (.counting waiter giveUp) =>
        w.perform (return .bool (← Exec.stopCounting (.counting q waiter giveUp)))
      | x, hold => w.take i q (x.course (q != .real) (w.timeline q) hold)

variable {w : Crew} {i : Nat} {q : Source} {x : Deed} {hold : Hold}

/-- The ways to take hold of something. -/
inductive Grips (w : Crew) (i : Nat) (x : Deed) : Source → Hold → Prop where
  | clock {clock : String} {t : Target} {q : Source} {p? : Option Nat} (hx : x.clock? = some clock)
      (ht : Session.lookup clock w.session.targets = some t) (hq : w.session.sourceOf t = q)
      (hp : t.provider? = p?) : Grips w i x q (.clock p?)
  | handle {name : String} {q : Source} {k : Kind} (hx : x.handle? = some name)
      (hk : Session.lookup name w.session.handles = some (k.of q)) : Grips w i x q (.handle k)
  | task {q : Source} {y : Task} {rest : List (Source × Task)} (hx : x = .go ∨ x = .leave)
      (hy : w.tasks i = (q, y) :: rest) : Grips w i x q (.task y)
  | pass {m : Move Nat} (hx : x = .pass m) : Grips w i x .real (.clock none)

theorem grip_eq_some : w.grip i x = some (q, hold) ↔ w.Grips i x q hold := by
  constructor
  · intro h
    cases x with
    | newProvider name guard | newSource name t => cases h
    | onClock clock c | reserve clock name k? | callback clock name d k
    | startWait clock name count giveUp | advance clock d | exchange clock at_ =>
      obtain ⟨t, ht, heq⟩ := Option.map_eq_some_iff.mp h
      cases heq
      exact .clock rfl ht rfl rfl
    | onHandle c =>
      obtain ⟨name, hname, h⟩ := Option.bind_eq_some_iff.mp h
      obtain ⟨y, hlookup, hy⟩ := Option.bind_eq_some_iff.mp h
      obtain ⟨⟨q, k⟩, hparts, heq⟩ := Option.map_eq_some_iff.mp hy
      cases heq
      exact .handle hname (Handle.parts?_eq_some.mp hparts ▸ hlookup)
    | stopWait name =>
      obtain ⟨y, hlookup, hy⟩ := Option.bind_eq_some_iff.mp h
      obtain ⟨⟨q, k⟩, hparts, heq⟩ := Option.map_eq_some_iff.mp hy
      cases heq
      exact .handle rfl (Handle.parts?_eq_some.mp hparts ▸ hlookup)
    | go | leave =>
      obtain ⟨⟨q, y⟩, hhead, heq⟩ := Option.map_eq_some_iff.mp h
      cases heq
      obtain ⟨rest, hrest⟩ := List.head?_eq_some_iff.mp hhead
      exact .task (by simp) hrest
    | pass m =>
      cases h
      exact .pass rfl
  · intro h
    cases h with
    | clock hx ht hq hp =>
      subst hq hp
      cases x <;> cases hx <;> exact Option.map_eq_some_iff.mpr ⟨_, ht, rfl⟩
    | @handle name q k hx hk =>
      have hparts : (k.of q).parts? = some (q, k) := Handle.parts?_eq_some.mpr rfl
      cases x with
      | onHandle c =>
        change c.handle? = some name at hx
        rw [grip, hx, Option.bind_some, hk, Option.bind_some, hparts]
        rfl
      | stopWait name' =>
        cases hx
        rw [grip, hk, Option.bind_some, hparts]
        rfl
      | _ => cases hx
    | task hx hy => obtain rfl | rfl := hx <;> rw [grip, hy] <;> rfl
    | pass hx => subst hx; rfl

theorem take_planned (w : Crew) (i : Nat) (q : Source) (p : Ending × Effect) :
    w.take i q (.planned p) =
      (.ending p.1, { w with session := p.2.apply q w.session }) := by
  simp [take, Course.planned]

theorem take_refused (w : Crew) (i : Nat) (q : Source) : w.take i q .refused = (.refused, w) := by
  simp [take, Course.refused, Effect.apply]

theorem perform_eq {x : Exec (Answer Report)} {p : Ending × Effect}
    (h : x w.session = (p.1, p.2.apply q w.session)) (i : Nat) :
    w.perform x = w.take i q (.planned p) := by
  rw [take_planned, perform, h]

/-- Every step on a source takes its course there. -/
theorem step_eq (h : w.grip i x = some (q, hold)) :
    w.step i x = w.take i q (x.course (q != .real) (w.timeline q) hold) := by
  cases x with
  | newProvider name guard | newSource name at_ => cases h
  | onClock clock c =>
    obtain ⟨target, hlookup, heq⟩ := Option.map_eq_some_iff.mp h
    cases heq
    have htarget : target.provider?.elim (.source (w.session.sourceOf target)) .provider =
        target := by cases target <;> rfl
    simp only [step, h, htarget, Deed.course]
    split
    · rename_i hc
      obtain ⟨p, hp⟩ := Plan.exists_onClock hc (w.session.sourceOf target != .real)
        target.provider? (w.timeline (w.session.sourceOf target))
      rw [hp]
      exact perform_eq (Exec.command_onClock hp) i
    · rename_i hc
      rw [Plan.onClock_eq_none (Bool.eq_false_iff.mpr hc)]
      exact (take_refused w i _).symm
  | onHandle c =>
    obtain ⟨name, hname, h'⟩ := Option.bind_eq_some_iff.mp h
    obtain ⟨y, hlookup, hy⟩ := Option.bind_eq_some_iff.mp h'
    obtain ⟨⟨q, k⟩, hparts, heq⟩ := Option.map_eq_some_iff.mp hy
    cases heq
    obtain rfl := Handle.parts?_eq_some.mp hparts
    obtain ⟨p, hp⟩ := Plan.exists_onHandle hname (q != .real) k (w.timeline q)
    simp only [step, h, Deed.course, hp]
    exact perform_eq (Exec.command_onHandle hname hlookup hp) i
  | callback clock name d k =>
    obtain ⟨target, hlookup, heq⟩ := Option.map_eq_some_iff.mp h
    cases heq
    simp only [step, h, Deed.course]
    refine perform_eq ?_ i
    rw [Plan.created, ← Exec.told_eq]
    rfl
  | stopWait name =>
    obtain ⟨y, hlookup, hy⟩ := Option.bind_eq_some_iff.mp h
    obtain ⟨⟨q, k⟩, hparts, heq⟩ := Option.map_eq_some_iff.mp hy
    cases heq
    cases k with
    | counting waiter giveUp =>
      simp only [step, h, Deed.course]
      exact perform_eq rfl i
    | _ => simp only [step, h]
  | _ => simp only [step, h]

theorem step_of_grip_eq_none (h : w.grip i x = none)
    (hp : ∀ name guard, x ≠ .newProvider name guard) (hs : ∀ name t, x ≠ .newSource name t) :
    w.step i x = (.refused, w) := by
  cases x with
  | newProvider name guard => exact absurd rfl (hp name guard)
  | newSource name t => exact absurd rfl (hs name t)
  | _ => simp only [step, h]

/-- The state after some steps, each with its thread. -/
def run (w : Crew) (xs : List (Nat × Deed)) : Crew := xs.foldl (fun w x => (w.step x.1 x.2).2) w

theorem run_append (w : Crew) (xs ys : List (Nat × Deed)) :
    w.run (xs ++ ys) = (w.run xs).run ys :=
  List.foldl_append

end Crew

/-! ### What a step can do -/

/-- The name under which a command keeps a handle, or drops it. -/
def Command.name? : Command Step → Option String
  | .after name _ | .timer name _ | .stoppedTimer name | .ticker name _ | .tryTicker name _
  | .tick name _ | .drop name => some name
  | _ => none

def Deed.name? : Deed → Option String
  | .onClock _ c | .onHandle c => c.name?
  | .reserve _ name _ | .callback _ name _ _ | .startWait _ name _ _ => some name
  | _ => none

/-- The effects that a step can have. -/
inductive Deed.Does (hold : Hold) (x : Deed) : Effect → Prop where
  | nothing : Does hold x .none
  | update (t : Timeline Nat) : Does hold x (.update t)
  | keep {name : String} (hx : x.name? = some name) (t : Timeline Nat) (k : Kind) :
      Does hold x (.keep t name k)
  | aim (name : String) : Does hold x (.aim name)
  | freeze {clock : String} {r : Instant} {p : Nat} (hx : x = .onClock clock (.freeze (some r)))
      (hp : hold = .clock (some p)) : Does hold x (.install p (some r.reading))
  | unfreeze {clock : String} {p : Nat} (hx : x = .onClock clock .unfreeze)
      (hp : hold = .clock (some p)) : Does hold x (.install p none)
  | exchange {clock : String} {p : Nat} {at_ : Option Reading} (hx : x = .exchange clock at_)
      (hp : hold = .clock (some p)) : Does hold x (.exchange p at_)
  | forget {name : String} (hx : x.name? = some name) : Does hold x (.forget name)

variable {frozen : Bool} {t : Timeline Nat} {p? : Option Nat} {c : Command Step} {p : Nat}
  {k : Kind} {at_ : Option Reading} {x : Deed} {hold : Hold} {clock : String}

theorem does_newTicker {d : Delay} {refused : ClockError → Ending × Effect}
    {started : Nat × Timeline Nat → Ending × Effect} (hrefused : ∀ e, x.Does hold (refused e).2)
    (hstarted : ∀ new, x.Does hold (started new).2) :
    x.Does hold (Plan.newTicker t d refused started).2 := by
  unfold Plan.newTicker
  split
  · exact hrefused _
  · exact hstarted _

theorem does_resetTicker {id : Nat} {d : Delay} {refused : ClockError → Ending × Effect}
    (hrefused : ∀ e, x.Does hold (refused e).2) :
    x.Does hold (Plan.resetTicker t id d refused).2 := by
  unfold Plan.resetTicker
  split
  · exact hrefused _
  · exact .update _

theorem does_onClock {plan : Ending × Effect} (h : Plan.onClock frozen p? t c = some plan) :
    (Deed.onClock clock c).Does (.clock p?) plan.2 := by
  cases c with
  | grab name => cases h; exact .aim name
  | freeze r =>
    cases p? with
    | none => cases h; exact .nothing
    | some p =>
      cases r with
      | none => cases h; exact .nothing
      | some r => cases h; exact .freeze rfl rfl
  | unfreeze =>
    cases p? with
    | none => cases h; exact .nothing
    | some p => cases h; exact .unfreeze rfl rfl
  | since r | «until» r => cases p? <;> cases r <;> (cases h; exact .nothing)
  | after name d | timer name d =>
    cases d with
    | none => cases h; exact .nothing
    | some d => cases h; exact .keep rfl _ _
  | stoppedTimer name => cases h; exact .keep rfl _ _
  | ticker name d =>
    cases p? with
    | none => cases h; exact .nothing
    | some p =>
      cases d with
      | none => cases h; exact .nothing
      | some d =>
        cases h
        exact does_newTicker (fun _ => .nothing) fun _ => .keep rfl _ _
  | tryTicker name d | tick name d =>
    cases d with
    | none => cases h; exact .nothing
    | some d =>
      cases h
      exact does_newTicker (fun _ => .nothing) fun _ => .keep rfl _ _
  | isFrozen | now | frozenAt | pending => cases h; exact .nothing
  | _ => cases h

theorem does_onHandle {plan : Ending × Effect} (h : Plan.onHandle frozen k t c = some plan) :
    (Deed.onHandle c).Does hold plan.2 := by
  cases c with
  | stop name | receive name =>
    cases k <;> (cases h; first | exact .update _ | exact .nothing)
  | id name | length name => cases k <;> (cases h; exact .nothing)
  | drop name => cases h; exact .forget rfl
  | reset name d =>
    cases k with
    | timer id deliver =>
      cases d with
      | none => cases h; exact .nothing
      | some d => cases h; exact .update _
    | ticker id =>
      cases d with
      | none => cases h; exact .nothing
      | some d => cases h; exact does_resetTicker fun _ => .nothing
    | _ => cases h; exact .nothing
  | tryReset name d =>
    cases k with
    | ticker id =>
      cases d with
      | none => cases h; exact .nothing
      | some d => cases h; exact does_resetTicker fun _ => .nothing
    | _ => cases h; exact .nothing
  | _ => cases h

theorem does_next (y : Task) : x.Does hold (Course.next t y).effect := by
  unfold Course.next
  split
  · unfold Course.advance
    split
    · split
      · exact .update _
      · exact .nothing
    · exact .update _
    · exact .nothing
    · exact .update _
  · exact .update _

theorem does_course (frozen : Bool) (t : Timeline Nat) (x : Deed) (hold : Hold) :
    x.Does hold (x.course frozen t hold).effect := by
  unfold Deed.course
  split
  · rename_i clock c p?
    cases hplan : Plan.onClock frozen p? t c with
    | none => exact .nothing
    | some plan => exact does_onClock hplan
  · rename_i c k
    cases hplan : Plan.onHandle frozen k t c with
    | none => exact .nothing
    | some plan => exact does_onHandle hplan
  · exact .keep rfl _ _
  · exact .keep rfl _ _
  · split
    · exact .keep rfl _ _
    · exact .nothing
  · exact .update _
  · split <;> exact .nothing
  · exact .exchange rfl rfl
  · exact does_next _
  · exact .nothing
  · exact .update _
  · exact .nothing

/-- Only a provider is frozen and unfrozen. -/
theorem Deed.hold_of_install (h : (x.course frozen t hold).effect = .install p at_) :
    hold = .clock (some p) := by
  have hdoes := does_course frozen t x hold
  rw [h] at hdoes
  cases hdoes with
  | freeze _ hp => exact hp
  | unfreeze _ hp => exact hp

theorem Course.ended_next (t : Timeline Nat) (y : Task) : (Course.next t y).ended = 1 := by
  unfold Course.next
  split
  · unfold Course.advance
    split
    · split <;> rfl
    · rfl
    · rfl
    · rfl
  · rfl

/-- Only what goes on with the innermost task, or leaves it, takes it off. -/
theorem Deed.ended_course (frozen : Bool) (t : Timeline Nat) (x : Deed) (hold : Hold) :
    (x.course frozen t hold).ended = 0 ∨
      (x = .go ∨ x = .leave) ∧ (x.course frozen t hold).ended = 1 := by
  unfold Deed.course
  split
  · cases Plan.onClock frozen _ t _ <;> exact .inl rfl
  · cases Plan.onHandle frozen _ t _ <;> exact .inl rfl
  · exact .inl rfl
  · exact .inl rfl
  · split <;> exact .inl rfl
  · exact .inl rfl
  · split <;> exact .inl rfl
  · exact .inl rfl
  · exact .inr ⟨.inl rfl, Course.ended_next _ _⟩
  · exact .inr ⟨.inr rfl, rfl⟩
  · exact .inl rfl
  · exact .inl rfl

end VirtualClock.Script
