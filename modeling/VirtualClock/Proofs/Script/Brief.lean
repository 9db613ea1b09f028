import VirtualClock.Proofs.Clocks
import VirtualClock.Proofs.Script.Run

/-! Commands that take one step: what each of them answers and does is decided by the timeline of
its source, and by the kind of its handle, whichever source that is. -/

namespace VirtualClock.Script

/-- What a handle is, apart from its source. -/
inductive Kind where
  | timer (id : Nat) (deliver : Delivery Nat)
  | ticker (id : Nat)
  | channel (id : Nat)
  /-- A thread that waits for pending events. -/
  | counting (waiter : Nat) (giveUp : Instant)
deriving DecidableEq

/-- The handle of a kind, of the source `q`. -/
def Kind.of (q : Source) : Kind → Handle
  | .timer id deliver => .timer q id deliver
  | .ticker id => .ticker q id
  | .channel id => .channel q id
  | .counting waiter giveUp => .thread (.counting q waiter giveUp)

/-- The id of a timer or ticker that can be stopped. -/
def Kind.id? : Kind → Option Nat
  | .timer id _ | .ticker id => some id
  | _ => none

/-- The id of a channel, and whether the handle keeps it connected. -/
def Kind.channel? : Kind → Option (Nat × Bool)
  | .timer id _ | .ticker id => some (id, true)
  | .channel id => some (id, false)
  | .counting .. => none

/-- The source and the kind of a handle. -/
def Handle.parts? : Handle → Option (Source × Kind)
  | .timer q id deliver => some (q, .timer id deliver)
  | .ticker q id => some (q, .ticker id)
  | .channel q id => some (q, .channel id)
  | .thread (.counting q waiter giveUp) => some (q, .counting waiter giveUp)
  | .thread _ => none

theorem Handle.parts?_eq_some {h : Handle} {q : Source} {k : Kind} :
    h.parts? = some (q, k) ↔ h = k.of q := by
  constructor
  · intro hp
    unfold parts? at hp
    split at hp <;> cases hp <;> rfl
  · rintro rfl
    cases k <;> rfl

/-- The name of the handle that a command acts on at once. -/
def Command.handle? : Command Step → Option String
  | .stop name | .reset name _ | .tryReset name _ | .id name | .drop name | .length name
  | .receive name => some name
  | _ => none

/-- The provider that a target is. -/
def Target.provider? : Target → Option Nat
  | .provider p => some p
  | .source _ => none

/-- What a step does to a session, apart from its answer. -/
inductive Effect where
  | none
  | update (t : Timeline Nat)
  /-- The timeline is replaced, and a handle is kept under a name. -/
  | keep (t : Timeline Nat) (name : String) (k : Kind)
  | aim (name : String)
  | install (p : Nat) (at_ : Option Reading)
  /-- Another source is installed, and the one that was is yet to be discarded. -/
  | exchange (p : Nat) (at_ : Option Reading)
  | forget (name : String)

/-- The session after a step on the source `q`. -/
def Effect.apply (q : Source) (s : Session) : Effect → Session
  | .none => s
  | .update t => s.update q t
  | .keep t name k => (s.update q t).keep name (k.of q)
  | .aim name => s.aim name (.source q)
  | .install p at_ => s.commit (s.clocks.install p at_)
  | .exchange p at_ => { s with clocks := s.clocks.exchange p at_ }
  | .forget name => { s with handles := s.handles.filter (·.1 != name) }

/-- How a step ends: with an answer or a refusal, or in a panic. -/
abbrev Ending := Except Stop (Except Fault (Answer Report))

namespace Plan

def answer (a : Answer Report) (e : Effect) : Ending × Effect := (.ok (.ok a), e)

def refuse (fault : Fault) : Ending × Effect := (.ok (.error fault), .none)

def panic (message : String) : Ending × Effect := (.error (.panic message), .none)

def operand {α : Type} (field : String) (o : Option α) (f : α → Ending × Effect) :
    Ending × Effect :=
  o.elim (refuse (.malformed field)) f

def provider (p? : Option Nat) (f : Nat → Ending × Effect) : Ending × Effect :=
  p?.elim (refuse .notAProvider) f

/-- A timer that was started, or a ticker. -/
def created (frozen : Bool) (name : String) (k : Kind) (new : Nat × Timeline Nat) :
    Ending × Effect :=
  answer (.created (if frozen then some new.1 else none)) (.keep new.2 name k)

/-- What becomes of a new ticker, which may be refused. -/
def newTicker (t : Timeline Nat) (d : Delay) (refused : ClockError → Ending × Effect)
    (started : Nat × Timeline Nat → Ending × Effect) : Ending × Effect :=
  match t.startTicker d with
  | .error e => refused e
  | .ok new => started new

/-- What becomes of a ticker that gets a new period, which may be refused. -/
def resetTicker (t : Timeline Nat) (id : Nat) (d : Delay)
    (refused : ClockError → Ending × Effect) : Ending × Effect :=
  match t.resetTicker id d with
  | .error e => refused e
  | .ok result => answer (.bool result.1) (.update result.2)

/-- What a command answers and does on a clock: `t` is the timeline of its source, and `p?` tells
which provider it is. -/
def onClock (frozen : Bool) (p? : Option Nat) (t : Timeline Nat) :
    Command Step → Option (Ending × Effect)
  | .grab name => some (answer .done (.aim name))
  | .freeze at_ => some <| provider p? fun p => operand "at" at_ fun at_ =>
      answer .done (.install p (some at_.reading))
  | .unfreeze => some <| provider p? fun p => answer .done (.install p none)
  | .isFrozen => some (answer (.bool frozen) .none)
  | .now => some (answer (.instant t.now) .none)
  | .since at_ => some <| provider p? fun _ => operand "at" at_ fun at_ =>
      answer (.delay (t.reading.since at_.reading)) .none
  | .until at_ => some <| provider p? fun _ => operand "at" at_ fun at_ =>
      answer (.delay (at_.reading.since t.reading)) .none
  | .frozenAt => some (answer (if frozen then .instant t.origin.instant else .noInstant) .none)
  | .pending => some (answer (if frozen then .count t.pending else .noCount) .none)
  | .after name d => some <| operand "d" d fun d =>
      let new := t.startTimer d .channel
      answer .channel (.keep new.2 name (.channel new.1))
  | .timer name d => some <| operand "d" d fun d =>
      let new := t.startTimer d .channel
      created frozen name (.timer new.1 .channel) new
  | .stoppedTimer name => some (created frozen name (.timer t.allocate.1 .channel) t.allocate)
  | .ticker name d => some <| provider p? fun _ => operand "d" d fun d =>
      newTicker t d (panic ·.message) fun new => created frozen name (.ticker new.1) new
  | .tryTicker name d => some <| operand "d" d fun d =>
      newTicker t d (refuse <| .clock ·) fun new => created frozen name (.ticker new.1) new
  | .tick name d => some <| operand "d" d fun d =>
      newTicker t d (fun _ => answer .noTicker .none) fun new =>
        answer .channel (.keep new.2 name (.channel new.1))
  | _ => none

/-- What a command answers and does through a handle of a kind, on a timeline. -/
def onHandle (frozen : Bool) (k : Kind) (t : Timeline Nat) :
    Command Step → Option (Ending × Effect)
  | .stop _ => some <| k.id?.elim (refuse (.unsupported "stop")) fun id =>
      answer (.bool (t.disarm id).1) (.update (t.disarm id).2)
  | .reset _ d => some <|
      match k with
      | .timer id deliver => operand "d" d fun d =>
          let result := t.resetTimer id d deliver
          answer (.bool result.1) (.update result.2)
      | .ticker id => operand "d" d fun d => resetTicker t id d (panic ·.message)
      | _ => refuse (.unsupported "reset")
  | .tryReset _ d => some <|
      match k with
      | .ticker id => operand "d" d fun d => resetTicker t id d (refuse <| .clock ·)
      | _ => refuse (.unsupported "try_reset")
  | .id _ => some <| k.id?.elim (refuse (.unsupported "id")) fun id =>
      answer (.ident (if frozen then some id else none)) .none
  | .drop name => some (answer (.bool true) (.forget name))
  | .length _ => some <| k.channel?.elim (refuse .notAChannel) fun (id, _) =>
      answer (.count (if t.waiting.contains id then 1 else 0)) .none
  | .receive _ => some <| k.channel?.elim (refuse .notAChannel) fun (id, held) =>
      let result := t.tryReceive id held
      answer (.received result.1) (.update result.2)
  | _ => none

end Plan

/-- Whether a command acts on its clock at once. -/
def Command.isOnClock : Command Step → Bool
  | .grab _ | .freeze _ | .unfreeze | .isFrozen | .now | .since _ | .until _ | .frozenAt | .pending
  | .after _ _ | .timer _ _ | .stoppedTimer _ | .ticker _ _ | .tryTicker _ _ | .tick _ _ => true
  | _ => false

theorem Plan.exists_onClock {c : Command Step} (h : c.isOnClock = true) (frozen : Bool)
    (p? : Option Nat) (t : Timeline Nat) : ∃ p, Plan.onClock frozen p? t c = some p := by
  cases c <;> first | exact ⟨_, rfl⟩ | cases h

theorem Plan.onClock_eq_none {c : Command Step} (h : c.isOnClock = false) {frozen : Bool}
    {p? : Option Nat} {t : Timeline Nat} : Plan.onClock frozen p? t c = none := by
  cases c <;> first | rfl | cases h

theorem Plan.exists_onHandle {c : Command Step} {name : String} (h : c.handle? = some name)
    (frozen : Bool) (k : Kind) (t : Timeline Nat) : ∃ p, Plan.onHandle frozen k t c = some p := by
  cases c <;> first | exact ⟨_, rfl⟩ | cases h

namespace Exec

variable {r : Runner} {s : Session} {target : Target} {c : Command Step} {p : Ending × Effect}

theorem told_eq (q : Source) (id : Nat) : told q id = if q != .real then some id else none := by
  cases q <;> rfl

theorem newTicker_bind {q : Source} {d : Delay} {f : Except ClockError Nat → Exec (Answer Report)}
    {refused : ClockError → Ending × Effect} {started : Nat × Timeline Nat → Ending × Effect}
    (hrefused : ∀ e, f (.error e) s = ((refused e).1, (refused e).2.apply q s))
    (hstarted : ∀ new, f (.ok new.1) (s.update q new.2) =
      ((started new).1, (started new).2.apply q s)) :
    (newTicker q d >>= f) s =
      let p := Plan.newTicker (s.clocks.timeline q) d refused started
      (p.1, p.2.apply q s) := by
  cases h : (s.clocks.timeline q).startTicker d with
  | error e =>
    have hnew : newTicker q d s = (.ok (.ok (.error e)), s) := by
      rw [newTicker, bind_of_ok (x := timeline q) rfl, h]
      rfl
    rw [bind_of_ok hnew, hrefused, Plan.newTicker, h]
  | ok new =>
    have hnew : newTicker q d s = (.ok (.ok (.ok new.1)), s.update q new.2) := by
      rw [newTicker, bind_of_ok (x := timeline q) rfl, h]
      rfl
    rw [bind_of_ok hnew, hstarted, Plan.newTicker, h]

theorem resetTicker_bind {q : Source} {id : Nat} {d : Delay}
    {f : Except ClockError Bool → Exec (Answer Report)}
    {refused : ClockError → Ending × Effect}
    (hrefused : ∀ e, f (.error e) s = ((refused e).1, (refused e).2.apply q s))
    (hreset : ∀ was s, f (.ok was) s = (.ok (.ok (.bool was)), s)) :
    (resetTicker q id d >>= f) s =
      let p := Plan.resetTicker (s.clocks.timeline q) id d refused
      (p.1, p.2.apply q s) := by
  cases h : (s.clocks.timeline q).resetTicker id d with
  | error e =>
    have hfail : resetTicker q id d s = (.ok (.ok (.error e)), s) := by
      rw [resetTicker, bind_of_ok (x := timeline q) rfl, h]
      rfl
    rw [bind_of_ok hfail, hrefused, Plan.resetTicker, h]
  | ok result =>
    have hdone : resetTicker q id d s = (.ok (.ok (.ok result.1)), s.update q result.2) := by
      rw [resetTicker, bind_of_ok (x := timeline q) rfl, h]
      rfl
    rw [bind_of_ok hdone, hreset, Plan.resetTicker, h]
    rfl

/-- A command on a clock does what is planned for the timeline of its source. -/
theorem command_onClock (h : Plan.onClock (s.sourceOf target != .real) target.provider?
    (s.clocks.timeline (s.sourceOf target)) c = some p) :
    command r target c s = (p.1, p.2.apply (s.sourceOf target) s) := by
  cases c with
  | now => cases h; rfl
  | grab name => cases h; rfl
  | isFrozen => cases h; rfl
  | frozenAt =>
    cases h
    rw [command, bind_of_ok (x := source target) rfl]
    cases hq : s.sourceOf target <;> rfl
  | pending =>
    cases h
    rw [command, bind_of_ok (x := get) rfl, bind_of_ok (x := source target) rfl]
    cases hq : s.sourceOf target <;> rfl
  | freeze at_ | since at_ | «until» at_ =>
    cases target with
    | source q => cases h; rfl
    | provider i => cases at_ <;> (cases h; rfl)
  | unfreeze => cases target <;> (cases h; rfl)
  | after name d => cases d <;> (cases h; rfl)
  | timer name d =>
    cases d with
    | none => cases h; rfl
    | some d =>
      cases h
      rw [Plan.operand, Option.elim_some, Plan.created, ← told_eq]
      rfl
  | stoppedTimer name =>
    cases h
    rw [Plan.created, ← told_eq]
    rfl
  | ticker name d =>
    cases target with
    | source q => cases h; rfl
    | provider i =>
      cases d with
      | none => cases h; rfl
      | some d =>
        cases h
        refine newTicker_bind (fun _ => rfl) fun new => ?_
        rw [Plan.created, ← told_eq]
        rfl
  | tryTicker name d =>
    cases d with
    | none => cases h; rfl
    | some d =>
      cases h
      refine newTicker_bind (fun _ => rfl) fun new => ?_
      rw [Plan.created, ← told_eq]
      rfl
  | tick name d =>
    cases d with
    | none => cases h; rfl
    | some d =>
      cases h
      exact newTicker_bind (fun _ => rfl) fun new => rfl
  | _ => cases h

theorem handle_of_lookup {name : String} {x : Handle}
    (h : Session.lookup name s.handles = some x) : handle name s = (.ok (.ok x), s) := by
  rw [handle, bind_of_ok (x := get) rfl, h]
  rfl

theorem handle_of_lookup_eq_none {name : String} (h : Session.lookup name s.handles = none) :
    handle name s = (.ok (.error .unknownHandle), s) := by
  rw [handle, bind_of_ok (x := get) rfl, h]
  rfl

/-- A command on a handle does what is planned for the kind of the handle and the timeline of its
source, whatever clock it is given. -/
theorem command_onHandle {name : String} (hc : c.handle? = some name) {q : Source} {k : Kind}
    (hlookup : Session.lookup name s.handles = some (k.of q))
    (h : Plan.onHandle (q != .real) k (s.clocks.timeline q) c = some p) :
    command r target c s = (p.1, p.2.apply q s) := by
  have hhandle := handle_of_lookup hlookup
  cases c with
  | stop n =>
    cases hc
    cases k <;> (cases h; exact bind_of_ok hhandle)
  | reset n d =>
    cases hc
    cases k with
    | timer id deliver => cases d <;> (cases h; exact bind_of_ok hhandle)
    | ticker id =>
      cases d with
      | none => cases h; exact bind_of_ok hhandle
      | some d =>
        cases h
        exact (bind_of_ok hhandle).trans (resetTicker_bind (fun _ => rfl) fun _ _ => rfl)
    | _ => cases h; exact bind_of_ok hhandle
  | tryReset n d =>
    cases hc
    cases k with
    | ticker id =>
      cases d with
      | none => cases h; exact bind_of_ok hhandle
      | some d =>
        cases h
        exact (bind_of_ok hhandle).trans (resetTicker_bind (fun _ => rfl) fun _ _ => rfl)
    | _ => cases h; exact bind_of_ok hhandle
  | id n =>
    cases hc
    cases q <;> cases k <;> (cases h; exact bind_of_ok hhandle)
  | drop n =>
    cases hc
    cases h
    rw [command, bind_of_ok (x := get) rfl, hlookup]
    rfl
  | length n =>
    cases hc
    cases k <;> (cases h; exact bind_of_ok hhandle)
  | receive n =>
    cases hc
    cases k <;> (cases h; exact bind_of_ok hhandle)
  | _ => cases h

end Exec

end VirtualClock.Script
