import VirtualClock.Proofs.Script.Session

/-! Every run of a script is a run of a process: so are its steps, however they end, the steps of
its callbacks and those of its scopes. -/

namespace VirtualClock.Script

namespace Exec

variable {α β : Type} {s : Session} {x : Exec α} {f : α → Exec β}

theorem bind_apply (x : Exec α) (f : α → Exec β) (s : Session) :
    (x >>= f) s = match x s with
      | (.ok (.ok a), s') => f a s'
      | (.ok (.error fault), s') => (.ok (.error fault), s')
      | (.error stop, s') => (.error stop, s') := by
  refine (Act.bind_apply (x : Act Session (Except Fault α)) (ExceptT.bindCont f) s).trans ?_
  obtain ⟨r, s'⟩ := x s
  cases r with
  | error stop => rfl
  | ok y => cases y <;> rfl

theorem bind_of_ok {s' : Session} {a : α} (h : x s = (.ok (.ok a), s')) : (x >>= f) s = f a s' := by
  rw [bind_apply, h]

theorem bind_of_fault {s' : Session} {fault : Fault} (h : x s = (.ok (.error fault), s')) :
    (x >>= f) s = (.ok (.error fault), s') := by
  rw [bind_apply, h]

theorem lift_apply (y : Act Session α) (s : Session) :
    (ExceptT.lift y : Exec α) s = ((y s).1.map .ok, (y s).2) := by
  refine (Act.bind_apply y _ s).trans ?_
  obtain ⟨r, s'⟩ := y s
  cases r <;> rfl

/-- A panic is kept for later, together with all that was done before it. -/
theorem attempt_apply {α : Type} (x : Act Session α) (s : Session) :
    (ExceptT.lift (tryCatch (Except.ok <$> x) fun stop => pure (.error stop)) :
      Exec (Except Stop α)) s = (.ok (.ok (x s).1), (x s).2) := by
  rcases hx : x s with ⟨y, s'⟩
  cases y <;>
    simp [ExceptT.lift, tryCatch, tryCatchThe, MonadExceptOf.tryCatch, ExceptT.tryCatch,
      ExceptT.mk, Functor.map, ExceptT.map, bind, StateT.bind, hx, pure, ExceptT.pure, StateT.pure]

/-! ### Computations of steps -/

/-- What `x` does to the clocks of `s` is done by the thread of a process, and if it returns, `post`
holds of its result. -/
def Ends (x : Exec α) (s : Session) (post : α → Session → Prop) : Prop :=
  s.Ready → s.Leads (x s).2 ∧ ∀ a, (x s).1 = .ok (.ok a) → post a (x s).2

/-- A computation whose result does not matter. -/
abbrev Runs (x : Exec α) (s : Session) : Prop := Ends x s fun _ _ => True

variable {mid : α → Session → Prop} {post : β → Session → Prop}

theorem Ends.bind (hx : Ends x s mid)
    (hf : ∀ a s', Clocks.Grew s.clocks s'.clocks → mid a s' → Ends (f a) s' post) :
    Ends (x >>= f) s post := by
  intro hs
  obtain ⟨hleads, hmid⟩ := hx hs
  rw [bind_apply]
  generalize x s = y at hleads hmid ⊢
  obtain ⟨r, s'⟩ := y
  cases r with
  | error stop => exact ⟨hleads, fun _ h => by cases h⟩
  | ok r =>
    cases r with
    | error fault => exact ⟨hleads, fun _ h => by cases h⟩
    | ok a =>
      obtain ⟨hleads', hpost⟩ := hf a s' (hleads.grew hs) (hmid a rfl) (hleads.ready hs)
      exact ⟨hleads.trans hleads', hpost⟩

theorem ends_of_ready (h : s.Ready → Ends x s mid) : Ends x s mid := fun hs => h hs hs

theorem ends_pure {a : α} (h : mid a s) : Ends (pure a) s mid :=
  fun _ => ⟨.refl s, fun _ ha => by cases ha; exact h⟩

theorem ends_throw (fault : Fault) : Ends (throw fault) s mid :=
  fun _ => ⟨.refl s, fun _ h => by cases h⟩

theorem ends_stop (stop : Stop) : Ends (ExceptT.lift (throw stop)) s mid :=
  fun _ => ⟨.refl s, fun _ h => by cases h⟩

theorem ends_lift {y : Act Session α} (h : s.Leads (y s).2) : Runs (ExceptT.lift y) s := by
  refine fun _ => ⟨?_, fun _ _ => trivial⟩
  rw [lift_apply]
  exact h

/-- A part that returns and tells what it does. -/
theorem ends_cons {a : α} {s' : Session} (hx : x s = (.ok (.ok a), s')) (hleads : s.Leads s')
    (h : Clocks.Grew s.clocks s'.clocks → Ends (f a) s' post) : Ends (x >>= f) s post := by
  intro hs
  obtain ⟨hleads', hpost⟩ := h (hleads.grew hs) (hleads.ready hs)
  rw [bind_of_ok hx]
  exact ⟨hleads.trans hleads', hpost⟩

/-- A part that only reads. -/
theorem ends_read {a : α} (hx : x s = (.ok (.ok a), s)) (h : Ends (f a) s post) :
    Ends (x >>= f) s post :=
  ends_cons hx (.refl s) fun _ => h

theorem ends_refused {fault : Fault} (hx : x s = (.ok (.error fault), s)) :
    Ends (x >>= f) s post := by
  intro _
  rw [bind_of_fault hx]
  exact ⟨.refl s, fun _ h => by cases h⟩

theorem ends_operand {f : α → Exec β} {o : Option α} (field : String)
    (h : ∀ a, Ends (f a) s post) : Ends (operand field o >>= f) s post := by
  cases o with
  | none => exact ends_refused rfl
  | some a => exact ends_read rfl (h a)

theorem ends_provider {f : Nat → Exec β} (t : Target) (h : ∀ p, Ends (f p) s post) :
    Ends (provider t >>= f) s post := by
  cases t with
  | provider p => exact ends_read rfl (h p)
  | source q => exact ends_refused rfl

theorem ends_source {f : Source → Exec β} {t : Target} (ht : t.Known s.clocks)
    (h : ∀ q, s.clocks.Knows q → Ends (f q) s post) : Ends (source t >>= f) s post := by
  refine ends_of_ready fun hs => ends_read (x := source t) rfl (h _ ?_)
  cases t with
  | provider p => exact hs.sane.source_known p
  | source q => exact ht

theorem ends_handle {f : Handle → Exec β} (name : String)
    (h : ∀ x, x.Known s.clocks → Ends (f x) s post) : Ends (handle name >>= f) s post := by
  refine ends_of_ready fun hs => ?_
  have hget : (get : Exec Session) s = (.ok (.ok s), s) := rfl
  cases hlookup : Session.lookup name s.handles with
  | none =>
    have hnone : handle name s = (.ok (.error .unknownHandle), s) := by
      rw [handle, bind_of_ok hget, hlookup]
      rfl
    exact ends_refused hnone
  | some x =>
    have hsome : handle name s = (.ok (.ok x), s) := by
      rw [handle, bind_of_ok hget, hlookup]
      rfl
    obtain ⟨n, hmem⟩ := Session.mem_of_lookup hlookup
    exact ends_read hsome (h x (hs.proper.handles _ hmem))

theorem ends_timeline {f : Timeline Nat → Exec β} {q : Source}
    (h : Ends (f (s.clocks.timeline q)) s post) : Ends (timeline q >>= f) s post :=
  ends_read (x := timeline q) rfl h

theorem ends_get {f : Session → Exec β} (h : Ends (f s) s post) : Ends (get >>= f) s post :=
  ends_read (x := get) rfl h

theorem ends_modify {f : Unit → Exec β} {g : Session → Session} (hleads : s.Leads (g s))
    (h : Ends (f ()) (g s) post) : Ends (modify g >>= f) s post :=
  ends_cons (x := modify g) rfl hleads fun _ => h

theorem ends_onClocks {f : Unit → Exec β} {p : Nat} (at_ : Option Reading)
    (h : Ends (f ()) (s.commit (s.clocks.install p at_)) post) :
    Ends (onClocks (·.install p at_) >>= f) s post :=
  ends_cons (x := onClocks (·.install p at_)) rfl (Session.leads_install p at_) fun _ => h

/-- A use of a timeline. -/
theorem ends_onTimeline {f : α → Exec β} {q : Source} {g : Timeline Nat → α × Timeline Nat}
    (hq : s.clocks.Knows q) {u : Use Nat} (hu : (s.clocks.timeline q).Allows u)
    (hg : (g (s.clocks.timeline q)).2 = (s.clocks.timeline q).use u)
    (h : ∀ s', Clocks.Grew s.clocks s'.clocks →
      s'.clocks.timeline q = (s.clocks.timeline q).use u →
      Ends (f (g (s.clocks.timeline q)).1) s' post) : Ends (onTimeline q g >>= f) s post := by
  have hx : onTimeline q g s = (.ok (.ok (g (s.clocks.timeline q)).1),
      s.update q ((s.clocks.timeline q).use u)) := by
    rw [← hg]
    rfl
  refine ends_cons hx (Session.leads_use hq hu) fun hgrew => h _ hgrew ?_
  exact Clocks.timeline_setTimeline _ q _

/-! ### Parts of commands -/

variable {r : Runner}

/-- Callbacks and scopes are done by the thread of a process. -/
structure Runner.Acts (r : Runner) : Prop where
  call : ∀ k, Session.base.Acts (r.call k)
  scope : ∀ steps, Session.base.Acts (r.scope steps)

theorem runs_panic (message : String) : Ends (panic message : Exec α) s mid := ends_stop _

theorem runs_block (hr : r.Acts) (ready : Session → Bool) (limit : Option Instant) :
    Runs (block r ready limit) s :=
  ends_lift (Session.acts_iff.mp (Session.acts_block hr.call ready limit r.fuel) s)

theorem runs_advance (hr : r.Acts) {q : Source} (hq : s.clocks.Knows q) (hreal : q ≠ .real)
    (d : Delay) : Runs (advance r q d) s :=
  ends_lift (Session.leads_advance hr.call hq hreal r.fuel d)

theorem runs_newTimer {q : Source} (hq : s.clocks.Knows q) (name : String) (d : Delay)
    (deliver : Delivery Nat) : Runs (newTimer q name d deliver) s := by
  refine ends_onTimeline hq (u := .start d .zero deliver) trivial rfl fun s' hgrew ht => ?_
  refine ends_modify (Session.leads_keep name ⟨hgrew.knows hq, ?_⟩) (ends_pure trivial)
  rw [ht]
  exact Nat.le_of_eq (Timeline.lastId_start _ d .zero deliver).symm

/-- A new ticker has an id that was handed out. -/
theorem ends_newTicker {q : Source} (hq : s.clocks.Knows q) (d : Delay) :
    Ends (newTicker q d) s fun result s' => ∀ id, result = .ok id →
      s'.clocks.Knows q ∧ id ≤ (s'.clocks.timeline q).queue.lastId := by
  refine ends_timeline ?_
  cases hstart : (s.clocks.timeline q).startTicker d with
  | error e => exact ends_pure fun id h => by cases h
  | ok new =>
    obtain ⟨id, t⟩ := new
    obtain ⟨-, rfl, rfl⟩ := Timeline.startTicker_eq_ok.mp hstart
    have hleads := Session.leads_use hq (u := .start d d .channel) trivial
    refine ends_cons (x := modify _) rfl hleads fun hgrew => ends_pure fun id h => ?_
    cases h
    refine ⟨hgrew.knows hq, ?_⟩
    rw [show (s.update q _).clocks.timeline q = _ from Clocks.timeline_setTimeline _ q _]
    exact Nat.le_of_eq (Timeline.lastId_start _ d d .channel).symm

theorem runs_resetTicker {q : Source} {id : Nat} (hq : s.clocks.Knows q)
    (hid : id ≤ (s.clocks.timeline q).queue.lastId) (d : Delay) : Runs (resetTicker q id d) s := by
  refine ends_of_ready fun hs => ends_timeline ?_
  cases hreset : (s.clocks.timeline q).resetTicker id d with
  | error e => exact ends_pure trivial
  | ok result =>
    obtain ⟨was, t⟩ := result
    obtain ⟨-, -, rfl⟩ := (Timeline.resetTicker_eq_ok (hs.sane.valid q)).mp hreset
    have hleads := Session.leads_use hq (u := .reset id d d .channel) hid
    exact ends_cons (x := modify _) rfl hleads fun _ => ends_pure trivial

theorem ends_channel (x : Handle) (hx : x.Known s.clocks) :
    Ends (channel x) s fun (q, _) s' => s'.clocks.Knows q := by
  cases x with
  | timer q id deliver => exact ends_pure hx.1
  | ticker q id => exact ends_pure hx.1
  | channel q id => exact ends_pure hx
  | thread t => exact ends_throw _

theorem runs_describe (x : Handle) : Runs (describe x) s := by
  cases x with
  | timer q id deliver => exact ends_pure trivial
  | ticker q id => exact ends_pure trivial
  | channel q id => exact ends_throw _
  | thread t => exact ends_throw _

theorem ends_startCounting {q : Source} (hq : s.clocks.Knows q) (count ms : Nat) :
    Ends (startCounting q count ms) s fun t s' => t.Known s'.clocks := by
  refine ends_timeline ?_
  split
  · exact ends_pure trivial
  · cases hregister : (s.clocks.timeline q).register count with
    | none => exact ends_pure trivial
    | some new =>
      obtain ⟨waiter, t⟩ := new
      have ht : (s.clocks.timeline q).use (.call (.register count)) = t := by
        rw [Timeline.use, Timeline.move, hregister]
        rfl
      have hleads := Session.leads_use hq (u := .call (.register count)) rfl
      rw [ht] at hleads
      refine ends_cons (x := modify _) rfl hleads fun hgrew => ?_
      exact ends_read (x := inReal ms) rfl (ends_pure (hgrew.knows hq))

theorem ends_startSleep {q : Source} (hq : s.clocks.Knows q) (d : Delay) :
    Ends (startSleep q d) s fun t s' => t.Known s'.clocks := by
  unfold startSleep
  split
  · exact ends_pure trivial
  · cases q with
    | real => exact ends_get (ends_pure trivial)
    | frozen i =>
      exact ends_onTimeline hq (u := .start d .zero .channel) trivial rfl
        fun _ _ _ => ends_pure trivial

theorem runs_await (hr : r.Acts) (thread : Thread) (limit : Option Instant) :
    Runs (await r thread limit) s :=
  (runs_block hr _ _).bind fun _ _ _ _ => ends_get (ends_pure trivial)

theorem runs_stopCounting {thread : Thread} (hthread : thread.Known s.clocks) :
    Runs (stopCounting thread) s := by
  cases thread with
  | counting q waiter wake =>
    have hcancel := Session.leads_use (s := s) hthread (u := .call (.cancel waiter)) rfl
    exact fun _ => ⟨hcancel, fun _ _ => trivial⟩
  | ended result => cases result <;> exact ends_pure trivial
  | _ => exact ends_pure trivial

theorem tryReceive_snd (t : Timeline Nat) (id : Nat) (held : Bool) :
    (t.tryReceive id held).2 = t.use (.call (.receive id)) := by
  rw [Timeline.tryReceive, Timeline.use, Timeline.move]
  cases t.receive id <;> rfl

/-! ### Commands -/

variable {target : Target}

theorem runs_scoped (hr : r.Acts) (at_ : Option Instant) (steps : List Step) :
    Runs (command r target (.scoped at_ steps)) s := by
  refine ends_provider target fun p => ends_operand "at" fun t => ?_
  refine ends_onClocks (some t.reading) ?_
  refine ends_cons (attempt_apply _ _) (Session.acts_iff.mp (hr.scope steps) _) fun _ => ?_
  refine ends_onClocks none ?_
  split
  · exact ends_pure trivial
  · exact ends_stop _

/-- Commands that make a clock. -/
theorem runs_making (ht : target.Known s.clocks) (name : String) :
    (∀ guard, Runs (command r target (.newProvider name guard)) s) ∧
    (∀ at_, Runs (command r target (.newSource name at_)) s) ∧
    Runs (command r target (.grab name)) s := by
  refine ⟨fun guard => ?_, fun at_ => ?_, ?_⟩
  · refine ends_operand "guard" fun guard => ends_get ?_
    have hnew : s.Leads { s with clocks := (s.clocks.newProvider guard).2 } :=
      Session.leads_of_step (x := .newProvider guard) (fun _ => rfl) rfl rfl
    exact ends_modify (hnew.trans (Session.leads_aim name trivial)) (ends_pure trivial)
  · refine ends_get (ends_operand "at" fun t => ?_)
    have hnew : s.Leads { s with clocks := (s.clocks.newTimeline t.reading).2 } :=
      Session.leads_of_step (x := .newTimeline t.reading) (fun _ => rfl) rfl rfl
    have hknown : Target.Known (s.clocks.newTimeline t.reading).2
        (.source (s.clocks.newTimeline t.reading).1) :=
      ⟨Nat.succ_pos _, Nat.le_refl _⟩
    exact ends_modify (hnew.trans (Session.leads_aim name hknown)) (ends_pure trivial)
  · exact ends_source ht fun q hq => ends_modify (Session.leads_aim name hq) (ends_pure trivial)

/-- Commands that freeze or unfreeze a provider. -/
theorem runs_freezing :
    (∀ at_, Runs (command r target (.freeze at_)) s) ∧
    (∀ at_, Runs (command r target (.freezeUnfreeze at_)) s) ∧
    Runs (command r target .unfreeze) s := by
  refine ⟨fun at_ => ?_, fun at_ => ?_, ?_⟩
  · refine ends_provider target fun p => ends_operand "at" fun t => ?_
    exact ends_onClocks (some t.reading) (ends_pure trivial)
  · refine ends_provider target fun p => ends_operand "at" fun t => ?_
    exact ends_onClocks (some t.reading) (ends_onClocks none (ends_pure trivial))
  · exact ends_provider target fun p => ends_onClocks none (ends_pure trivial)

/-- Commands that read a clock. -/
theorem runs_reading (ht : target.Known s.clocks) :
    Runs (command r target .guardMode) s ∧
    Runs (command r target .isFrozen) s ∧
    Runs (command r target .now) s ∧
    (∀ at_, Runs (command r target (.since at_)) s) ∧
    (∀ at_, Runs (command r target (.until at_)) s) ∧
    Runs (command r target .frozenAt) s ∧
    Runs (command r target .pending) s ∧
    Runs (command r target (.describe none)) s := by
  refine ⟨?_, ?_, ?_, fun at_ => ?_, fun at_ => ?_, ?_, ?_, ?_⟩
  · exact ends_provider target fun p => ends_get (ends_pure trivial)
  · exact ends_source ht fun q _ => ends_pure trivial
  · exact ends_source ht fun q _ => ends_timeline (ends_pure trivial)
  · refine ends_provider target fun _ => ends_operand "at" fun t => ?_
    exact ends_source ht fun q _ => ends_timeline (ends_pure trivial)
  · refine ends_provider target fun _ => ends_operand "at" fun t => ?_
    exact ends_source ht fun q _ => ends_timeline (ends_pure trivial)
  · refine ends_source ht fun q _ => ?_
    cases q with
    | real => exact ends_pure trivial
    | frozen i => exact ends_timeline (ends_pure trivial)
  · refine ends_get (ends_source ht fun q _ => ?_)
    cases q <;> exact ends_pure trivial
  · exact ends_get (by cases target <;> exact ends_pure trivial)

/-- Commands that advance a clock. -/
theorem runs_advancing (hr : r.Acts) (ht : target.Known s.clocks) (d : Option Delay) :
    Runs (command r target (.advance d)) s ∧ Runs (command r target (.tryAdvance d)) s := by
  constructor
  · refine ends_operand "d" fun d => ends_source ht fun q hq => ?_
    cases q with
    | real =>
      cases target with
      | provider p => exact runs_panic _
      | source q => exact ends_throw _
    | frozen i =>
      have hadvance := runs_advance hr hq (by simp) d
      cases target <;> exact hadvance.bind fun _ _ _ _ => ends_pure trivial
  · refine ends_provider target fun _ => ends_operand "d" fun d => ends_source ht fun q hq => ?_
    cases q with
    | real => exact ends_throw _
    | frozen i => exact (runs_advance hr hq (by simp) d).bind fun _ _ _ _ => ends_pure trivial

/-- Commands that make a timer. -/
theorem runs_newTimers (ht : target.Known s.clocks) (name : String) :
    (∀ d, Runs (command r target (.after name d)) s) ∧
    (∀ d, Runs (command r target (.timer name d)) s) ∧
    Runs (command r target (.stoppedTimer name)) s ∧
    ∀ d steps limit, Runs (command r target (.func name d steps limit)) s := by
  refine ⟨fun d => ?_, fun d => ?_, ?_, fun d steps limit => ?_⟩
  · refine ends_operand "d" fun d => ends_source ht fun q hq => ?_
    refine ends_onTimeline hq (u := .start d .zero .channel) trivial rfl fun s' hgrew _ => ?_
    exact ends_modify (Session.leads_keep name (hgrew.knows hq)) (ends_pure trivial)
  · refine ends_operand "d" fun d => ends_source ht fun q hq => ?_
    exact runs_newTimer hq name d .channel
  · refine ends_source ht fun q hq => ?_
    refine ends_onTimeline hq (u := .call .allocate) rfl rfl fun s' hgrew ht' => ?_
    refine ends_modify (Session.leads_keep name ⟨hgrew.knows hq, ?_⟩) (ends_pure trivial)
    rw [ht']
    exact Nat.le_refl _
  · refine ends_operand "d" fun d => ends_get ?_
    let s₁ := (s.addCallback ⟨name, target, steps, limit⟩).2
    refine ends_cons (x := set s₁) rfl (Session.leads_of_eq rfl rfl rfl) fun _ => ?_
    exact ends_source (s := s₁) ht fun q hq => runs_newTimer hq name d _

/-- Commands that make a ticker. -/
theorem runs_newTickers (ht : target.Known s.clocks) (name : String) (d : Option Delay) :
    Runs (command r target (.ticker name d)) s ∧ Runs (command r target (.tryTicker name d)) s ∧
    Runs (command r target (.tick name d)) s := by
  refine ⟨?_, ?_, ?_⟩
  · refine ends_provider target fun _ => ends_operand "d" fun d => ends_source ht fun q hq => ?_
    refine (ends_newTicker hq d).bind fun result s' _ hresult => ?_
    cases result with
    | error e => exact runs_panic _
    | ok id => exact ends_modify (Session.leads_keep name (hresult id rfl)) (ends_pure trivial)
  · refine ends_operand "d" fun d => ends_source ht fun q hq => ?_
    refine (ends_newTicker hq d).bind fun result s' _ hresult => ?_
    cases result with
    | error e => exact ends_throw _
    | ok id => exact ends_modify (Session.leads_keep name (hresult id rfl)) (ends_pure trivial)
  · refine ends_operand "d" fun d => ends_source ht fun q hq => ?_
    refine (ends_newTicker hq d).bind fun result s' _ hresult => ?_
    cases result with
    | error e => exact ends_pure trivial
    | ok id => exact ends_modify (Session.leads_keep name (hresult id rfl).1) (ends_pure trivial)

/-- Commands that arm or disarm what a handle stands for. -/
theorem runs_arming (name : String) :
    Runs (command r target (.stop name)) s ∧
    (∀ d, Runs (command r target (.reset name d)) s) ∧
    ∀ d, Runs (command r target (.tryReset name d)) s := by
  refine ⟨?_, fun d => ?_, fun d => ?_⟩
  · refine ends_handle name fun x hx => ?_
    cases x with
    | timer q id deliver =>
      exact ends_onTimeline hx.1 (u := .call (.disarm id)) rfl rfl fun _ _ _ => ends_pure trivial
    | ticker q id =>
      exact ends_onTimeline hx.1 (u := .call (.disarm id)) rfl rfl fun _ _ _ => ends_pure trivial
    | channel q id => exact ends_throw _
    | thread t => exact ends_throw _
  · refine ends_handle name fun x hx => ?_
    cases x with
    | timer q id deliver =>
      refine ends_operand "d" fun d => ?_
      exact ends_onTimeline hx.1 (u := .reset id d .zero deliver) hx.2 rfl
        fun _ _ _ => ends_pure trivial
    | ticker q id =>
      refine ends_operand "d" fun d => (runs_resetTicker hx.1 hx.2 d).bind fun result _ _ _ => ?_
      cases result with
      | error e => exact runs_panic _
      | ok was => exact ends_pure trivial
    | channel q id => exact ends_throw _
    | thread t => exact ends_throw _
  · refine ends_handle name fun x hx => ?_
    cases x with
    | ticker q id =>
      refine ends_operand "d" fun d => (runs_resetTicker hx.1 hx.2 d).bind fun result _ _ _ => ?_
      cases result with
      | error e => exact ends_throw _
      | ok was => exact ends_pure trivial
    | _ => exact ends_throw _

/-- Commands that tell of a handle, and the one that lets it go. -/
theorem runs_handling (name : String) :
    Runs (command r target (.id name)) s ∧ Runs (command r target (.drop name)) s ∧
    Runs (command r target (.describe (some name))) s := by
  refine ⟨?_, ?_, ?_⟩
  · refine ends_handle name fun x _ => ?_
    cases x <;> first | exact ends_pure trivial | exact ends_throw _
  · exact ends_get (ends_modify (Session.leads_forget _) (ends_pure trivial))
  · refine ends_handle name fun x _ => ?_
    exact (runs_describe x).bind fun _ _ _ _ => ends_pure trivial

/-- Commands on a channel. -/
theorem runs_receiving (hr : r.Acts) (name : String) :
    Runs (command r target (.length name)) s ∧ Runs (command r target (.receive name)) s ∧
    ∀ ms, Runs (command r target (.receiveWithin name ms)) s := by
  refine ⟨?_, ?_, fun ms => ?_⟩
  · refine ends_handle name fun x hx => (ends_channel x hx).bind fun c _ _ _ => ?_
    exact ends_timeline (ends_pure trivial)
  · refine ends_handle name fun x hx => (ends_channel x hx).bind fun (q, id, held) s' _ hq => ?_
    exact ends_onTimeline hq (u := .call (.receive id)) rfl (tryReceive_snd _ id held)
      fun _ _ _ => ends_pure trivial
  · refine ends_handle name fun x hx => (ends_channel x hx).bind fun (q, id, held) s' _ hq => ?_
    refine ends_read (x := inReal ms) rfl ((runs_block hr _ _).bind fun ready s₁ hgrew _ => ?_)
    cases ready with
    | true =>
      exact ends_onTimeline (hgrew.knows hq) (u := .call (.receive id)) rfl
        (tryReceive_snd _ id held) fun _ _ _ => ends_pure trivial
    | false => exact ends_pure trivial

/-- Commands that wait for what is on a clock. -/
theorem runs_waiting (hr : r.Acts) (ht : target.Known s.clocks) :
    (∀ count ms, Runs (command r target (.wait count ms)) s) ∧
    ∀ d, Runs (command r target (.sleep d)) s := by
  refine ⟨fun count ms => ?_, fun d => ?_⟩
  · refine ends_operand "count" fun count => ends_source ht fun q hq => ?_
    refine (ends_startCounting hq count ms).bind fun t s' _ hknown => ?_
    refine (runs_await hr t none).bind fun _ s'' hgrew _ => ?_
    exact (runs_stopCounting (hknown.grew hgrew)).bind fun _ _ _ _ => ends_pure trivial
  · refine ends_operand "d" fun d => ends_source ht fun q hq => ?_
    refine (ends_startSleep hq d).bind fun t s' _ _ => ?_
    exact (runs_await hr t none).bind fun _ _ _ _ => ends_pure trivial

/-- Commands that let another thread wait, or wait for other threads. -/
theorem runs_threads (hr : r.Acts) (ht : target.Known s.clocks) :
    (∀ name d, Runs (command r target (.spawnSleep name d)) s) ∧
    (∀ name count ms, Runs (command r target (.spawnWait name count ms)) s) ∧
    (∀ name ms, Runs (command r target (.join name ms)) s) ∧
    ∀ count ms, Runs (command r target (.waitFired count ms)) s := by
  refine ⟨fun name d => ?_, fun name count ms => ?_, fun name ms => ?_, fun count ms => ?_⟩
  · refine ends_operand "d" fun d => ends_source ht fun q hq => ?_
    refine (ends_startSleep hq d).bind fun t s' _ hknown => ?_
    exact ends_modify (Session.leads_keep name hknown) (ends_pure trivial)
  · refine ends_operand "count" fun count => ends_source ht fun q hq => ?_
    refine (ends_startCounting hq count ms).bind fun t s' _ hknown => ?_
    refine ends_modify (Session.leads_keep name hknown) ?_
    refine ends_read (x := inReal 40) rfl ?_
    exact (runs_await hr t _).bind fun _ _ _ _ => ends_pure trivial
  · refine ends_handle name fun x _ => ?_
    cases x with
    | thread t =>
      refine ends_read (x := inReal ms) rfl ?_
      exact (runs_await hr t _).bind fun _ _ _ _ => ends_pure trivial
    | _ => exact ends_throw _
  · refine ends_read (x := inReal ms) rfl ?_
    exact (runs_block hr _ _).bind fun _ _ _ _ => ends_pure trivial

theorem runs_command (hr : r.Acts) (ht : target.Known s.clocks) (c : Command Step) :
    Runs (command r target c) s := by
  match c with
  | .newProvider name guard => exact (runs_making ht name).1 guard
  | .newSource name at_ => exact (runs_making ht name).2.1 at_
  | .grab name => exact (runs_making ht name).2.2
  | .freeze at_ => exact runs_freezing.1 at_
  | .freezeUnfreeze at_ => exact runs_freezing.2.1 at_
  | .unfreeze => exact runs_freezing.2.2
  | .scoped at_ steps => exact runs_scoped hr at_ steps
  | .guardMode => exact (runs_reading ht).1
  | .isFrozen => exact (runs_reading ht).2.1
  | .now => exact (runs_reading ht).2.2.1
  | .since at_ => exact (runs_reading ht).2.2.2.1 at_
  | .until at_ => exact (runs_reading ht).2.2.2.2.1 at_
  | .frozenAt => exact (runs_reading ht).2.2.2.2.2.1
  | .pending => exact (runs_reading ht).2.2.2.2.2.2.1
  | .describe none => exact (runs_reading ht).2.2.2.2.2.2.2
  | .realPending => exact ends_get (ends_pure trivial)
  | .advance d => exact (runs_advancing hr ht d).1
  | .tryAdvance d => exact (runs_advancing hr ht d).2
  | .after name d => exact (runs_newTimers ht name).1 d
  | .timer name d => exact (runs_newTimers ht name).2.1 d
  | .stoppedTimer name => exact (runs_newTimers ht name).2.2.1
  | .func name d steps limit => exact (runs_newTimers ht name).2.2.2 d steps limit
  | .ticker name d => exact (runs_newTickers ht name d).1
  | .tryTicker name d => exact (runs_newTickers ht name d).2.1
  | .tick name d => exact (runs_newTickers ht name d).2.2
  | .stop name => exact (runs_arming name).1
  | .reset name d => exact (runs_arming name).2.1 d
  | .tryReset name d => exact (runs_arming name).2.2 d
  | .id name => exact (runs_handling name).1
  | .drop name => exact (runs_handling name).2.1
  | .describe (some name) => exact (runs_handling name).2.2
  | .length name => exact (runs_receiving hr name).1
  | .receive name => exact (runs_receiving hr name).2.1
  | .receiveWithin name ms => exact (runs_receiving hr name).2.2 ms
  | .wait count ms => exact (runs_waiting hr ht).1 count ms
  | .sleep d => exact (runs_waiting hr ht).2 d
  | .spawnSleep name d => exact (runs_threads hr ht).1 name d
  | .spawnWait name count ms => exact (runs_threads hr ht).2.1 name count ms
  | .join name ms => exact (runs_threads hr ht).2.2.1 name ms
  | .waitFired count ms => exact (runs_threads hr ht).2.2.2 count ms
  | .configureGlobal | .unknown => exact ends_throw _

end Exec

/-! ### Steps, scopes and callbacks -/

open Session (base)

variable {α β : Type} {s : Session}

theorem leads_bind {x : Act Session α} {f : α → Act Session β} (hx : s.Leads (x s).2)
    (hf : ∀ a (s' : Session), s'.Leads (f a s').2) : s.Leads ((x >>= f) s).2 := by
  rw [Act.bind_apply]
  generalize x s = y at hx ⊢
  obtain ⟨r, s'⟩ := y
  cases r with
  | error stop => exact hx
  | ok a => exact hx.trans (hf a s')

theorem leads_get {f : Session → Act Session β} (h : s.Leads (f s s).2) :
    s.Leads (((get : Act Session Session) >>= f) s).2 := by
  rw [Act.bind_of_ok (Act.get_apply s)]
  exact h

theorem caught_snd (x : Exec (Answer Report)) (s : Session) : (caught x s).2 = (x s).2 := by
  unfold caught
  split
  · rename_i h
    rw [h]
  · rfl

variable {r : Exec.Runner}

theorem acts_outcome (hr : r.Acts) (inner : Bool) (step : Step) :
    base.Acts (step.outcome r inner) := by
  refine Session.acts_iff.mpr fun s => Session.leads_of_ready fun hs => ?_
  obtain ⟨on, uncaught, c⟩ := step
  refine leads_get ?_
  cases hlookup : Session.lookup on s.targets with
  | none => exact .refl s
  | some target =>
    obtain ⟨n, hmem⟩ := Session.mem_of_lookup hlookup
    have hleads := (Exec.runs_command hr (hs.proper.targets _ hmem) c hs).1
    rw [← caught_snd] at hleads
    -- The session stays as the command left it, whether its panic is raised again or not.
    refine leads_bind hleads fun outcome s' => ?_
    split
    · split
      · exact .refl s'
      · exact .refl s'
    · exact .refl s'

theorem acts_report (hr : r.Acts) (inner : Bool) (step : Step) :
    base.Acts (step.report r inner) := by
  refine Session.acts_iff.mpr fun s => ?_
  obtain ⟨on, uncaught, c⟩ := step
  refine leads_get (leads_bind (Session.acts_iff.mp (acts_outcome hr inner _) s) fun _ s' => ?_)
  refine leads_get ?_
  -- What is drained is neither clocks nor names.
  exact Session.leads_of_eq rfl rfl rfl

/-- Steps one after another. -/
theorem acts_reports (hr : r.Acts) (inner : Bool) (steps : List Step) :
    base.Acts (steps.mapM (Step.report r inner)) :=
  Base.acts_iff.mpr (Conduct.acts_mapM fun step _ => Base.acts_iff.mp (acts_report hr inner step))

/-- What nests at most `depth` deep, by induction on `depth`. -/
theorem acts_runner (fuel depth : Nat) :
    Exec.Runner.Acts ⟨runCallback fuel depth, runScope fuel depth, fuel⟩ := by
  induction depth with
  | zero => exact ⟨fun _ => Base.acts_throw _, fun _ => Base.acts_throw _⟩
  | succ depth ih =>
    constructor
    · intro k
      refine Session.acts_iff.mpr fun s => leads_get ?_
      cases s.callbacks[k]? with
      | none => exact .refl s
      | some c =>
        refine leads_bind (Session.leads_of_eq rfl rfl rfl) fun _ s' => ?_
        split
        · refine leads_bind (Session.acts_iff.mp (Base.acts_iff.mpr ?_) s') fun _ s'' => .refl s''
          refine Conduct.acts_forIn (fun step _ _ => Base.acts_iff.mp ?_) _
          refine (acts_outcome ih true step).bind fun _ => Session.acts_iff.mpr fun s => ?_
          exact leads_bind (Session.leads_of_eq rfl rfl rfl) fun _ s' => .refl s'
        · exact .refl s'
    · exact fun steps => acts_reports ih true steps

theorem ready_start (origin : Instant) (guard : GuardMode) :
    (Session.start origin guard).Ready where
  proper := by
    refine ⟨fun x hx => ?_, fun x hx => by cases hx⟩
    simp only [Session.start, List.mem_cons, List.not_mem_nil, or_false] at hx
    obtain rfl | rfl := hx <;> trivial
  sane := (Process.sane_start origin).run
    (show (Process.start origin).run [.newProvider guard, .newProvider .locked] = some _ from rfl)

/-- Whatever a script does to its clocks is done by the thread of a process, which is in no advance
afterwards. -/
theorem exists_run_eq (fuel depth : Nat) (origin : Instant) (guard : GuardMode)
    (steps : List Step) : ∃ xs, (Process.start origin).run xs =
      some ⟨(run fuel depth origin guard steps).2.clocks, []⟩ := by
  have hs := ready_start origin guard
  have hacts := acts_reports (acts_runner fuel depth) false steps
  obtain ⟨-, xs, hrun⟩ := hacts (Session.start origin guard) [] hs.proper hs.sane
  exact ⟨.newProvider guard :: .newProvider .locked :: xs, hrun⟩

end VirtualClock.Script
