import VirtualClock.Proofs.Process.Base
import VirtualClock.Script.Run

/-! The session of a script as a process: what a step, a callback or the passing of real time does
to the clocks is done by the thread of a process, and the names of the script always stand for
clocks and for ids that were handed out. -/

namespace VirtualClock

theorem Clocks.grew_setTimeline {κ : Type} (c : Clocks κ) {q : Source} {t : Timeline κ}
    (h : (c.timeline q).queue.lastId ≤ t.queue.lastId) : Grew c (c.setTimeline q t) where
  lastTimeline_le := Nat.le_of_eq (lastTimeline_setTimeline c q t).symm
  lastId_le q' _ := by
    by_cases hq : q' = q
    · rw [hq, timeline_setTimeline]
      exact h
    · exact Nat.le_of_eq (by rw [timeline_setTimeline_ne c hq])

theorem Process.Sane.outside {κ : Type} {c : Clocks κ} {as : List (Source × Advancing)}
    (h : Sane ⟨c, as⟩) : Sane ⟨c, []⟩ :=
  ⟨h.real_valid, h.tended, h.source_known, fun _ ha => by cases ha⟩

namespace Script

/-! ### Names -/

/-- The target is one of the clocks. -/
def Target.Known (c : Clocks Nat) : Target → Prop
  | .provider _ => True
  | .source q => c.Knows q

/-- What the thread waits for is on one of the clocks. -/
def Thread.Known (c : Clocks Nat) : Thread → Prop
  | .counting q _ _ => c.Knows q
  | _ => True

/-- The handle is of one of the clocks, with an id that was handed out there. -/
def Handle.Known (c : Clocks Nat) : Handle → Prop
  | .timer q id _ | .ticker q id => c.Knows q ∧ id ≤ (c.timeline q).queue.lastId
  | .channel q _ => c.Knows q
  | .thread t => t.Known c

variable {c c' : Clocks Nat}

theorem Target.Known.grew {t : Target} (h : t.Known c) (hg : Clocks.Grew c c') : t.Known c' := by
  cases t with
  | provider p => trivial
  | source q => exact hg.knows h

theorem Thread.Known.grew {t : Thread} (h : t.Known c) (hg : Clocks.Grew c c') : t.Known c' := by
  cases t with
  | counting q waiter wake => exact hg.knows h
  | _ => trivial

theorem Handle.Known.grew {x : Handle} (h : x.Known c) (hg : Clocks.Grew c c') : x.Known c' := by
  cases x with
  | timer q id deliver => exact ⟨hg.knows h.1, Nat.le_trans h.2 (hg.lastId_le q h.1)⟩
  | ticker q id => exact ⟨hg.knows h.1, Nat.le_trans h.2 (hg.lastId_le q h.1)⟩
  | channel q id => exact hg.knows h
  | thread t => exact Thread.Known.grew h hg

namespace Session

/-- All names stand for something. -/
structure Proper (s : Session) : Prop where
  targets : ∀ x ∈ s.targets, x.2.Known s.clocks
  handles : ∀ x ∈ s.handles, x.2.Known s.clocks

variable {s s' s'' : Session}

theorem Proper.grew (h : s.Proper) (hg : Clocks.Grew s.clocks s'.clocks)
    (ht : s'.targets = s.targets) (hh : s'.handles = s.handles) : s'.Proper where
  targets x hx := (h.targets x (ht ▸ hx)).grew hg
  handles x hx := (h.handles x (hh ▸ hx)).grew hg

theorem mem_of_lookup {α : Type} {name : String} {entries : List (String × α)} {a : α}
    (h : lookup name entries = some a) : ∃ n, (n, a) ∈ entries := by
  obtain ⟨⟨n, a'⟩, hfind, rfl⟩ := Option.map_eq_some_iff.mp h
  exact ⟨n, List.mem_of_find?_eq_some hfind⟩

/-- A session keeps the clocks of a process. -/
def base : Base Session Nat where
  clocks := clocks
  site := site
  Proper := Proper
  timeline_eq _ _ := rfl
  clocks_update _ _ _ := rfl
  clocks_record _ _ _ := rfl
  proper_update _ _ s h hle := h.grew (s.clocks.grew_setTimeline hle) rfl rfl
  proper_record _ _ s h := h.grew (.refl s.clocks) rfl rfl

/-! ### From one session to another -/

/-- The thread of a process can take the clocks of `s` to those of `s'`, where all names still stand
for something. -/
def Leads (s s' : Session) : Prop :=
  ∀ as, s.Proper → Process.Sane ⟨s.clocks, as⟩ →
    s'.Proper ∧ ∃ xs, (⟨s.clocks, as⟩ : Process Nat).run xs = some ⟨s'.clocks, as⟩

/-- The session of a process that is in order. -/
structure Ready (s : Session) : Prop where
  proper : s.Proper
  sane : Process.Sane ⟨s.clocks, []⟩

theorem Leads.ready (h : s.Leads s') (hs : s.Ready) : s'.Ready := by
  obtain ⟨hproper, xs, hrun⟩ := h [] hs.proper hs.sane
  exact ⟨hproper, hs.sane.run hrun⟩

theorem Leads.grew (h : s.Leads s') (hs : s.Ready) : Clocks.Grew s.clocks s'.clocks := by
  obtain ⟨-, xs, hrun⟩ := h [] hs.proper hs.sane
  exact hs.sane.grew hrun

theorem leads_of_ready (h : s.Ready → s.Leads s') : s.Leads s' :=
  fun as hproper hsane => h ⟨hproper, hsane.outside⟩ as hproper hsane

theorem Leads.trans (h : s.Leads s') (h' : s'.Leads s'') : s.Leads s'' := by
  intro as hproper hsane
  obtain ⟨hproper', xs, hrun⟩ := h as hproper hsane
  obtain ⟨hproper'', ys, hrun'⟩ := h' as hproper' (hsane.run hrun)
  exact ⟨hproper'', xs ++ ys, (Process.run_of_append hrun).trans hrun'⟩

/-- Nothing happens to the clocks. -/
theorem leads_of_clocks_eq (hc : s'.clocks = s.clocks) (hproper : s.Proper → s'.Proper) :
    s.Leads s' :=
  fun _ h _ => ⟨hproper h, [], by rw [hc]; rfl⟩

/-- Nothing happens to the clocks and to the names. -/
theorem leads_of_eq (hc : s'.clocks = s.clocks) (ht : s'.targets = s.targets)
    (hh : s'.handles = s.handles) : s.Leads s' :=
  leads_of_clocks_eq hc fun h => h.grew (hc ▸ .refl _) ht hh

theorem Leads.refl (s : Session) : s.Leads s := leads_of_eq rfl rfl rfl

/-- The thread takes one action. -/
theorem leads_of_step {x : Process.Action Nat}
    (hstep : ∀ as, (⟨s.clocks, as⟩ : Process Nat).step x = some ⟨s'.clocks, as⟩)
    (ht : s'.targets = s.targets) (hh : s'.handles = s.handles) : s.Leads s' := by
  intro as hproper hsane
  refine ⟨hproper.grew (hsane.grew_of_step (hstep as)) ht hh, [x], ?_⟩
  rw [Process.run_cons, hstep as]
  rfl

theorem leads_use {q : Source} (hq : s.clocks.Knows q) {u : Use Nat}
    (hu : (s.clocks.timeline q).Allows u) :
    s.Leads (s.update q ((s.clocks.timeline q).use u)) :=
  leads_of_step (x := .use q u) (fun _ => if_pos ⟨hq, hu⟩) rfl rfl

theorem leads_pass (m : Move Nat) : s.Leads (s.update .real (s.clocks.real.move m)) :=
  leads_of_step (x := .pass m) (fun _ => rfl) rfl rfl

theorem leads_install (p : Nat) (at_ : Option Reading) :
    s.Leads (s.commit (s.clocks.install p at_)) :=
  leads_of_step (x := .install p at_) (fun _ => rfl) rfl rfl

theorem leads_keep (name : String) {x : Handle} (hx : x.Known s.clocks) :
    s.Leads (s.keep name x) := by
  refine leads_of_clocks_eq rfl fun h => ⟨h.targets, fun y hy => ?_⟩
  obtain rfl | hy := List.mem_cons.mp hy
  · exact hx
  · exact h.handles y ((List.mem_filter.mp hy).1)

theorem leads_aim (name : String) {t : Target} (ht : t.Known s.clocks) :
    s.Leads (s.aim name t) := by
  refine leads_of_clocks_eq rfl fun h => ⟨fun y hy => ?_, h.handles⟩
  obtain rfl | hy := List.mem_cons.mp hy
  · exact ht
  · exact h.targets y ((List.mem_filter.mp hy).1)

theorem leads_forget (p : String × Handle → Bool) :
    s.Leads { s with handles := s.handles.filter p } :=
  leads_of_clocks_eq rfl fun h =>
    ⟨h.targets, fun y hy => h.handles y ((List.mem_filter.mp hy).1)⟩

theorem acts_iff {α : Type} {x : Act Session α} : base.Acts x ↔ ∀ s : Session, s.Leads (x s).2 :=
  Iff.rfl

theorem leads_advance {call : Nat → Act Session Unit} (hcall : ∀ k, base.Acts (call k))
    {q : Source} (hq : s.clocks.Knows q) (hreal : q ≠ .real) (fuel : Nat) (d : Delay) :
    s.Leads ((site q).advance call fuel d s).2 := by
  intro as hproper hsane
  obtain ⟨hproper', ⟨xs, hrun⟩, -⟩ :=
    Base.advance_run (b := base) hcall fuel d s as hproper hsane hq hreal
  exact ⟨hproper', .advance q d :: xs, hrun⟩

/-! ### Real time -/

theorem leads_foldl {f : Session → String × Handle → Session}
    (hf : ∀ (s : Session) x, x.2.Known s.clocks → s.Leads (f s x)) (l : List (String × Handle))
    (hs : s.Ready) (hl : ∀ x ∈ l, x.2.Known s.clocks) : s.Leads (l.foldl f s) := by
  induction l generalizing s with
  | nil => exact .refl s
  | cons x l ih =>
    have hone := hf s x (hl x List.mem_cons_self)
    refine hone.trans (ih (hone.ready hs) fun y hy => ?_)
    exact (hl y (List.mem_cons_of_mem x hy)).grew (hone.grew hs)

theorem leads_giveUp : s.Leads s.giveUp := by
  refine leads_of_ready fun hs => leads_foldl (fun s x hx => ?_) s.handles hs hs.proper.handles
  obtain ⟨name, x⟩ := x
  dsimp only
  split
  · split
    · exact leads_use hx (u := .call (.cancel _)) rfl
    · exact .refl s
  · exact .refl s

theorem leads_moveTo (t : Instant) : s.Leads (s.moveTo t) :=
  (leads_pass (.settle t)).trans leads_giveUp

variable {call : Nat → Act Session Unit}

/-- A callback in a thread of its own, which logs elsewhere and whose panics end with it. -/
def aside (call : Nat → Act Session Unit) (k : Nat) : Act Session Unit := fun s =>
  match call k s with
  | (.error .outOfFuel, s') => (.error .outOfFuel, s')
  | (_, s') => (.ok (), { s' with logs := s.logs })

theorem acts_aside (hcall : ∀ k, base.Acts (call k)) (k : Nat) : base.Acts (aside call k) := by
  refine acts_iff.mpr fun s => ?_
  have hleads := acts_iff.mp (hcall k) s
  unfold aside
  split
  · rename_i s' hx
    rw [hx] at hleads
    exact hleads
  · rename_i s' _ hx
    rw [hx] at hleads
    exact hleads.trans (leads_of_eq rfl rfl rfl)

theorem leads_deliver (hcall : ∀ k, base.Acts (call k)) (f : Firing (Delivery Nat))
    (value : Instant) : s.Leads ((site .real).deliver call f value s).2 := by
  unfold Site.deliver
  cases f.deliver with
  | channel => exact leads_pass (.send f.id value)
  | callback k => exact acts_iff.mp (hcall k) s

theorem deliverReal_succ (call : Nat → Act Session Unit) (fuel : Nat) (s : Session) :
    deliverReal call (fuel + 1) s =
      match s.clocks.real.popDue s.clocks.real.now with
      | none => (.ok (), s)
      | some (f, t) =>
        match (site .real).deliver (aside call) f t.now (s.update .real t) with
        | (.error stop, s) => (.error stop, s)
        | (.ok _, s) => deliverReal call fuel s := rfl

theorem acts_deliverReal (hcall : ∀ k, base.Acts (call k)) (fuel : Nat) :
    base.Acts (deliverReal call fuel) := by
  refine acts_iff.mpr ?_
  induction fuel with
  | zero => exact Leads.refl
  | succ fuel ih =>
    intro s
    rw [deliverReal_succ]
    cases hpop : s.clocks.real.popDue s.clocks.real.now with
    | none => exact .refl s
    | some p =>
      obtain ⟨f, t⟩ := p
      have hpass : s.Leads (s.update .real t) := by
        have hmove : s.clocks.real.move (.popDue s.clocks.real.now) = t := by
          rw [Timeline.move, hpop]
          rfl
        exact hmove ▸ leads_pass (.popDue s.clocks.real.now)
      have hdeliver := leads_deliver (s := s.update .real t) (acts_aside hcall) f t.now
      dsimp only
      generalize (site .real).deliver (aside call) f t.now (s.update .real t) = y at hdeliver ⊢
      obtain ⟨r, s₁⟩ := y
      cases r with
      | error stop => exact hpass.trans hdeliver
      | ok _ => exact (hpass.trans hdeliver).trans (ih s₁)

theorem acts_block (hcall : ∀ k, base.Acts (call k)) (ready : Session → Bool)
    (limit : Option Instant) (fuel : Nat) : base.Acts (block call ready limit fuel) := by
  refine acts_iff.mpr ?_
  induction fuel with
  | zero => exact Leads.refl
  | succ fuel ih =>
    intro s
    rw [block]
    dsimp only
    split
    · exact .refl s
    · split
      · rename_i t _
        have hdeliver := acts_iff.mp (acts_deliverReal hcall fuel) (s.moveTo t)
        split
        · rename_i stop s₁ hx
          rw [hx] at hdeliver
          exact (leads_moveTo t).trans hdeliver
        · rename_i s₁ hx
          rw [hx] at hdeliver
          exact ((leads_moveTo t).trans hdeliver).trans (ih s₁)
      · split
        · exact .refl s
        · exact leads_moveTo _

end Session

end Script

end VirtualClock
