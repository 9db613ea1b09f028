import VirtualClock.Proofs.Advance
import VirtualClock.Proofs.Process

/-! Programs on a state that keeps the clocks of a process. An advance of one of its sources is what
the thread of the process does, whatever callbacks do to the clocks meanwhile, as long as they act
on them in the same way. The advance holds on to its source: it returns the time that has passed
there, even if no provider has that source any more. -/

namespace VirtualClock

/-- A state with the clocks of a process. `Proper` is what else must hold of it, such as that its
handles have ids that were handed out. -/
structure Base (σ κ : Type) where
  clocks : σ → Clocks κ
  site : Source → Site σ κ
  Proper : σ → Prop
  timeline_eq : ∀ q s, (site q).timeline s = (clocks s).timeline q
  clocks_update : ∀ q t s, clocks ((site q).update t s) = (clocks s).setTimeline q t
  clocks_record : ∀ q e s, clocks ((site q).record e s) = clocks s
  proper_update : ∀ q t s, Proper s →
    ((clocks s).timeline q).queue.lastId ≤ t.queue.lastId → Proper ((site q).update t s)
  proper_record : ∀ q e s, Proper s → Proper ((site q).record e s)

namespace Base

variable {σ κ α β : Type} {b : Base σ κ}

/-- What `x` does to the clocks is done by the thread of the process, which is in the same advances
after it as before, however it ends. -/
def Acts (b : Base σ κ) (x : Act σ α) : Prop :=
  ∀ s as, b.Proper s → Process.Sane ⟨b.clocks s, as⟩ →
    b.Proper (x s).2 ∧ ∃ xs, (⟨b.clocks s, as⟩ : Process κ).run xs = some ⟨b.clocks (x s).2, as⟩

/-- The thread of a process beside the states that keep its clocks, whose place is the advances that
the thread is in. -/
def thread (b : Base σ κ) : Conduct σ (List (Source × Advancing)) where
  Leads as s as' s' := b.Proper s → Process.Sane ⟨b.clocks s, as⟩ →
    b.Proper s' ∧ ∃ xs, (⟨b.clocks s, as⟩ : Process κ).run xs = some ⟨b.clocks s', as'⟩
  Follows _ := True
  refl _ _ hp _ := ⟨hp, [], rfl⟩
  trans := by
    intro as as' as'' s s' s'' h h' hp hs
    obtain ⟨hp', xs, hrun⟩ := h hp hs
    obtain ⟨hp'', ys, hrun'⟩ := h' hp' (hs.run hrun)
    exact ⟨hp'', xs ++ ys, (Process.run_of_append hrun).trans hrun'⟩

theorem acts_iff {x : Act σ α} : b.Acts x ↔ b.thread.Acts x := by
  rw [Conduct.acts_iff]
  exact ⟨fun h as s _ => h s as, fun h s as => h as s fun _ _ => trivial⟩

theorem acts_throw (stop : Stop) : b.Acts (throw stop : Act σ α) :=
  acts_iff.mpr (Conduct.acts_throw stop)

theorem Acts.bind {x : Act σ α} {f : α → Act σ β} (hx : b.Acts x) (hf : ∀ a, b.Acts (f a)) :
    b.Acts (x >>= f) :=
  acts_iff.mpr ((acts_iff.mp hx).bind fun a => acts_iff.mp (hf a))

/-- A change of the state that is one action of the thread. -/
theorem acts_modify {f : σ → σ} (hproper : ∀ s, b.Proper s → b.Proper (f s))
    (h : ∀ s as, b.Proper s → Process.Sane ⟨b.clocks s, as⟩ → b.clocks (f s) = b.clocks s ∨
      ∃ x, (⟨b.clocks s, as⟩ : Process κ).step x = some ⟨b.clocks (f s), as⟩) :
    b.Acts (modify f) := by
  refine acts_iff.mpr (Conduct.acts_modify fun as s hp hs => ⟨hproper s hp, ?_⟩)
  obtain heq | ⟨x, hx⟩ := h s as hp hs
  · exact ⟨[], by rw [heq]; rfl⟩
  · exact ⟨[x], by rw [Process.run_cons, hx]; rfl⟩

/-! ### Advances -/

variable {q : Source}

/-- What is due is taken off the queue of `q` by an action of the thread, but for what its callback
does. -/
theorem taken {a : Advancing} {s : σ} {f : Firing (Delivery κ)} {t : Timeline κ}
    (hpop : ((b.site q).timeline s).popDue a.limit = some (f, t)) {as : List (Source × Advancing)}
    (hp : b.Proper s) (hs : Process.Sane ⟨b.clocks s, (q, a) :: as⟩) :
    let s₁ := (b.site q).record ((b.site q).firing f) ((b.site q).update t s)
    b.Proper s₁ ∧ (⟨b.clocks s, (q, a) :: as⟩ : Process κ).step .fire =
      some ((⟨b.clocks s₁, (q, a) :: as⟩ : Process κ).handOver q f) := by
  have hpop' : ((b.clocks s).timeline q).popDue a.limit = some (f, t) := by
    rw [← b.timeline_eq]
    exact hpop
  refine ⟨b.proper_record q _ _ (b.proper_update q t s hp ?_), ?_⟩
  · exact Timeline.lastId_le_popDue (hs.valid q) hpop'
  · simp only [Process.step, hpop', Option.map_some, b.clocks_record, b.clocks_update]
    rfl

theorem thread_loops (b : Base σ κ) (q : Source) (a : Advancing)
    (as : List (Source × Advancing)) :
    b.thread.Loops (b.site q) a.limit as ((q, a) :: as) fun _ => (q, a) :: as where
  send {s f t} hpop hto hp hs := by
    obtain ⟨hp₁, hfire⟩ := taken hpop hp hs
    refine ⟨b.proper_update q _ _ hp₁ ?_, [.fire], ?_⟩
    · rw [b.timeline_eq]
      exact Nat.le_refl _
    · rw [Process.run_cons, hfire, b.clocks_update, b.timeline_eq]
      simp only [Process.handOver, hto]
      rfl
  call {s f t k} hpop hto hp hs := by
    obtain ⟨hp₁, hfire⟩ := taken hpop hp hs
    refine ⟨hp₁, [.fire], ?_⟩
    rw [Process.run_cons, hfire]
    simp only [Process.handOver, hto]
    rfl
  back s _ := b.thread.refl _ s
  leave _ _ _ hp _ := ⟨hp, [.leave], rfl⟩
  exhausted _ _ hp _ := ⟨hp, [.leave], rfl⟩

theorem clocks_entered (d : Delay) (s : σ) : b.clocks ((b.site q).entered d s) = b.clocks s :=
  (b.site q).entered_keeps (P := fun s' => b.clocks s' = b.clocks s)
    (fun e s' h => (b.clocks_record q e s').trans h) d rfl

theorem clocks_settled (d : Delay) (limit : Instant) (fired : Nat) (s : σ) :
    b.clocks ((b.site q).settled d limit fired s) =
      (b.clocks s).setTimeline q (((b.clocks s).timeline q).settle limit) := by
  rw [Site.settled, b.clocks_record, b.clocks_update, b.timeline_eq]

theorem proper_settled (d : Delay) (limit : Instant) (fired : Nat) {s : σ} (hp : b.Proper s) :
    b.Proper ((b.site q).settled d limit fired s) := by
  refine b.proper_record q _ _ (b.proper_update q _ s hp ?_)
  rw [b.timeline_eq]
  exact Nat.le_refl _

/-- An advance of a source is what the thread does. If it returns, it returns the time that has
passed on that source since its start. -/
theorem advance_run {call : κ → Act σ Unit} (hcall : ∀ k, b.Acts (call k)) (fuel : Nat)
    (d : Delay) (s : σ) (as : List (Source × Advancing)) (hp : b.Proper s)
    (hs : Process.Sane ⟨b.clocks s, as⟩) (hq : (b.clocks s).Knows q) (hreal : q ≠ .real) :
    let s' := ((b.site q).advance call fuel d s).2
    b.Proper s' ∧
      (∃ xs, (⟨b.clocks s, as⟩ : Process κ).run (.advance q d :: xs) = some ⟨b.clocks s', as⟩) ∧
      ∀ r, ((b.site q).advance call fuel d s).1 = .ok r →
        r = ((b.clocks s').timeline q).elapsed := by
  let a : Advancing := ⟨((b.clocks s).timeline q).now, d⟩
  let s₁ := (b.site q).entered d s
  have hp₁ : b.Proper s₁ := (b.site q).entered_keeps (b.proper_record q) d hp
  have hbegin : (⟨b.clocks s, as⟩ : Process κ).step (.advance q d) =
      some ⟨b.clocks s₁, (q, a) :: as⟩ := by
    rw [clocks_entered]
    exact if_pos ⟨hq, hreal⟩
  have hstart {xs : List (Process.Action κ)} {s₂ : σ} {as' : List (Source × Advancing)}
      (hrun : (⟨b.clocks s₁, (q, a) :: as⟩ : Process κ).run xs = some ⟨b.clocks s₂, as'⟩) :
      (⟨b.clocks s, as⟩ : Process κ).run (.advance q d :: xs) = some ⟨b.clocks s₂, as'⟩ := by
    rw [Process.run_cons, hbegin]
    exact hrun
  have hlimit : ((b.site q).timeline s).limit d = a.limit := by
    rw [b.timeline_eq]
    rfl
  have hloops := thread_loops b q a as
  rw [← hlimit] at hloops
  obtain ⟨hreturned, hstopped⟩ := hloops.advance (fun k => acts_iff.mp (hcall k)) fuel
  cases hz : ((b.site q).advance call fuel d s).1 with
  | error stop =>
    obtain ⟨hp', xs, hrun⟩ := hstopped stop hz trivial hp₁ (hs.step hbegin)
    exact ⟨hp', ⟨xs, hstart hrun⟩, fun r h => by cases h⟩
  | ok result =>
    obtain ⟨fired, s₂, hleads, hdone, hadvance⟩ := hreturned result hz
    obtain ⟨hp₂, xs, hrun⟩ := hleads hp₁ (hs.step hbegin)
    rw [hlimit, b.timeline_eq] at hdone
    have hfinish : (⟨b.clocks s₂, (q, a) :: as⟩ : Process κ).run [.finish] =
        some ⟨(b.clocks s₂).setTimeline q (((b.clocks s₂).timeline q).settle a.limit), as⟩ := by
      simp [Process.run_cons, Process.step, hdone]
    rw [hadvance] at hz ⊢
    simp only [clocks_settled, hlimit]
    refine ⟨proper_settled d a.limit fired hp₂, ⟨xs ++ [.finish], ?_⟩, fun r h => ?_⟩
    · exact (Process.run_of_append (hstart hrun)).trans hfinish
    · rw [Clocks.timeline_setTimeline, ← b.timeline_eq, ← hlimit]
      exact (Except.ok.inj h).symm.trans (Except.ok.inj hz).symm

end Base

end VirtualClock
