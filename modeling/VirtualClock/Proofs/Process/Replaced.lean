import VirtualClock.Proofs.Process.Base
import VirtualClock.Script.Run

/-! What becomes of a timeline that is replaced in its provider while advances of it may be running.
Its events are gone for good: the id of each was handed out, so no new timer gets it, and it can
only come back through its own handle. The timeline that takes the place is one that no running
advance knows of. -/

namespace VirtualClock.Process

variable {κ : Type} {c c' : Process κ} {x : Action κ}

/-- What the innermost advance fires next, and the source that it advances. -/
def next? (c : Process κ) : Option (Source × Firing (Delivery κ)) :=
  match c.advances with
  | [] => none
  | (q, a) :: _ => ((c.clocks.timeline q).popDue a.limit).map fun (f, _) => (q, f)

/-- The timer or ticker `id` of `q` is armed again. -/
def Action.Resets (q : Source) (id : Nat) (x : Action κ) : Prop :=
  ∃ delay interval deliver, x = .use q (.reset id delay interval deliver)

/-- The timeline of `q` is used or advanced. -/
def Action.IsOn (q : Source) (x : Action κ) : Prop := (∃ u, x = .use q u) ∨ ∃ d, x = .advance q d

/-- An action that an advance takes by itself. -/
def Action.isInner : Action κ → Bool
  | .fire | .finish | .leave => true
  | _ => false

/-! ### Events that are gone -/

/-- The id was handed out by the frozen timeline `i`, and no event of it is pending. -/
structure Dormant (i id : Nat) (c : Process κ) : Prop where
  known : c.clocks.Knows (.frozen i)
  id_le : id ≤ (c.clocks.timeline (.frozen i)).queue.lastId
  absent : ∀ e ∈ (c.clocks.timeline (.frozen i)).queue, e.id ≠ id

theorem Dormant.change {i id : Nat} (h : Dormant i id c) (hs : Sane c)
    (hx : ¬x.Resets (.frozen i) id) {t : Timeline κ} (hc : Change c x (.frozen i) t) :
    ∀ e ∈ t.queue, e.id ≠ id := by
  have hv := (hs.tended i).valid
  intro e he
  cases hc with
  | same => exact h.absent e he
  | use hu ha =>
    obtain hold | hnew | ⟨delay, interval, deliver, rfl⟩ := Timeline.mem_use hv ha he
    · exact h.absent e hold
    · have hle := h.id_le
      omega
    · rintro rfl
      exact hx ⟨delay, interval, deliver, hu⟩
  | pass hq => cases hq
  | fresh hq => exact absurd hq h.known.ne_new
  | discard hx => exact absurd he EventQueue.mem_clear
  | fire hc hp =>
    obtain ⟨e', he', hid⟩ := Timeline.mem_handOver hv hp he
    rw [← hid]
    exact h.absent e' he'
  | settle hc hp => exact h.absent e he

/-- An event that is gone stays away until its timer is armed again. -/
theorem Dormant.step {i id : Nat} (h : Dormant i id c) (hs : Sane c)
    (hx : ¬x.Resets (.frozen i) id) (hstep : c.step x = some c') : Dormant i id c' where
  known := (hs.grew_of_step hstep).knows h.known
  id_le := Nat.le_trans h.id_le ((hs.grew_of_step hstep).lastId_le (.frozen i) h.known)
  absent := h.change hs hx (change_of_step hstep (.frozen i))

theorem Dormant.run {i id : Nat} (h : Dormant i id c) (hs : Sane c) {xs : List (Action κ)}
    (hxs : ∀ x ∈ xs, ¬x.Resets (.frozen i) id) (hrun : c.run xs = some c') :
    Sane c' ∧ Dormant i id c' :=
  run_invariant (fun _ _ x hx hs h hstep => h.step hs (hxs x hx) hstep) hs h hrun

/-- Nobody hears of an event that is gone: it does not fire next, and it cannot be stopped. -/
theorem Dormant.silent {i id : Nat} (h : Dormant i id c) (hs : Sane c) :
    ((c.clocks.timeline (.frozen i)).disarm id).1 = false ∧
      ∀ f, c.next? = some (.frozen i, f) → f.id ≠ id := by
  have hv := (hs.tended i).valid
  constructor
  · rw [Timeline.disarm_fst hv, Bool.eq_false_iff]
    intro hpending
    obtain ⟨e, he, hid⟩ := (EventQueue.isPending_iff hv).mp hpending
    exact h.absent e he hid
  · intro f hf
    unfold next? at hf
    split at hf
    · cases hf
    · obtain ⟨⟨g, t⟩, hp, heq⟩ := Option.map_eq_some_iff.mp hf
      cases heq
      obtain ⟨e, -, he, -, -, rfl, -⟩ := Timeline.popDue_eq_some hv hp
      exact h.absent e he

/-! ### The timeline that takes the place -/

/-- An advance does nothing to any timeline but its own. -/
theorem timeline_of_inner (hx : x.isInner = true) (h : c.step x = some c') {q : Source}
    (hq : ∀ a ∈ c.advances.head?, a.1 ≠ q) : c'.clocks.timeline q = c.clocks.timeline q := by
  cases steps_of_step h with
  | @fire q' a rest f t hc hp =>
    have hne : q ≠ q' := by
      rintro rfl
      exact hq (q, a) (by rw [hc]; rfl) rfl
    rw [timeline_handOver_ne _ hne]
    exact Clocks.timeline_setTimeline_ne _ hne t
  | @finish q' a rest hc hp =>
    have hne : q ≠ q' := by
      rintro rfl
      exact hq (q, a) (by rw [hc]; rfl) rfl
    exact Clocks.timeline_setTimeline_ne _ hne _
  | leave hc => rfl
  | _ => cases hx

/-- The frozen timeline `i` is as fresh as at its start, and no advance of it is running. -/
structure Untouched (i : Nat) (at_ : Reading) (c : Process κ) : Prop where
  known : c.clocks.Knows (.frozen i)
  fresh : c.clocks.timeline (.frozen i) = .start at_
  idle : ∀ a ∈ c.advances, a.1 ≠ .frozen i

theorem Untouched.step {i : Nat} {at_ : Reading} (h : Untouched i at_ c) (hs : Sane c)
    (hx : ¬x.IsOn (.frozen i)) (hstep : c.step x = some c') : Untouched i at_ c' where
  known := (hs.grew_of_step hstep).knows h.known
  fresh := by
    have hchange := change_of_step hstep (.frozen i)
    generalize c'.clocks.timeline (.frozen i) = t at hchange
    -- Without a use or an advance it can only be discarded, and it has nothing to lose.
    cases hchange with
    | same => exact h.fresh
    | use hu ha => exact absurd (.inl ⟨_, hu⟩) hx
    | pass hq => cases hq
    | fresh hq => exact absurd hq h.known.ne_new
    | discard hx =>
      rw [h.fresh]
      rfl
    | fire hc hp => exact absurd rfl (h.idle _ (hc ▸ List.mem_cons_self))
    | settle hc hp => exact absurd rfl (h.idle _ (hc ▸ List.mem_cons_self))
  idle a ha := by
    obtain hold | ⟨-, d, hd⟩ := advances_of_step hstep ha
    · exact h.idle a hold
    · intro hi
      exact hx (.inr ⟨d, hi ▸ hd⟩)

theorem Untouched.run {i : Nat} {at_ : Reading} (h : Untouched i at_ c) (hs : Sane c)
    {xs : List (Action κ)} (hxs : ∀ x ∈ xs, ¬x.IsOn (.frozen i)) (hrun : c.run xs = some c') :
    Untouched i at_ c' :=
  (run_invariant (fun _ _ x hx hs h hstep => h.step hs (hxs x hx) hstep) hs h hrun).2

/-! ### Freezing and unfreezing -/

/-- What holds in `c'`, where the provider `p` of `c` has just been frozen at a reading or unfrozen,
and in everything that may follow. -/
structure Replaced (p : Nat) (at_ : Option Reading) (c c' : Process κ) : Prop where
  /-- The advances that were running are still running. -/
  advances_eq : c'.advances = c.advances
  real : at_ = none → c'.clocks.source p = .real
  /-- The new timeline starts at the reading, with nothing pending. It stays like that until
  somebody uses it or advances it, and an advance that was running when it came never changes it. -/
  fresh : ∀ r, at_ = some r → ∃ i, c'.clocks.source p = .frozen i ∧
    c'.clocks.timeline (.frozen i) = .start r ∧ ¬c.clocks.Knows (.frozen i) ∧
    (∀ xs c'', c'.run xs = some c'' → (∀ x ∈ xs, ¬x.IsOn (.frozen i)) →
      c''.clocks.timeline (.frozen i) = .start r) ∧
    ∀ xs c'' x c''' a, c'.run xs = some c'' → c''.advances.head? = some a → a ∈ c.advances →
      x.isInner = true → c''.step x = some c''' →
        c'''.clocks.timeline (.frozen i) = c''.clocks.timeline (.frozen i)
  /-- On the old timeline nothing is left but its time. -/
  emptied : ∀ i, c.clocks.source p = .frozen i →
    (c'.clocks.timeline (.frozen i)).pending = 0 ∧
      (∀ e, e ∉ (c'.clocks.timeline (.frozen i)).queue) ∧
      (c'.clocks.timeline (.frozen i)).queue.waiters = [] ∧
      (c'.clocks.timeline (.frozen i)).now = (c.clocks.timeline (.frozen i)).now ∧
      (c'.clocks.timeline (.frozen i)).origin = (c.clocks.timeline (.frozen i)).origin
  /-- An event that was pending there cannot be stopped and does not fire, until it is reset. -/
  abandoned : ∀ i, c.clocks.source p = .frozen i →
    ∀ e ∈ (c.clocks.timeline (.frozen i)).queue, ∀ xs c'', c'.run xs = some c'' →
      (∀ x ∈ xs, ¬x.Resets (.frozen i) e.id) →
        ((c''.clocks.timeline (.frozen i)).disarm e.id).1 = false ∧
        ∀ f, c''.next? = some (.frozen i, f) → f.id ≠ e.id
  /-- A freeze warns of the events that were pending, if there were any. -/
  warned : ∀ r, at_ = some r →
    (c.clocks.freeze p r).1 =
      (if 0 < (c.clocks.pending? (c.clocks.source p)).getD 0 then
        [Clocks.refroze ((c.clocks.pending? (c.clocks.source p)).getD 0)] else []) ++
      [Clocks.froze (.ofList r.plain)]

theorem warnings_freeze (c : Clocks κ) (p : Nat) (r : Reading) (hknown : c.Knows (c.source p)) :
    (c.freeze p r).1 =
      (if 0 < (c.pending? (c.source p)).getD 0 then
        [Clocks.refroze ((c.pending? (c.source p)).getD 0)] else []) ++
      [Clocks.froze (.ofList r.plain)] := by
  let c₁ := ((c.newTimeline r).2.swap p (.frozen (c.lastTimeline + 1))).2
  have hcount : (c₁.discard (c.source p)).1 = c.pending? (c.source p) := by
    cases hs : c.source p with
    | real => rfl
    | frozen i =>
      have hold : c₁.timeline (.frozen i) = c.timeline (.frozen i) :=
        (Clocks.timeline_swap _ p _ _).trans
          (Clocks.timeline_newTimeline_ne c r (hs ▸ hknown).ne_new)
      show some (c₁.timeline (.frozen i)).pending = _
      rw [hold]
      rfl
  have hlog : (c.freeze p r).1 =
      (if 0 < (c₁.discard (c.source p)).1.getD 0 then
        [Clocks.refroze ((c₁.discard (c.source p)).1.getD 0)] else []) ++
      [Clocks.froze (.ofList r.plain)] := rfl
  rw [hlog, hcount]

/-- The timeline of the source that is replaced is emptied. -/
theorem timeline_install_source (hs : Sane c) (p : Nat) (at_ : Option Reading) {i : Nat}
    (hi : c.clocks.source p = .frozen i) :
    (c.clocks.install p at_).2.timeline (.frozen i) =
      (c.clocks.timeline (.frozen i)).discard.2 := by
  have hne := (hs.source_known p).ne_new
  rw [hi] at hne
  rw [Clocks.install_eq, Clocks.timeline_discard_exchange _ p at_ fun _ => hne, hi,
    Clocks.timeline_discard]

theorem Sane.replaced (hs : Sane c) (p : Nat) (at_ : Option Reading) :
    Replaced p at_ c { c with clocks := (c.clocks.install p at_).2 } := by
  let c' : Process κ := { c with clocks := (c.clocks.install p at_).2 }
  have hstep : c.step (.install p at_) = some c' := rfl
  have hs' : Sane c' := hs.step hstep
  refine ⟨rfl, ?_, ?_, fun i hi => ?_, fun i hi e he xs c'' hrun hxs => ?_, fun r hr => ?_⟩
  · rintro rfl
    exact Clocks.source_unfreeze c.clocks p
  · rintro r rfl
    let i := c.clocks.lastTimeline + 1
    have hnew : ¬c.clocks.Knows (.frozen i) := fun h => h.ne_new rfl
    have hstart : Untouched i r c' := by
      refine ⟨⟨Nat.succ_pos _, ?_⟩, Clocks.timeline_freeze c.clocks p r, fun a ha hi => ?_⟩
      · exact Nat.le_of_eq (Clocks.lastTimeline_install c.clocks p (some r)).symm
      · exact hnew (hi ▸ hs.advances_known a ha)
    refine ⟨i, Clocks.source_freeze c.clocks p r, hstart.fresh, hnew, ?_, ?_⟩
    · intro xs c'' hrun hxs
      exact (hstart.run hs' hxs hrun).fresh
    · intro xs c'' x c''' a hrun hhead ha hx hstep'
      refine timeline_of_inner hx hstep' fun a' ha' => ?_
      obtain rfl : a = a' := Option.some.inj (hhead.symm.trans ha')
      exact hstart.idle a ha
  · show ((c.clocks.install p at_).2.timeline (.frozen i)).pending = 0 ∧ _
    rw [timeline_install_source hs p at_ hi]
    exact ⟨rfl, fun e => EventQueue.mem_clear, rfl, rfl, rfl⟩
  · have hold := timeline_install_source hs p at_ hi
    have hgone : Dormant i e.id c' := by
      refine ⟨?_, ?_, fun x hx => ?_⟩
      · exact (hs.grew_of_step hstep).knows (hi ▸ hs.source_known p)
      · show e.id ≤ ((c.clocks.install p at_).2.timeline (.frozen i)).queue.lastId
        rw [hold]
        exact (hs.tended i).id_le e he
      · change x ∈ ((c.clocks.install p at_).2.timeline (.frozen i)).queue at hx
        rw [hold] at hx
        exact absurd hx EventQueue.mem_clear
    obtain ⟨hs'', hgone''⟩ := hgone.run hs' hxs hrun
    exact hgone''.silent hs''
  · exact warnings_freeze c.clocks p r (hs.source_known p)

end VirtualClock.Process
