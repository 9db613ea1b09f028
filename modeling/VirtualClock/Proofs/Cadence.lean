import VirtualClock.Proofs.Sparing
import VirtualClock.Proofs.Timeline.Ticks

/-! The cadence of a ticker. Each tick is one period after the one before, counted from the instant
at which the ticker was started or reset, whatever else happens on the timeline and however it is
advanced. A single caller who is not left by a panic finds no tick missing: when an advance returns,
the ticker has fired once for every period that has passed. -/

namespace VirtualClock

variable {σ κ : Type}

namespace Timeline

/-- The ticker of `id` is started or reset with the period `p`, which makes `t'` of the timeline. -/
inductive StartsTicker (t : Timeline κ) (p : Delay) : Nat → Timeline κ → Prop where
  | start {id : Nat} {t' : Timeline κ} (h : t.startTicker p = .ok (id, t')) : StartsTicker t p id t'
  | reset {id : Nat} {was : Bool} {t' : Timeline κ} (h : t.resetTicker id p = .ok (was, t')) :
      StartsTicker t p id t'

/-- The ticker of `id` has fired `done` since `s`, one period `p` after the other, and its next tick
is pending, unless it is past the last instant. -/
structure OnCadence (s : Instant) (p : Delay) (id : Nat) (t : Timeline κ)
    (done : List (Event (Delivery κ))) : Prop where
  valid : t.queue.Valid
  instants : done.map (·.target.nanos) =
    (List.range done.length).map fun k : Nat => s.nanos + (k + 1) * p.nanos
  reached : s.nanos + done.length * p.nanos ≤ t.now.nanos
  next : (∃ e ∈ t.queue, e.id = id ∧ e.interval = p ∧
      e.target.nanos = s.nanos + (done.length + 1) * p.nanos) ∨
    (∀ e ∈ t.queue, e.id ≠ id) ∧
      Instant.last.nanos < s.nanos + (done.length + 1) * p.nanos

variable {t t' : Timeline κ} {s : Instant} {p : Delay} {id : Nat}
  {done : List (Event (Delivery κ))}

/-- The tick after one that was fired is pending, or past the last instant. -/
theorem next_of_fired (hp : 0 < p.nanos) {e : Event (Delivery κ)} (hid : e.id = id)
    (hinterval : e.interval = p) (hmem : ∀ x, x.id = id → (x ∈ t'.queue ↔
      ∃ e', e.next? = some e' ∧ x = e'.withSequence (t.queue.sequence + 1))) :
    (∃ x ∈ t'.queue, x.id = id ∧ x.interval = p ∧ x.target.nanos = e.target.nanos + p.nanos) ∨
      (∀ x ∈ t'.queue, x.id ≠ id) ∧ Instant.last.nanos < e.target.nanos + p.nanos := by
  cases hnext : e.next? with
  | none =>
    have hticker : e.isTicker = true := by rw [Event.isTicker_iff, hinterval]; exact hp
    have hbeyond := Event.next?_eq_none_iff.mp hnext hticker
    rw [hinterval] at hbeyond
    refine .inr ⟨?_, hbeyond⟩
    intro x hx hxid
    obtain ⟨e', hsome, -⟩ := (hmem x hxid).mp hx
    rw [hnext] at hsome
    cases hsome
  | some e' =>
    obtain ⟨hid', hinterval', -, htarget, -⟩ := Event.next?_eq_some hnext
    rw [hinterval] at htarget
    let x : Event (Delivery κ) := e'.withSequence (t.queue.sequence + 1)
    have hxid : x.id = id := hid'.trans hid
    exact .inl ⟨x, (hmem x hxid).mpr ⟨e', hnext, rfl⟩, hxid, hinterval'.trans hinterval, htarget⟩

theorem OnCadence.move (h : OnCadence s p id t done) (hp : 0 < p.nanos) {m : Move κ}
    (hm : m.spares id = true) : OnCadence s p id (t.move m) (done ++ t.takenOf id [m]) := by
  have hnow := now_le_now_move h.valid m
  rw [Instant.le_def] at hnow
  obtain ⟨hnone, hsame⟩ | ⟨e, htaken, he, hid, hone, hmem⟩ := move_spared h.valid hm
  · rw [hnone, List.append_nil]
    refine ⟨valid_move h.valid m, h.instants, Int.le_trans h.reached hnow, ?_⟩
    refine h.next.imp ?_ ?_
    · rintro ⟨x, hx, hxid, hrest⟩
      exact ⟨x, (hsame x hxid).mpr hx, hxid, hrest⟩
    · rintro ⟨hgone, hlast⟩
      exact ⟨fun x hx hxid => hgone x ((hsame x hxid).mp hx) hxid, hlast⟩
  · obtain ⟨x, hx, hxid, hinterval, htarget⟩ | ⟨hgone, -⟩ := h.next
    · obtain rfl : x = e := h.valid.eq_of_id hx he (hxid.trans hid.symm)
      have hlength : ((done ++ [x]).length : Int) = done.length + 1 := by simp
      have hfired := target_le_now_of_taken? h.valid htaken
      rw [Instant.le_def, htarget] at hfired
      have hsum : x.target.nanos + p.nanos = s.nanos + (done.length + 1 + 1) * p.nanos := by
        rw [htarget]
        ring
      have hnext := next_of_fired hp hid hinterval hmem
      rw [hsum] at hnext
      rw [hone]
      refine ⟨valid_move h.valid m, ?_, ?_, ?_⟩
      · rw [List.map_append, h.instants, List.length_append, List.length_singleton,
          List.range_succ, List.map_append, List.map_singleton, List.map_singleton, htarget]
      · rw [hlength]
        exact hfired
      · rw [hlength]
        exact hnext
    · exact absurd hid (hgone e he)

theorem OnCadence.moves (h : OnCadence s p id t done) (hp : 0 < p.nanos) {ms : List (Move κ)}
    (hms : ∀ m ∈ ms, m.spares id = true) :
    OnCadence s p id (t.moves ms) (done ++ t.takenOf id ms) := by
  induction ms generalizing t done with
  | nil =>
    rw [takenOf, taken, List.filter_nil, List.append_nil]
    exact h
  | cons m ms ih =>
    rw [List.forall_mem_cons] at hms
    rw [takenOf_cons, ← List.append_assoc]
    exact ih (h.move hp hms.1) hms.2

/-- As long as the next tick is later than now, a tick was fired for every period that passed. -/
theorem OnCadence.length_eq (h : OnCadence s p id t done) (hp : 0 < p.nanos)
    (hlater : ∀ e ∈ t.queue, e.id = id → t.now < e.target) :
    (done.length : Int) = (t.now.nanos - s.nanos) / p.nanos := by
  have hnext : t.now.nanos < s.nanos + (done.length + 1) * p.nanos := by
    obtain ⟨e, he, hid, -, htarget⟩ | ⟨-, hlast⟩ := h.next
    · have hlt := hlater e he hid
      rw [Instant.lt_def, htarget] at hlt
      exact hlt
    · have hle : t.now.nanos ≤ Instant.last.nanos := t.now.le_last
      omega
  have hreached := h.reached
  have hfloor : (done.length : Int) ≤ (t.now.nanos - s.nanos) / p.nanos := by
    rw [Int.le_ediv_iff_mul_le hp]
    omega
  have hceil : (t.now.nanos - s.nanos) / p.nanos < done.length + 1 := by
    rw [Int.ediv_lt_iff_lt_mul hp]
    omega
  omega

theorem StartsTicker.armed {at_ : Reading} (h : t.StartsTicker p id t')
    (hsound : Solo.Sound at_ t) :
    0 < p.nanos ∧ ∃ t₀ : Timeline κ, Solo.Sound at_ t₀ ∧ t₀.now = t.now ∧
      t' = t₀.move (.arm id p p .channel) := by
  cases h with
  | start h =>
    obtain ⟨hp, rfl, rfl⟩ := startTicker_eq_ok.mp h
    exact ⟨hp, t.move .allocate, hsound.move rfl, rfl, rfl⟩
  | reset h =>
    obtain ⟨hp, -, rfl⟩ := (resetTicker_eq_ok hsound.valid).mp h
    exact ⟨hp, t, hsound, rfl, rfl⟩

theorem onCadence_armed (hv : t.queue.Valid) (hp : 0 < p.nanos)
    (hfits : t.now.nanos + p.nanos ≤ Instant.last.nanos) :
    OnCadence t.now p id (t.move (.arm id p p .channel)) [] := by
  have hdeadline : (t.now.deadline p.clamp).nanos = t.now.nanos + p.nanos := by
    rw [Instant.nanos_deadline_clamp]
    omega
  refine ⟨valid_move hv _, rfl, ?_, .inl ⟨_, (mem_move hv _).mpr (.inr rfl), rfl, rfl, ?_⟩⟩
  · show t.now.nanos + ((0 : Nat) : Int) * p.nanos ≤ t.now.nanos
    omega
  · show (t.now.deadline p.clamp).nanos = t.now.nanos + (((0 : Nat) : Int) + 1) * p.nanos
    rw [hdeadline]
    omega

end Timeline

theorem Solo.caught_armed {t : Timeline κ} {p : Delay} {id : Nat} (hv : t.queue.Valid)
    (hp : 0 < p.nanos) (hfits : t.now.nanos + p.nanos ≤ Instant.last.nanos)
    (as : List Advancing) : Solo.Caught id ⟨t.move (.arm id p p .channel), as⟩ := by
  refine .inl fun e he hid => ?_
  obtain ⟨-, hkept⟩ | hnew := (Timeline.mem_move hv _).mp he
  · exact absurd hid hkept
  · cases hnew
    show t.now.nanos < (t.now.deadline p.clamp).nanos
    rw [Instant.nanos_deadline_clamp]
    omega

/-- Once an advance has returned, no tick is missing. -/
theorem Timeline.OnCadence.length_of_finish {at_ : Reading} {s : Instant} {p : Delay} {id : Nat} {c c' : Solo κ}
    (h : OnCadence s p id c.timeline []) (hp : 0 < p.nanos) (hcaught : Solo.Caught id c)
    (hsound : Solo.Sound at_ c.timeline) {ds : List (Deed κ)} (hds : ∀ d ∈ ds, Site.Careful id d)
    (hrun : c.run (ds ++ [.finish]) = some c') :
    ((c.timeline.takenOf id (c.story (ds ++ [.finish]))).length : Int) =
      (c'.timeline.now.nanos - s.nanos) / p.nanos := by
  have hall : ∀ d ∈ ds ++ [Deed.finish], d.spares id = true := fun d hd =>
    (Site.Careful.finished hds d hd).1
  have hstory := h.moves hp (Solo.spares_story (c := c) hall)
  rw [List.nil_append, ← Solo.timeline_run hrun] at hstory
  refine hstory.length_eq hp ?_
  rw [Solo.run_append] at hrun
  obtain ⟨c₁, hrun₁, hfinish⟩ := Option.bind_eq_some_iff.mp hrun
  rw [Solo.run_cons] at hfinish
  obtain ⟨c₂, hstep, hnil⟩ := Option.bind_eq_some_iff.mp hfinish
  cases hnil
  have hcaught₁ := hcaught.run hsound hrun₁ (fun d hd => (hds d hd).1) fun d hd => (hds d hd).2
  exact hcaught₁.finish (hsound.run hrun₁).valid hstep

namespace Site

variable {site : Site σ κ} {call : κ → Act σ Unit} {id : Nat}

/-- A ticker that a single caller starts or resets at an instant `s`, with a period `p` that leads
to an instant, fires at `s + p`, `s + 2 p` and so on in this order, whoever moves the timeline,
until it is armed again, stopped or discarded; and it is pending for its next tick unless that is
past the last instant. Whatever happens in between, save a panic, once an advance has returned at an
instant `n` the ticker has fired as many times as `p` goes into `n - s`. -/
theorem ticker_cadence (hcall : ∀ k, site.Spares id (call k)) {at_ : Reading}
    {before : List (Deed κ)} {c : Solo κ} (hbefore : (Solo.start at_).run before = some c)
    {p : Delay} {t : Timeline κ} (hstarts : c.timeline.StartsTicker p id t)
    (hfits : c.timeline.now.nanos + p.nanos ≤ Instant.last.nanos) :
    (∀ ms : List (Move κ), (∀ m ∈ ms, m.spares id = true) →
      Timeline.OnCadence c.timeline.now p id (t.moves ms) (t.takenOf id ms)) ∧
    (∀ (ds : List (Deed κ)) (c' : Solo κ), (∀ d ∈ ds, Careful id d) →
      (⟨t, c.advances⟩ : Solo κ).run (ds ++ [.finish]) = some c' →
        ((t.takenOf id (Solo.story ⟨t, c.advances⟩ (ds ++ [.finish]))).length : Int) =
          (c'.timeline.now.nanos - c.timeline.now.nanos) / p.nanos) ∧
    ∀ (ds : List (Deed κ)) (c' : Solo κ), (∀ d ∈ ds, Careful id d) →
      (⟨t, c.advances⟩ : Solo κ).run ds = some c' →
        ∀ fuel d s r s', site.timeline s = c'.timeline → site.advance call fuel d s = (.ok r, s') →
          ∃ ds', (∀ x ∈ ds', Careful id x) ∧
            (⟨t, c.advances⟩ : Solo κ).run (ds ++ ds') = some ⟨site.timeline s', c'.advances⟩ ∧
            ((t.takenOf id (Solo.story ⟨t, c.advances⟩ (ds ++ ds'))).length : Int) =
              ((site.timeline s').now.nanos - c.timeline.now.nanos) / p.nanos := by
  have hsound : Solo.Sound at_ c.timeline := Solo.Sound.run (Solo.sound_start at_) hbefore
  obtain ⟨hp, t₀, hsound₀, hnow, rfl⟩ := hstarts.armed hsound
  rw [← hnow] at hfits ⊢
  let c₀ : Solo κ := ⟨t₀.move (.arm id p p .channel), c.advances⟩
  have hcadence : Timeline.OnCadence t₀.now p id c₀.timeline [] :=
    Timeline.onCadence_armed hsound₀.valid hp hfits
  have hcaught : Solo.Caught id c₀ := Solo.caught_armed hsound₀.valid hp hfits c.advances
  have hsound₁ : Solo.Sound at_ c₀.timeline := hsound₀.move (m := .arm id p p .channel) rfl
  refine ⟨fun ms hms => hcadence.moves hp hms, fun ds c' hds hrun => ?_, ?_⟩
  · exact hcadence.length_of_finish hp hcaught hsound₁ hds hrun
  · intro ds c' hds hrun fuel d s r s' hs hadvance
    obtain ⟨ds', hcareful, hrun'⟩ := advance_careful hcall hadvance c'.advances
    rw [hs] at hrun'
    have hwhole : c₀.run (ds ++ (.advance d :: ds' ++ [.finish])) =
        some ⟨site.timeline s', c'.advances⟩ := (Solo.run_of_append hrun).trans hrun'
    have hbegun := Careful.append hds (Careful.begun hcareful d)
    have hcount := hcadence.length_of_finish hp hcaught hsound₁ hbegun
      (by rw [List.append_assoc]; exact hwhole)
    rw [List.append_assoc] at hcount
    exact ⟨_, Careful.finished (Careful.begun hcareful d), hwhole, hcount⟩

/-- A callback that advances the timeline by 6 ns more. -/
def onward (_ : Nat) : Act (Timeline Nat) Unit :=
  alone.advance (fun _ => pure ()) 10 ⟨6⟩ >>= fun _ => pure ()

/-- A ticker of 3 ns is started beside a timer for 4 ns. An advance by 5 ns comes to 10 ns in the
callback of the timer, and the ticker has fired for 3, 6 and 9 ns. -/
theorem ticker_cadence_onward :
    let before : List (Deed Nat) := [.act .allocate, .act (.arm 1 ⟨4⟩ .zero (.callback 0))]
    let t₀ : Timeline Nat :=
      (Timeline.start default).moves [.allocate, .arm 1 ⟨4⟩ .zero (.callback 0)]
    let t : Timeline Nat := t₀.moves [.allocate, .arm 2 ⟨3⟩ ⟨3⟩ .channel]
    (∀ k, alone.Spares 2 (onward k)) ∧ (Solo.start default).run before = some ⟨t₀, []⟩ ∧
      t₀.StartsTicker ⟨3⟩ 2 t ∧ t₀.now.nanos + 3 ≤ Instant.last.nanos ∧
      ∃ ds, (∀ x ∈ ds, Careful 2 x) ∧
        (⟨t, []⟩ : Solo Nat).run ds = some ⟨(alone.advance onward 10 ⟨5⟩ t).2, []⟩ ∧
        (alone.advance onward 10 ⟨5⟩ t).2.now.nanos = 10 ∧
        (t.takenOf 2 (Solo.story ⟨t, []⟩ ds)).map (·.target.nanos) = [3, 6, 9] := by
  intro before t₀ t
  have hcall : ∀ k, alone.Spares 2 (onward k) := fun _ =>
    (spares_advance (fun _ => spares_pure ()) 10 ⟨6⟩).bind fun _ => spares_pure ()
  have hbefore : (Solo.start default).run before = some ⟨t₀, []⟩ := rfl
  have hstarts : t₀.StartsTicker ⟨3⟩ 2 t := .start rfl
  have hfits : t₀.now.nanos + 3 ≤ Instant.last.nanos := by decide
  have hresult : (alone.advance onward 10 ⟨5⟩ t).1 = .ok ⟨10⟩ := by cbv
  have hnow : (alone.advance onward 10 ⟨5⟩ t).2.now.nanos = 10 := by cbv
  obtain ⟨hcadence, -, hreturns⟩ := ticker_cadence hcall hbefore hstarts hfits
  obtain ⟨ds, hcareful, hrun, hlength⟩ := hreturns [] ⟨t, []⟩ (by simp) rfl 10 ⟨5⟩ t ⟨10⟩
    (alone.advance onward 10 ⟨5⟩ t).2 rfl (Prod.ext hresult rfl)
  rw [List.nil_append] at hrun hlength
  have hspares : ∀ m ∈ Solo.story ⟨t, []⟩ ds, m.spares 2 = true :=
    Solo.spares_story fun d hd => (hcareful d hd).1
  have hinstants := (hcadence _ hspares).instants
  have hthree : (t.takenOf 2 (Solo.story ⟨t, []⟩ ds)).length = 3 := by
    have hn : (alone.timeline (alone.advance onward 10 ⟨5⟩ t).2).now.nanos = 10 := hnow
    rw [hn] at hlength
    exact Int.ofNat.inj hlength
  rw [hthree] at hinstants
  exact ⟨hcall, hbefore, hstarts, hfits, ds, hcareful, hrun, hnow, hinstants⟩

end Site

end VirtualClock
