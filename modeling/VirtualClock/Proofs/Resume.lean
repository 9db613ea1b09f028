import VirtualClock.Proofs.Timeline.Interrupted

/-! Advances that a callback leaves by a panic. Time stays at the event whose callback it was, and
everything else is pending as the callback left it. An advance over the time that is left therefore
goes on as the first one would have gone on if the callback had returned: the loop keeps nothing
between two turns but its limit. -/

namespace VirtualClock

variable {σ κ : Type}

/-- The time that is left up to `limit`. -/
def Timeline.remaining (t : Timeline κ) (limit : Instant) : Delay := limit.since t.now

namespace Site

variable {site : Site σ κ} {call call' : κ → Act σ Unit} {limit : Instant}

/-- Callbacks that use the timeline without an advance of their own, whether they return or not. -/
def Stays (site : Site σ κ) (call : κ → Act σ Unit) : Prop :=
  ∀ k s, ∃ ms : List (Move κ), (∀ m ∈ ms, m.isInner = false) ∧
    site.timeline (call k s).2 = (site.timeline s).moves ms

/-- The loop of an advance up to `limit` comes from `s` to `s'` and fires `fs` on its way. -/
inductive Delivers (site : Site σ κ) (call : κ → Act σ Unit) (limit : Instant) :
    σ → List (Firing (Delivery κ) × σ) → σ → Prop where
  | nil {s : σ} : Delivers site call limit s [] s
  | turn {s s₁ s' : σ} {f : Firing (Delivery κ)} {t : Timeline κ}
      {fs : List (Firing (Delivery κ) × σ)}
      (hp : (site.timeline s).popDue limit = some (f, t))
      (hd : site.deliver call f f.at_ (site.record (site.firing f) (site.update t s)) =
        (.ok (), s₁))
      (rest : Delivers site call limit s₁ fs s') : Delivers site call limit s ((f, s₁) :: fs) s'

/-- The loop comes from `s` to `s₀` and fires `fs` on its way. There `e` is due, and its callback
`k` panics and leaves `s₁` behind. -/
structure Panics (site : Site σ κ) (call : κ → Act σ Unit) (limit : Instant) (s : σ)
    (fs : List (Firing (Delivery κ) × σ)) (s₀ : σ) (e : Event (Delivery κ)) (k : κ)
    (message : String) (s₁ : σ) : Prop where
  delivers : Delivers site call limit s fs s₀
  taken : (site.timeline s₀).taken? (.popDue limit) = some e
  deliver_eq : e.deliver = .callback k
  call_eq : call k (site.called e s₀) = (.error (.panic message), s₁)

/-- The callbacks `call'` differ from `call` in one place: in `x`, where `k` panics, it returns
after all that it has done. -/
structure Mends (call call' : κ → Act σ Unit) (k : κ) (x : σ) : Prop where
  returns : call' k x = (.ok (), (call k x).2)
  same : ∀ k' x', ¬(k' = k ∧ x' = x) → call' k' x' = call k' x'

/-- An advance by `d` from `s`, whose callbacks are `call'`, fires `fs` and then does what an
advance by `rest` from `s₁` does. The two are alike after every number of turns. -/
structure Resumes (site : Site σ κ) (call call' : κ → Act σ Unit) (d : Delay) (s : σ)
    (fs : List (Firing (Delivery κ) × σ)) (s₁ : σ) (rest : Delay) : Prop where
  limit_eq : (site.timeline s₁).limit rest = (site.timeline s).limit d
  result_eq : ∀ fuel, (site.advance call' (fs.length + fuel) d s).1 =
    (site.advance call fuel rest s₁).1
  timeline_eq : ∀ fuel, site.timeline (site.advance call' (fs.length + fuel) d s).2 =
    site.timeline (site.advance call fuel rest s₁).2
  advances_iff : ∀ gs r t, (∃ s', Advances site call' d s gs r s' ∧ site.timeline s' = t) ↔
    ∃ fs' s', gs = fs ++ fs' ∧ Advances site call rest s₁ fs' r s' ∧ site.timeline s' = t

/-! ### The loop up to a turn -/

theorem Delivers.append {s m s' : σ} {fs fs' : List (Firing (Delivery κ) × σ)}
    (h : Delivers site call limit s fs m) (h' : Delivers site call limit m fs' s') :
    Delivers site call limit s (fs ++ fs') s' := by
  induction h with
  | nil => exact h'
  | turn hp hd _ ih => exact .turn hp hd (ih h')

/-- The loop has one way to go. -/
theorem Delivers.fires_iff {s m s' : σ} {fs gs : List (Firing (Delivery κ) × σ)}
    (h : Delivers site call limit s fs m) :
    Fires site call limit s gs s' ↔ ∃ fs', gs = fs ++ fs' ∧ Fires site call limit m fs' s' := by
  constructor
  · intro hfires
    induction h generalizing gs with
    | nil => exact ⟨gs, rfl, hfires⟩
    | turn hp hd _ ih =>
      cases hfires with
      | done hp' =>
        rw [hp] at hp'
        cases hp'
      | turn hp' hd' hrest =>
        rw [hp] at hp'
        cases hp'
        rw [hd] at hd'
        cases hd'
        obtain ⟨fs', rfl, hfires'⟩ := ih hrest
        exact ⟨fs', rfl, hfires'⟩
  · rintro ⟨fs', rfl, hfires⟩
    induction h with
    | nil => exact hfires
    | turn hp hd _ ih => exact .turn hp hd (ih hfires)

theorem Delivers.fire {s m : σ} {fs : List (Firing (Delivery κ) × σ)}
    (h : Delivers site call limit s fs m) (fuel n : Nat) :
    site.fire call limit (fs.length + fuel) n s =
      site.fire call limit fuel (n + fs.length) m := by
  induction h generalizing n with
  | nil => rw [List.length_nil, Nat.zero_add, Nat.add_zero]
  | @turn s s₁ s' f t fs hp hd _ ih =>
    rw [List.length_cons, Nat.add_right_comm, fire_of_ok site hp hd, ih]
    congr 1
    omega

/-- The count of firings plays no part in the loop. -/
theorem fire_count (fuel n : Nat) (s : σ) :
    site.fire call limit fuel n s =
      ((site.fire call limit fuel 0 s).1.map (n + ·), (site.fire call limit fuel 0 s).2) := by
  induction fuel generalizing n s with
  | zero => rfl
  | succ fuel ih =>
    cases hp : (site.timeline s).popDue limit with
    | none =>
      rw [fire_of_none site hp, fire_of_none site hp]
      rfl
    | some p =>
      obtain ⟨f, t⟩ := p
      obtain ⟨r, s₁, hd⟩ : ∃ r s₁, site.deliver call f f.at_
          (site.record (site.firing f) (site.update t s)) = (r, s₁) := ⟨_, _, rfl⟩
      cases r with
      | error stop =>
        rw [fire_of_error site hp hd, fire_of_error site hp hd]
        rfl
      | ok _ =>
        rw [fire_of_ok site hp hd, fire_of_ok site hp hd, ih (n + 1), ih (0 + 1)]
        cases (site.fire call limit fuel 0 s₁).1 with
        | error stop => rfl
        | ok m =>
          simp only [Except.map]
          congr 2
          omega

/-! ### What the loop does to the timeline -/

theorem Stays.delivered (hc : Stays site call) (limit : Instant) (f : Firing (Delivery κ))
    (value : Instant) (s : σ) :
    (site.timeline s).Turned limit (site.timeline (site.deliver call f value s).2) [] := by
  unfold deliver
  cases f.deliver with
  | channel =>
    show (site.timeline s).Turned limit (site.timeline (site.update _ s)) []
    rw [site.timeline_update]
    exact Timeline.turned_send limit _ f.id value
  | callback k =>
    obtain ⟨ms, hms, hmoves⟩ := hc k s
    show (site.timeline s).Turned limit (site.timeline (call k s).2) []
    rw [hmoves]
    exact Timeline.turned_moves hms limit

theorem Stays.turned (hc : Stays site call) {s : σ} (hv : (site.timeline s).queue.Valid)
    {e : Event (Delivery κ)} (htaken : (site.timeline s).taken? (.popDue limit) = some e)
    (value : Instant) :
    (site.timeline s).Turned limit
      (site.timeline (site.deliver call e.firing value (site.called e s)).2) [e] := by
  have hdelivered := hc.delivered limit e.firing value (site.called e s)
  rw [timeline_called] at hdelivered
  exact (Timeline.turned_popped hv htaken).trans hdelivered

theorem Stays.turned_of_delivers (hc : Stays site call) {s s' : σ}
    {fs : List (Firing (Delivery κ) × σ)} (hv : (site.timeline s).queue.Valid)
    (h : Delivers site call limit s fs s') :
    ∃ done, done.map (·.firing) = fs.map (·.1) ∧
      (site.timeline s).Turned limit (site.timeline s') done := by
  induction h with
  | nil => exact ⟨[], rfl, .refl _ _⟩
  | @turn s s₁ s' f t fs hp hd _ ih =>
    obtain ⟨e, htaken, -, -, -, rfl, rfl⟩ := Timeline.popDue_eq_some hv hp
    have hturned := hc.turned hv htaken e.firing.at_
    rw [show site.deliver call e.firing e.firing.at_ (site.called e s) = _ from hd] at hturned
    obtain ⟨done, hdone, hrest⟩ := ih (hturned.valid hv)
    exact ⟨e :: done, by rw [List.map_cons, List.map_cons, hdone], hturned.trans hrest⟩

/-- A loop that ends by a panic came to a callback that panics. -/
theorem Stays.exists_panics (hc : Stays site call) {s s₁ : σ} (hv : (site.timeline s).queue.Valid)
    {fuel n : Nat} {message : String}
    (h : site.fire call limit fuel n s = (.error (.panic message), s₁)) :
    ∃ fs s₀ e k, Panics site call limit s fs s₀ e k message s₁ := by
  induction fuel generalizing n s with
  | zero => cases h
  | succ fuel ih =>
    cases hp : (site.timeline s).popDue limit with
    | none =>
      rw [fire_of_none site hp] at h
      cases h
    | some p =>
      obtain ⟨f, t⟩ := p
      obtain ⟨e, htaken, -, -, -, rfl, rfl⟩ := Timeline.popDue_eq_some hv hp
      have hturned := hc.turned hv htaken e.firing.at_
      obtain ⟨r, s₂, hd⟩ : ∃ r s₂, site.deliver call e.firing e.firing.at_ (site.called e s) =
          (r, s₂) := ⟨_, _, rfl⟩
      rw [hd] at hturned
      cases r with
      | error stop =>
        rw [fire_of_error site hp hd] at h
        cases h
        unfold deliver at hd
        cases hto : e.firing.deliver with
        | channel =>
          rw [hto] at hd
          cases hd
        | callback k =>
          rw [hto] at hd
          exact ⟨[], s, e, k, .nil, htaken, hto, hd⟩
      | ok _ =>
        rw [fire_of_ok site hp hd] at h
        obtain ⟨fs, s₀, y, k, hpanics⟩ := ih (hturned.valid hv) h
        exact ⟨(e.firing, s₂) :: fs, s₀, y, k, .turn hp hd hpanics.delivers, hpanics.taken,
          hpanics.deliver_eq, hpanics.call_eq⟩

/-! ### Two programs that agree -/

/-- Wherever `P` holds, a turn of the loop is the same with `call'` as with `call`, and keeps
`P`. -/
def Agree (site : Site σ κ) (limit : Instant) (P : σ → Prop) (call call' : κ → Act σ Unit) :
    Prop :=
  ∀ s f t, P s → (site.timeline s).popDue limit = some (f, t) →
    site.deliver call' f f.at_ (site.record (site.firing f) (site.update t s)) =
        site.deliver call f f.at_ (site.record (site.firing f) (site.update t s)) ∧
      P (site.deliver call f f.at_ (site.record (site.firing f) (site.update t s))).2

theorem Agree.symm {P : σ → Prop} (h : Agree site limit P call call') :
    Agree site limit P call' call := by
  intro s f t hs hp
  obtain ⟨heq, hkept⟩ := h s f t hs hp
  exact ⟨heq.symm, heq ▸ hkept⟩

theorem Agree.fires {P : σ → Prop} (h : Agree site limit P call call') {s s' : σ}
    {fs : List (Firing (Delivery κ) × σ)} (hs : P s) (hf : Fires site call limit s fs s') :
    Fires site call' limit s fs s' := by
  induction hf with
  | done hp => exact .done hp
  | turn hp hd _ ih =>
    obtain ⟨heq, hkept⟩ := h _ _ _ hs hp
    rw [hd] at heq hkept
    exact .turn hp heq (ih hkept)

theorem Agree.fire {P : σ → Prop} (h : Agree site limit P call call') (fuel n : Nat) {s : σ}
    (hs : P s) : site.fire call' limit fuel n s = site.fire call limit fuel n s := by
  induction fuel generalizing n s with
  | zero => rfl
  | succ fuel ih =>
    cases hp : (site.timeline s).popDue limit with
    | none => rw [fire_of_none site hp, fire_of_none site hp]
    | some p =>
      obtain ⟨f, t⟩ := p
      obtain ⟨heq, hkept⟩ := h s f t hs hp
      obtain ⟨r, s₁, hd⟩ : ∃ r s₁, site.deliver call f f.at_
          (site.record (site.firing f) (site.update t s)) = (r, s₁) := ⟨_, _, rfl⟩
      rw [hd] at heq hkept
      cases r with
      | error stop => rw [fire_of_error site hp heq, fire_of_error site hp hd]
      | ok _ => rw [fire_of_ok site hp heq, fire_of_ok site hp hd, ih _ hkept]

/-! ### A callback that returns in one state -/

variable {k : κ} {x : σ}

theorem Mends.deliver_eq (h : Mends call call' k x) {f : Firing (Delivery κ)} {y : σ}
    (hne : ¬(f.deliver = .callback k ∧ y = x)) (value : Instant) :
    site.deliver call' f value y = site.deliver call f value y := by
  unfold deliver
  cases hto : f.deliver with
  | channel => rfl
  | callback k' => exact h.same k' y fun ⟨hk, hy⟩ => hne ⟨by rw [hto, hk], hy⟩

/-- What returned before is as it was. -/
theorem Mends.delivers (h : Mends call call' k x) {stop : Stop} {s₁ : σ}
    (hx : call k x = (.error stop, s₁)) {s s' : σ} {fs : List (Firing (Delivery κ) × σ)}
    (hd : Delivers site call limit s fs s') : Delivers site call' limit s fs s' := by
  induction hd with
  | nil => exact .nil
  | turn hp hd _ ih =>
    refine .turn hp ((h.deliver_eq ?_ _).trans hd) ih
    rintro ⟨hto, hy⟩
    rw [hy, deliver, hto] at hd
    have hboth := hx.symm.trans hd
    cases hboth

/-- What comes after is as it was, since the state in which the callback panics does not come
back. -/
theorem Mends.agree (h : Mends call call' k x) (hc : Stays site call)
    (hv : (site.timeline x).queue.Valid) :
    Agree site limit (fun s => ∃ ms, site.timeline s = (site.timeline x).moves ms) call call' := by
  rintro s f t ⟨ms, hms⟩ hp
  have hv' : (site.timeline s).queue.Valid := by
    rw [hms]
    exact Timeline.valid_moves hv ms
  obtain ⟨e, htaken, -, -, -, rfl, rfl⟩ := Timeline.popDue_eq_some hv' hp
  constructor
  · refine h.deliver_eq ?_ _
    rintro ⟨-, hback⟩
    have htimeline := timeline_called site e s
    rw [called, hback, hms] at htimeline
    rw [hms] at htaken
    exact Timeline.popped_ne hv htaken htimeline.symm
  · obtain ⟨ms', hms', -⟩ := (hc.turned hv' htaken e.firing.at_).moves
    refine ⟨ms ++ ms', ?_⟩
    rw [Timeline.moves_append, ← hms]
    exact hms'

/-! ### The rest of an advance -/

theorem limit_remaining {t : Timeline κ} {limit : Instant} (hle : t.now ≤ limit) :
    0 ≤ (t.remaining limit).nanos ∧ t.limit (t.remaining limit) = limit := by
  have hrest : (t.remaining limit).nanos = limit.nanos - t.now.nanos := rfl
  rw [Instant.le_def] at hle
  refine ⟨by omega, Instant.ext ?_⟩
  refine (Instant.nanos_deadline_clamp t.now _).trans ?_
  have hlast : limit.nanos ≤ Instant.last.nanos := limit.le_last
  omega

/-- An advance whose loop comes from `s` to `s₁` does the rest of its work as an advance from `s₁`
does. -/
theorem resumes_of_delivers {P : σ → Prop} {d : Delay} {s s₁ : σ}
    {fs : List (Firing (Delivery κ) × σ)} (hlimit : (site.timeline s).limit d = limit)
    (hd : Delivers site call' limit (site.entered d s) fs s₁)
    (hagree : Agree site limit P call call') (hs₁ : P s₁)
    (hle : (site.timeline s₁).now ≤ limit) :
    Resumes site call call' d s fs s₁ ((site.timeline s₁).remaining limit) := by
  obtain ⟨hpos, hrest⟩ := limit_remaining hle
  have hentered : site.entered _ s₁ = s₁ := entered_of_nonneg hpos s₁
  have hboth (fuel : Nat) :
      (site.advance call' (fs.length + fuel) d s).1 =
          (site.advance call fuel ((site.timeline s₁).remaining limit) s₁).1 ∧
        site.timeline (site.advance call' (fs.length + fuel) d s).2 =
          site.timeline (site.advance call fuel ((site.timeline s₁).remaining limit) s₁).2 := by
    rw [advance_apply, advance_apply, hlimit, hrest, hentered, hd.fire, hagree.fire _ _ hs₁,
      fire_count]
    obtain ⟨r, u⟩ := site.fire call limit fuel 0 s₁
    cases r with
    | error stop => exact ⟨rfl, rfl⟩
    | ok n =>
      simp only [Except.map, site.timeline_record, site.timeline_update]
      exact ⟨trivial, trivial⟩
  refine ⟨hrest.trans hlimit.symm, fun fuel => (hboth fuel).1, fun fuel => (hboth fuel).2, ?_⟩
  intro gs r t
  constructor
  · rintro ⟨s', hadvances, rfl⟩
    obtain ⟨s₂, hfires, rfl, rfl⟩ := advances_iff.mp hadvances
    rw [hlimit] at hfires ⊢
    obtain ⟨fs', rfl, hfires'⟩ := hd.fires_iff.mp hfires
    refine ⟨fs', _, rfl, advances_iff.mpr ⟨s₂, ?_, rfl, ?_⟩, ?_⟩
    · rw [hrest, hentered]
      exact hagree.symm.fires hs₁ hfires'
    · rw [hrest, timeline_settled, timeline_settled]
    · rw [hrest, timeline_settled, timeline_settled]
  · rintro ⟨fs', s', rfl, hadvances, rfl⟩
    obtain ⟨s₂, hfires, rfl, rfl⟩ := advances_iff.mp hadvances
    rw [hrest, hentered] at hfires
    refine ⟨_, advances_iff.mpr ⟨s₂, ?_, rfl, ?_⟩, ?_⟩
    · rw [hlimit]
      exact hd.fires_iff.mpr ⟨fs', rfl, hagree.fires hs₁ hfires⟩
    · rw [hrest, hlimit, timeline_settled, timeline_settled]
    · rw [hrest, hlimit, timeline_settled, timeline_settled]

variable {s s₀ s₁ : σ} {fs : List (Firing (Delivery κ) × σ)} {e : Event (Delivery κ)}
  {message : String}

theorem fire_of_advance_panic {fuel : Nat} {d : Delay}
    (h : site.advance call fuel d s = (.error (.panic message), s₁)) :
    site.fire call ((site.timeline s).limit d) fuel 0 (site.entered d s) =
      (.error (.panic message), s₁) := by
  rw [advance_apply] at h
  obtain ⟨r, u, hfire⟩ : ∃ r u, site.fire call ((site.timeline s).limit d) fuel 0
      (site.entered d s) = (r, u) := ⟨_, _, rfl⟩
  rw [hfire] at h ⊢
  cases r with
  | error stop =>
    cases h
    rfl
  | ok n => cases h

theorem Panics.turned (h : Panics site call limit s fs s₀ e k message s₁) (hc : Stays site call)
    (hv : (site.timeline s).queue.Valid) :
    ∃ done, done.map (·.firing) = fs.map (·.1) ∧
      (site.timeline s).Turned limit (site.timeline s₀) done ∧
      (site.timeline s).Turned limit (site.timeline s₁) (done ++ [e]) := by
  obtain ⟨done, hdone, hbefore⟩ := hc.turned_of_delivers hv h.delivers
  -- As far as the timeline is concerned, the turn of the panic is a turn like any other.
  have hturn := hc.turned (hbefore.valid hv) h.taken e.firing.at_
  have hdeliver : site.deliver call e.firing e.firing.at_ (site.called e s₀) =
      (.error (.panic message), s₁) := by
    rw [deliver, show e.firing.deliver = _ from h.deliver_eq]
    exact h.call_eq
  rw [hdeliver] at hturn
  exact ⟨done, hdone, hbefore, hbefore.trans hturn⟩

theorem Panics.interrupted (h : Panics site call limit s fs s₀ e k message s₁)
    (hc : Stays site call) (hv : (site.timeline s₀).queue.Valid) :
    ∃ ms, (site.timeline s₀).Interrupted e ms (site.timeline s₁) := by
  obtain ⟨ms, hms, hmoves⟩ := hc k (site.called e s₀)
  rw [h.call_eq, timeline_called] at hmoves
  have hmoves₁ : site.timeline s₁ = ((site.timeline s₀).popped e).moves ms := hmoves
  refine ⟨ms, ?_⟩
  rw [hmoves₁]
  exact Timeline.interrupted_of_taken hv h.taken hms

theorem Panics.delivers_mended (h : Panics site call limit s fs s₀ e k message s₁)
    (hmends : Mends call call' k (site.called e s₀)) (hv : (site.timeline s₀).queue.Valid) :
    Delivers site call' limit s (fs ++ [(e.firing, s₁)]) s₁ := by
  obtain ⟨_, heq, hp, -⟩ := Timeline.taken?_eq_some hv h.taken
  cases heq
  have hreturns : site.deliver call' e.firing e.firing.at_ (site.called e s₀) = (.ok (), s₁) := by
    rw [deliver, show e.firing.deliver = _ from h.deliver_eq]
    exact hmends.returns.trans (by rw [h.call_eq])
  exact (hmends.delivers h.call_eq h.delivers).append (.turn hp hreturns .nil)

theorem Panics.resumes {d : Delay}
    (h : Panics site call ((site.timeline s).limit d) (site.entered d s) fs s₀ e k message s₁)
    (hc : Stays site call) (hmends : Mends call call' k (site.called e s₀))
    (hv : (site.timeline s₀).queue.Valid)
    (hle : (site.timeline s₁).now ≤ (site.timeline s).limit d) :
    Resumes site call call' d s (fs ++ [(e.firing, s₁)]) s₁
      ((site.timeline s₁).remaining ((site.timeline s).limit d)) := by
  have hx : (site.timeline (site.called e s₀)).queue.Valid := by
    rw [timeline_called]
    exact (Timeline.turned_popped hv h.taken).valid hv
  obtain ⟨ms, hinterrupted⟩ := h.interrupted hc hv
  refine resumes_of_delivers rfl (h.delivers_mended hmends hv) (hmends.agree hc hx) ⟨ms, ?_⟩ hle
  rw [timeline_called]
  exact hinterrupted.eq_moves

/-- Callbacks of which the first one starts a timer without delay and then panics. -/
def hasty : Nat → Act (Timeline Nat) Unit
  | 0 => (modify fun t => (t.startTimer .zero (.callback 1)).2) >>= fun _ => throw (.panic "hasty")
  | _ => pure ()

/-- The timer of the callback that panics is due at 5 ns, after a ticker of 3 ns and before a timer
for the same instant. -/
def hurries : List (Move Nat) :=
  [.allocate, .arm 1 ⟨5⟩ .zero (.callback 0), .allocate, .arm 2 ⟨3⟩ ⟨3⟩ .channel, .allocate,
    .arm 3 ⟨5⟩ .zero .channel]

theorem stays_hasty : alone.Stays hasty := by
  intro k t
  cases k with
  | zero =>
    refine ⟨[.allocate, .arm t.allocate.1 .zero .zero (.callback 1)], ?_, rfl⟩
    simp [Move.isInner]
  | succ k => exact ⟨[], by simp, rfl⟩

theorem exists_mends (call : κ → Act σ Unit) (k : κ) (x : σ) : ∃ call', Mends call call' k x := by
  classical
  refine ⟨fun k' x' => if k' = k ∧ x' = x then (.ok (), (call k x).2) else call k' x', ?_, ?_⟩
  · exact if_pos ⟨rfl, rfl⟩
  · exact fun k' x' hne => if_neg hne

end Site

end VirtualClock
