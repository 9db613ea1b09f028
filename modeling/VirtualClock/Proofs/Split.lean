import VirtualClock.Proofs.Firings

/-! One advance and the same time in two advances cannot be told apart, as long as callbacks use the
timeline but neither advance nor replace it. The two differ in one place: the second advance finds
the timeline settled on the instant at which the first one ended, and this is gone as soon as an
event fires. -/

namespace VirtualClock

theorem EventQueue.popDue_of_le {δ : Type} {q : EventQueue δ} {l l' : Instant} (hle : l ≤ l')
    {p : Firing δ × EventQueue δ} (hp : q.popDue l = some p) : q.popDue l' = some p := by
  unfold popDue at hp ⊢
  cases hkey : q.pending.minKey? with
  | none =>
    rw [hkey] at hp
    cases hp
  | some key =>
    rw [hkey] at hp
    by_cases hlt : l < key.target
    · simp [hlt] at hp
    · have hlt' : ¬l' < key.target := by
        rw [Instant.lt_def] at hlt ⊢
        rw [Instant.le_def] at hle
        omega
      simpa [hlt, hlt'] using hp

namespace Timeline

variable {κ : Type} {t : Timeline κ} {l l' : Instant}

theorem popDue_of_le (hle : l ≤ l') {p : Firing (Delivery κ) × Timeline κ}
    (hp : t.popDue l = some p) : t.popDue l' = some p := by
  obtain ⟨p', hp', rfl⟩ := Option.map_eq_some_iff.mp hp
  rw [popDue, EventQueue.popDue_of_le hle hp', Option.map_some]

/-- The jump to what is due after `l` forgets that the timeline had settled on `l`. -/
theorem popDue_settle (hv : t.queue.Valid) (hnow : t.now ≤ l) (hp : t.popDue l = none) :
    (t.settle l).popDue l' = t.popDue l' := by
  unfold popDue
  show (t.queue.popDue l').map _ = _
  cases hq : t.queue.popDue l' with
  | none => rfl
  | some p =>
    obtain ⟨f, q⟩ := p
    obtain ⟨e, he, -, rfl, -⟩ := EventQueue.popDue_eq_some hv hq
    have hlt := (popDue_eq_none hv).mp hp e (EventQueue.first?_eq_some hv he).1
    rw [Instant.lt_def] at hlt
    rw [Instant.le_def] at hnow
    have hjump : (t.now.later l).later e.target = t.now.later e.target := by
      apply Instant.ext
      simp only [Instant.nanos_later]
      omega
    simp only [Option.map_some, Event.firing, settle, hjump]

theorem settle_settle (hle : l ≤ l') : (t.settle l).settle l' = t.settle l' := by
  have hlater : (t.now.later l).later l' = t.now.later l' := by
    rw [Instant.le_def] at hle
    apply Instant.ext
    simp only [Instant.nanos_later]
    omega
  simp only [settle, hlater]

theorem origin_moves (t : Timeline κ) (ms : List (Move κ)) : (t.moves ms).origin = t.origin := by
  induction ms generalizing t with
  | nil => rfl
  | cons m ms ih =>
    rw [moves_cons, ih]
    exact Solo.origin_move t m

theorem now_moves (t : Timeline κ) {ms : List (Move κ)} (hms : ∀ m ∈ ms, m.isInner = false) :
    (t.moves ms).now = t.now := by
  induction ms generalizing t with
  | nil => rfl
  | cons m ms ih =>
    rw [List.forall_mem_cons] at hms
    rw [moves_cons, ih _ hms.2]
    exact Solo.now_move hms.1

end Timeline

namespace Site

variable {σ κ ω : Type}

/-- What callbacks can see of a state: the timeline, and the part `rest`, in which they may keep
anything else. -/
def view (site : Site σ κ) (rest : σ → ω) (s : σ) : Timeline κ × ω := (site.timeline s, rest s)

/-- What can be observed of some firings: each with what there is to be seen after it. -/
def observed (site : Site σ κ) (rest : σ → ω) (fs : List (Firing (Delivery κ) × σ)) :
    List (Firing (Delivery κ) × Timeline κ × ω) :=
  fs.map fun (f, s) => (f, site.view rest s)

/-- Neither the log nor the timeline is part of `rest`. -/
structure Backdrop (site : Site σ κ) (rest : σ → ω) : Prop where
  rest_update : ∀ t s, rest (site.update t s) = rest s
  rest_record : ∀ e s, rest (site.record e s) = rest s

/-- Callbacks that return, and use the timeline without an advance of their own. What they do
depends on what they can see. -/
structure Arranges (site : Site σ κ) (rest : σ → ω) (call : κ → Act σ Unit) : Prop where
  returns : ∀ k s, ∃ s', call k s = (.ok (), s')
  moves : ∀ k s, ∃ ms : List (Move κ), (∀ m ∈ ms, m.isInner = false) ∧
    site.timeline (call k s).2 = (site.timeline s).moves ms
  congr : ∀ k s s', site.view rest s = site.view rest s' →
    site.view rest (call k s).2 = site.view rest (call k s').2

variable {site : Site σ κ} {rest : σ → ω} {call : κ → Act σ Unit} {l l' : Instant}

/-! ### What firing keeps -/

theorem Arranges.deliver (hc : Arranges site rest call) (f : Firing (Delivery κ)) (s : σ) :
    ∃ s', site.deliver call f f.at_ s = (.ok (), s') := by
  unfold Site.deliver
  cases f.deliver with
  | channel => exact ⟨_, rfl⟩
  | callback k => exact hc.returns k s

/-- A delivery is some moves, and none of them moves time. -/
theorem Arranges.moves_deliver (hc : Arranges site rest call) (f : Firing (Delivery κ)) (s : σ) :
    ∃ ms : List (Move κ),
      site.timeline (site.deliver call f f.at_ s).2 = (site.timeline s).moves ms ∧
      (site.timeline (site.deliver call f f.at_ s).2).now = (site.timeline s).now := by
  unfold Site.deliver
  cases f.deliver with
  | channel =>
    have hsent := site.timeline_update ((site.timeline s).send f.id f.at_) s
    refine ⟨[.send f.id f.at_], hsent, ?_⟩
    show (site.timeline (site.update ((site.timeline s).send f.id f.at_) s)).now = _
    rw [hsent]
    rfl
  | callback k =>
    obtain ⟨ms, hms, hmoves⟩ := hc.moves k s
    refine ⟨ms, hmoves, ?_⟩
    rw [hmoves]
    exact Timeline.now_moves _ hms

/-- An advance up to `l` has not gone beyond `l`. -/
structure Within (l : Instant) (origin : Reading) (t : Timeline κ) : Prop where
  valid : t.queue.Valid
  origin_eq : t.origin = origin
  now_le : t.now ≤ l

theorem Within.fires (hc : Arranges site rest call) {origin : Reading} {s s' : σ}
    {fs : List (Firing (Delivery κ) × σ)} (hf : Fires site call l s fs s')
    (h : Within l origin (site.timeline s)) : Within l origin (site.timeline s') := by
  induction hf with
  | done hp => exact h
  | @turn s s₁ s' f t fs hp hd _ ih =>
    apply ih
    obtain ⟨e, htaken, -, hle, -, rfl, rfl⟩ := Timeline.popDue_eq_some h.valid hp
    obtain ⟨_, -, -, hmove, -⟩ := Timeline.taken?_eq_some h.valid htaken
    obtain ⟨ms, hms, hnow⟩ := hc.moves_deliver e.firing
      (site.record (site.firing e.firing) (site.update ((site.timeline s).popped e) s))
    rw [hd, site.timeline_record, site.timeline_update, ← hmove] at hms hnow
    have hvalid := Timeline.valid_move h.valid (.popDue l)
    constructor
    · rw [hms]
      exact Timeline.valid_moves hvalid ms
    · rw [hms, Timeline.origin_moves, Solo.origin_move]
      exact h.origin_eq
    · have hjump : ((site.timeline s).popped e).now.nanos =
          max (site.timeline s).now.nanos e.target.nanos := Instant.nanos_later _ _
      have hstart := h.now_le
      rw [Instant.le_def] at hle hstart ⊢
      rw [hnow, hmove, hjump]
      omega

/-! ### Two runs -/

/-- Firing up to `l` cannot tell two states apart. -/
structure Alike (site : Site σ κ) (rest : σ → ω) (l : Instant) (s s' : σ) : Prop where
  popDue_eq : (site.timeline s).popDue l = (site.timeline s').popDue l
  settle_eq : (site.timeline s).settle l = (site.timeline s').settle l
  rest_eq : rest s = rest s'

theorem alike_of_view {s s' : σ} (h : site.view rest s = site.view rest s') :
    Alike site rest l s s' := by
  obtain ⟨ht, hrest⟩ := Prod.mk.inj h
  exact ⟨by rw [ht], by rw [ht], hrest⟩

theorem Arranges.view_deliver (hc : Arranges site rest call) (hb : Backdrop site rest)
    (f : Firing (Delivery κ)) {s s' : σ} (h : site.view rest s = site.view rest s') :
    site.view rest (site.deliver call f f.at_ s).2 =
      site.view rest (site.deliver call f f.at_ s').2 := by
  unfold Site.deliver
  cases f.deliver with
  | channel =>
    obtain ⟨ht, hrest⟩ := Prod.mk.inj h
    simp only [view, site.timeline_update, hb.rest_update, ht, hrest]
  | callback k => exact hc.congr k s s' h

/-- From states that are alike, the same is fired. -/
theorem Alike.fires (hc : Arranges site rest call) (hb : Backdrop site rest) {s₁ s₁' : σ}
    {fs : List (Firing (Delivery κ) × σ)} (hf : Fires site call l s₁ fs s₁') {s₂ : σ}
    (h : Alike site rest l s₁ s₂) :
    ∃ fs₂ s₂', Fires site call l s₂ fs₂ s₂' ∧
      site.observed rest fs = site.observed rest fs₂ ∧ Alike site rest l s₁' s₂' := by
  -- One delivery is enough to make the two states look the same; from there on `h` holds anew.
  induction hf generalizing s₂ with
  | done hp => exact ⟨[], s₂, .done (h.popDue_eq ▸ hp), rfl, h⟩
  | @turn s₁ s₁₁ s₁' f t fs hp hd _ ih =>
    have hview : site.view rest (site.record (site.firing f) (site.update t s₁)) =
        site.view rest (site.record (site.firing f) (site.update t s₂)) := by
      simp only [view, site.timeline_record, site.timeline_update, hb.rest_record, hb.rest_update,
        h.rest_eq]
    obtain ⟨s₂₁, hd₂⟩ := hc.deliver f (site.record (site.firing f) (site.update t s₂))
    have hview₁ := hc.view_deliver hb f hview
    rw [hd, hd₂] at hview₁
    obtain ⟨fs₂, s₂', hf₂, hobs, halike⟩ := ih (alike_of_view hview₁)
    refine ⟨(f, s₂₁) :: fs₂, s₂', .turn (h.popDue_eq ▸ hp) hd₂ hf₂, ?_, halike⟩
    simp only [observed, List.map_cons, List.cons.injEq, Prod.mk.injEq, true_and]
    exact ⟨hview₁, hobs⟩

/-- Firing up to `l'` goes through the state in which nothing is due up to `l` any more. -/
theorem fires_iff_of_le (hle : l ≤ l') {s s' : σ} {fs : List (Firing (Delivery κ) × σ)} :
    Fires site call l' s fs s' ↔ ∃ fs₁ fs₂ m, fs = fs₁ ++ fs₂ ∧ Fires site call l s fs₁ m ∧
      Fires site call l' m fs₂ s' := by
  constructor
  · intro h
    -- The cut is before the first turn that is not due up to `l`.
    induction h with
    | @done s hp =>
      have hp' : (site.timeline s).popDue l = none := by
        cases hsome : (site.timeline s).popDue l with
        | none => rfl
        | some p =>
          rw [Timeline.popDue_of_le hle hsome] at hp
          cases hp
      exact ⟨[], [], s, rfl, .done hp', .done hp⟩
    | @turn s s₁ s' f t fs hp hd hrest ih =>
      cases hsome : (site.timeline s).popDue l with
      | none => exact ⟨[], _, s, rfl, .done hsome, .turn hp hd hrest⟩
      | some p =>
        obtain rfl : p = (f, t) :=
          Option.some.inj ((Timeline.popDue_of_le hle hsome).symm.trans hp)
        obtain ⟨fs₁, fs₂, m, rfl, h₁, h₂⟩ := ih
        exact ⟨(f, s₁) :: fs₁, fs₂, m, rfl, .turn hsome hd h₁, h₂⟩
  · rintro ⟨fs₁, fs₂, m, rfl, h₁, h₂⟩
    induction h₁ with
    | done _ => exact h₂
    | turn hp hd _ ih => exact .turn (Timeline.popDue_of_le hle hp) hd (ih h₂)

/-! ### Two advances -/

theorem Alike.symm {s s' : σ} (h : Alike site rest l s s') : Alike site rest l s' s :=
  ⟨h.popDue_eq.symm, h.settle_eq.symm, h.rest_eq.symm⟩

theorem entered_of_nonneg {d : Delay} (h : 0 ≤ d.nanos) (s : σ) : site.entered d s = s :=
  if_neg (Int.not_lt.mpr h)

theorem view_settled (hb : Backdrop site rest) (d : Delay) (n : Nat) (s : σ) :
    site.view rest (site.settled d l n s) = ((site.timeline s).settle l, rest s) := by
  rw [view, timeline_settled, settled, hb.rest_record, hb.rest_update]

/-- What is left to fire after the first advance is the same whether it settled or not. -/
theorem alike_settled (hb : Backdrop site rest) (hle : l ≤ l') {origin : Reading} {m : σ}
    (h : Within l origin (site.timeline m)) (hp : (site.timeline m).popDue l = none) (d : Delay)
    (n : Nat) : Alike site rest l' m (site.settled d l n m) := by
  have hview := view_settled (l := l) hb d n m
  obtain ⟨ht, hrest⟩ := Prod.mk.inj hview
  constructor
  · rw [ht, Timeline.popDue_settle h.valid h.now_le hp]
  · rw [ht, Timeline.settle_settle hle]
  · exact hrest.symm

theorem within_limit {t : Timeline κ} (hv : t.queue.Valid) (d : Delay) :
    Within (t.limit d) t.origin t :=
  ⟨hv, rfl, Instant.le_deadline t.now d⟩

theorem Within.now_settle {origin : Reading} {t : Timeline κ} (h : Within l origin t) :
    (t.settle l).now = l :=
  Instant.later_of_le h.now_le

/-- An advance that returns has come to its limit, and returns the time that the clock shows to have
passed there since the start. -/
theorem Advances.settles (hc : Arranges site rest call) {d r : Delay} {s s' : σ}
    {fs : List (Firing (Delivery κ) × σ)} (hv : (site.timeline s).queue.Valid)
    (h : Advances site call d s fs r s') :
    (site.timeline s').queue.Valid ∧ (site.timeline s').origin = (site.timeline s).origin ∧
      (site.timeline s').now = (site.timeline s).limit d ∧
      r = ((site.timeline s).origin.carry ((site.timeline s).limit d)).since
        (site.timeline s).origin := by
  obtain ⟨s₁, hf, rfl, rfl⟩ := advances_iff.mp h
  have hstart : Within ((site.timeline s).limit d) (site.timeline s).origin
      (site.timeline (site.entered d s)) := by
    rw [timeline_entered]
    exact within_limit hv d
  have hend := hstart.fires hc hf
  rw [timeline_settled]
  refine ⟨hend.valid, hend.origin_eq, hend.now_settle, ?_⟩
  have horigin : ((site.timeline s₁).settle ((site.timeline s).limit d)).origin =
      (site.timeline s).origin := hend.origin_eq
  rw [Timeline.elapsed, Timeline.reading, hend.now_settle, horigin]

theorem limit_add {t t' : Timeline κ} {a b : Delay} (ha : 0 ≤ a.nanos) (hb : 0 ≤ b.nanos)
    (hnow : t'.now = t.limit a) :
    t'.limit b = t.limit ⟨a.nanos + b.nanos⟩ ∧ t.limit a ≤ t.limit ⟨a.nanos + b.nanos⟩ := by
  have hl : (t.limit a).nanos = _ := Instant.nanos_deadline_clamp t.now a
  have hl' : (t.limit ⟨a.nanos + b.nanos⟩).nanos = _ := Instant.nanos_deadline_clamp t.now _
  have hl₂ : (t'.limit b).nanos = _ := Instant.nanos_deadline_clamp t'.now b
  rw [hnow, hl] at hl₂
  simp only at hl'
  constructor
  · apply Instant.ext
    omega
  · rw [Instant.le_def]
    omega

/-- What is fired up to the limit of an advance by `a` is what that advance fires. Once it has
returned, an advance by `b` goes on where the loop would go on anyway. -/
theorem Fires.advances (hc : Arranges site rest call) (hb : Backdrop site rest) {s m : σ}
    (hv : (site.timeline s).queue.Valid) {a b : Delay} (ha : 0 ≤ a.nanos) (hb' : 0 ≤ b.nanos)
    {fs : List (Firing (Delivery κ) × σ)}
    (h : Fires site call ((site.timeline s).limit a) s fs m) :
    let m' := site.settled a ((site.timeline s).limit a) fs.length m
    Advances site call a s fs (site.timeline m').elapsed m' ∧
      (site.timeline m').limit b = (site.timeline s).limit ⟨a.nanos + b.nanos⟩ ∧
      Alike site rest ((site.timeline s).limit ⟨a.nanos + b.nanos⟩) m m' := by
  intro m'
  have hfirst : Advances site call a s fs (site.timeline m').elapsed m' :=
    advances_iff.mpr ⟨m, by rw [entered_of_nonneg ha]; exact h, rfl, rfl⟩
  have hnow := (hfirst.settles hc hv).2.2.1
  obtain ⟨hlimit, hle⟩ := limit_add ha hb' hnow
  exact ⟨hfirst, hlimit,
    alike_settled hb hle ((within_limit hv a).fires hc h) h.popDue_eq_none a _⟩

theorem Alike.view_settled (hb : Backdrop site rest) {s s' : σ} (h : Alike site rest l s s')
    (d d' : Delay) (n n' : Nat) :
    site.view rest (site.settled d l n s) = site.view rest (site.settled d' l n' s') := by
  rw [Site.view_settled hb, Site.view_settled hb, h.settle_eq, h.rest_eq]

theorem observed_append (fs fs' : List (Firing (Delivery κ) × σ)) :
    site.observed rest (fs ++ fs') = site.observed rest fs ++ site.observed rest fs' :=
  List.map_append

/-- One advance shows what the same time in two advances shows. -/
theorem advances_add_iff (hc : Arranges site rest call) (hb : Backdrop site rest) {s : σ}
    (hv : (site.timeline s).queue.Valid) {a b : Delay} (ha : 0 ≤ a.nanos) (hb' : 0 ≤ b.nanos)
    {os : List (Firing (Delivery κ) × Timeline κ × ω)} {r : Delay} {v : Timeline κ × ω} :
    (∃ fs s', Advances site call ⟨a.nanos + b.nanos⟩ s fs r s' ∧ site.observed rest fs = os ∧
        site.view rest s' = v) ↔
      ∃ fs₁ r₁ m fs₂ s', Advances site call a s fs₁ r₁ m ∧ Advances site call b m fs₂ r s' ∧
        site.observed rest (fs₁ ++ fs₂) = os ∧ site.view rest s' = v := by
  have hab : 0 ≤ (⟨a.nanos + b.nanos⟩ : Delay).nanos := Int.add_nonneg ha hb'
  have hle : (site.timeline s).limit a ≤ (site.timeline s).limit ⟨a.nanos + b.nanos⟩ :=
    (limit_add ha hb' (within_limit hv a).now_settle).2
  constructor
  · rintro ⟨fs, s', h, rfl, rfl⟩
    obtain ⟨s₁, hf, rfl, rfl⟩ := advances_iff.mp h
    rw [entered_of_nonneg hab] at hf
    obtain ⟨fs₁, fs₂, m, rfl, h₁, h₂⟩ := (fires_iff_of_le hle).mp hf
    obtain ⟨hfirst, hlimit, halike⟩ := h₁.advances hc hb hv ha hb'
    obtain ⟨fs₂', s₁', h₂', hobs, halike'⟩ := halike.fires hc hb h₂
    have hview (n n' : Nat) := halike'.view_settled hb ⟨a.nanos + b.nanos⟩ b n n'
    refine ⟨fs₁, _, _, fs₂', _, hfirst, advances_iff.mpr ⟨s₁', ?_, rfl, ?_⟩, ?_, ?_⟩
    · rw [hlimit, entered_of_nonneg hb']
      exact h₂'
    · rw [hlimit]
      exact congrArg (·.1.elapsed) (hview _ _)
    · rw [observed_append, observed_append, hobs]
    · rw [hlimit]
      exact (hview _ _).symm
  · rintro ⟨fs₁, r₁, m', fs₂, s', hfirst, hsecond, rfl, rfl⟩
    obtain ⟨m, h₁, rfl, rfl⟩ := advances_iff.mp hfirst
    rw [entered_of_nonneg ha] at h₁
    obtain ⟨-, hlimit, halike⟩ := h₁.advances hc hb hv ha hb'
    obtain ⟨s₁', h₂, rfl, rfl⟩ := advances_iff.mp hsecond
    rw [hlimit, entered_of_nonneg hb'] at h₂
    obtain ⟨fs₂', s₁, h₂', hobs, halike'⟩ := halike.symm.fires hc hb h₂
    have hview (n n' : Nat) := halike'.view_settled hb b ⟨a.nanos + b.nanos⟩ n n'
    refine ⟨fs₁ ++ fs₂', _, advances_iff.mpr ⟨s₁, ?_, rfl, ?_⟩, ?_, ?_⟩
    · rw [entered_of_nonneg hab]
      exact (fires_iff_of_le hle).mpr ⟨fs₁, fs₂', m, rfl, h₁, h₂'⟩
    · rw [hlimit]
      exact congrArg (·.1.elapsed) (hview _ _)
    · rw [observed_append, observed_append, hobs]
    · rw [hlimit]
      exact (hview _ _).symm

/-! ### Any number of advances -/

/-- The time by which some advances move a timeline. -/
def passed (ds : List Delay) : Int := (ds.map fun d => max d.nanos 0).sum

theorem passed_cons (d : Delay) (ds : List Delay) :
    passed (d :: ds) = max d.nanos 0 + passed ds := List.sum_cons

theorem passed_nonneg (ds : List Delay) : 0 ≤ passed ds := by
  induction ds with
  | nil => exact Int.le_refl 0
  | cons d ds ih =>
    rw [passed_cons]
    omega

/-- Each of some advances comes as far as its delay and those before it say, but not beyond the last
instant, and returns the time that the clock shows to have passed there since the start. -/
theorem returns_passed (hc : Arranges site rest call) {fuel : Nat} {ds rs : List Delay} {s s' : σ}
    (hv : (site.timeline s).queue.Valid)
    (h : (ds.mapM (site.advance call fuel)) s = (.ok rs, s')) :
    rs.length = ds.length ∧ ∀ i r, rs[i]? = some r → ∃ t : Instant,
      t.nanos = min ((site.timeline s).now.nanos + passed (ds.take (i + 1))) Instant.last.nanos ∧
        r = ((site.timeline s).origin.carry t).since (site.timeline s).origin := by
  induction ds generalizing s rs with
  | nil =>
    cases h
    exact ⟨rfl, fun i r hr => by cases hr⟩
  | cons d ds ih =>
    rw [List.mapM_cons] at h
    obtain ⟨r₀, s₁, hadvance, h⟩ := Act.bind_eq_ok.mp h
    obtain ⟨rest, s₂, hmap, h⟩ := Act.bind_eq_ok.mp h
    cases h
    obtain ⟨fs, hadv⟩ := exists_advances hadvance
    obtain ⟨hv₁, horigin, hnow, hr₀⟩ := hadv.settles hc hv
    obtain ⟨hlength, hrest⟩ := ih hv₁ hmap
    have hlimit : ((site.timeline s).limit d).nanos =
        min ((site.timeline s).now.nanos + max d.nanos 0) Instant.last.nanos :=
      Instant.nanos_deadline_clamp _ _
    refine ⟨congrArg (· + 1) hlength, fun i r hr => ?_⟩
    rw [List.take_succ_cons, passed_cons]
    cases i with
    | zero =>
      cases hr
      refine ⟨_, ?_, hr₀⟩
      simpa [passed] using hlimit
    | succ i =>
      obtain ⟨t, ht, hr⟩ := hrest i r hr
      have hpos := passed_nonneg (ds.take (i + 1))
      rw [hnow, hlimit] at ht
      rw [horigin] at hr
      exact ⟨t, by omega, hr⟩

/-- A timeline beside a list of instants. -/
def notebook : Site (Timeline Nat × List Instant) Nat where
  timeline := Prod.fst
  update t s := (t, s.2)
  record _ s := s
  stamp _ := ""
  timeline_update _ _ := rfl
  timeline_record _ _ := rfl

/-- Callbacks that note the time. The first one also stops a timer and starts one without delay. -/
def noting (k : Nat) : Act (Timeline Nat × List Instant) Unit :=
  modify fun (t, l) =>
    (if k = 0 then t.moves [.disarm 2, .allocate, .arm 3 .zero .zero (.callback 1)] else t,
      t.now :: l)

theorem arranges_noting : Arranges notebook Prod.snd noting where
  returns k s := ⟨_, rfl⟩
  moves k s := by
    by_cases hk : k = 0
    · refine ⟨[.disarm 2, .allocate, .arm 3 .zero .zero (.callback 1)], by decide, ?_⟩
      exact if_pos hk
    · exact ⟨[], by decide, if_neg hk⟩
  congr k s s' h := by
    obtain rfl : s = s' := h
    rfl

/-- The leap second at the end of 2016. -/
def leapSecond : Reading := ⟨⟨1483228799000000000, by decide, by decide⟩, true⟩

example : String.ofList (leapSecond.rfc3339 .fewest) = "2016-12-31T23:59:60Z" := by cbv

end Site

end VirtualClock
