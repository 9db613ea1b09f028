import VirtualClock.Proofs.Split
import VirtualClock.Proofs.Timeline.Ticks

/-! Advances of a timeline whose events all go to channels. Nothing is armed meanwhile, so what such
an advance does can be read off the events that are pending when it begins: each fires at its own
instants up to the limit, and what is left of it is pending afterwards. The backlog of the queue
bounds the number of turns. -/

namespace VirtualClock

variable {σ κ : Type}

namespace Timeline

/-- Everything pending goes to a channel. -/
def Channelled (t : Timeline κ) : Prop := ∀ e ∈ t.queue, e.deliver = .channel

/-- Of `t` all that is due up to `limit` is fired, as `fs` and in this order, and `t'` is left. -/
structure Swept (limit : Instant) (t t' : Timeline κ) (fs : List (Firing (Delivery κ))) : Prop where
  /-- Each event fires at its own instants up to the limit. -/
  ticks : ∀ e ∈ t.queue, (fs.filter (·.id = e.id)).map (·.at_.nanos) = e.ticks limit
  /-- Nothing else fires. -/
  only : ∀ f ∈ fs, ∃ e ∈ t.queue, f.id = e.id ∧ f.deliver = e.deliver
  ordered : fs.Pairwise fun f g => f.at_ ≤ g.at_
  /-- Nothing is pending but what is left of an event. -/
  left : ∀ x ∈ t'.queue, ∃ e ∈ t.queue, e.Left limit x
  lasts : ∀ e ∈ t.queue, e.Lasts limit → ∃ x ∈ t'.queue, e.Left limit x
  /-- A channel that held no value has that of the first firing. -/
  waiting : ∀ id : Nat,
    t'.waiting[id]? = t.waiting[id]?.or ((fs.find? (·.id = id)).map (·.at_))
  now_eq : t'.now = limit
  origin_eq : t'.origin = t.origin

variable {t t' : Timeline κ} {limit : Instant} {e x : Event (Delivery κ)}
  {fs : List (Firing (Delivery κ))}

/-- The timeline after `e` was popped and its value sent. -/
def ticked (t : Timeline κ) (e : Event (Delivery κ)) : Timeline κ :=
  (t.popped e).send e.id e.target

theorem mem_ticked (hv : t.queue.Valid) (he : e ∈ t.queue) :
    x ∈ (t.ticked e).queue ↔ x ∈ t.queue ∧ x ≠ e ∨
      ∃ e', e.next? = some e' ∧ x = e'.withSequence (t.queue.sequence + 1) :=
  EventQueue.mem_popped hv he

theorem id_eq_of_mem_ticked (hv : t.queue.Valid) (he : e ∈ t.queue) (hx : x ∈ (t.ticked e).queue)
    (hid : x.id = e.id) : ∃ e', e.next? = some e' ∧ x = e'.withSequence (t.queue.sequence + 1) := by
  obtain ⟨hold, hne⟩ | hnew := (mem_ticked hv he).mp hx
  · exact absurd (hv.eq_of_id hold he hid) hne
  · exact hnew

theorem now_ticked_le (hnow : t.now ≤ limit) (hle : e.target ≤ limit) :
    (t.ticked e).now ≤ limit := by
  have hjump : (t.ticked e).now.nanos = max t.now.nanos e.target.nanos := Instant.nanos_later _ _
  rw [Instant.le_def] at *
  omega

theorem Channelled.ticked (h : t.Channelled) (hv : t.queue.Valid) (he : e ∈ t.queue) :
    (t.ticked e).Channelled := by
  intro x hx
  obtain ⟨hold, -⟩ | ⟨e', hnext, rfl⟩ := (mem_ticked hv he).mp hx
  · exact h x hold
  · exact (Event.next?_eq_some hnext).2.2.1.trans (h e he)

theorem swept_settle (hv : t.queue.Valid) (hnow : t.now ≤ limit) (hp : t.popDue limit = none) :
    Swept limit t (t.settle limit) [] := by
  have hlater := (popDue_eq_none hv).mp hp
  constructor
  · intro e he
    rw [Event.ticks_of_lt (hlater e he)]
    rfl
  · simp
  · exact .nil
  · intro x hx
    exact ⟨x, hx, Event.left_of_lt (hlater x hx)⟩
  · intro e he _
    exact ⟨e, he, Event.left_of_lt (hlater e he)⟩
  · simp [settle]
  · exact Instant.later_of_le hnow
  · rfl

theorem waiting_ticked (t : Timeline κ) (e : Event (Delivery κ)) (id : Nat) :
    (t.ticked e).waiting[id]? =
      if e.id = id then t.waiting[id]?.or (some e.target) else t.waiting[id]? := by
  show (t.waiting.insertIfNew e.id e.target)[id]? = _
  rw [Std.TreeMap.getElem?_insertIfNew]
  by_cases hid : e.id = id
  · subst hid
    cases hw : t.waiting[e.id]? <;> simp [Std.TreeMap.mem_iff_isSome_getElem?, hw]
  · simp [hid]

/-- After the first firing of an event come those of its next tick. -/
theorem Swept.ticks_cons (h : Swept limit (t.ticked e) t' fs) (hv : t.queue.Valid)
    (he : e ∈ t.queue) (hle : e.target ≤ limit) :
    ((e.firing :: fs).filter (·.id = e.id)).map (·.at_.nanos) = e.ticks limit := by
  rw [List.filter_cons_of_pos (by simp [Event.firing]), List.map_cons, Event.ticks_of_le hle]
  congr 1
  cases hnext : e.next? with
  | none =>
    -- A one-shot is gone, so nothing with its id fires later.
    rw [Option.elim_none, List.map_eq_nil_iff, List.filter_eq_nil_iff]
    intro f hf hfid
    obtain ⟨y, hy, hid, -⟩ := h.only f hf
    have hye : y.id = e.id := hid.symm.trans (by simpa using hfid)
    obtain ⟨e', hsome, -⟩ := id_eq_of_mem_ticked hv he hy hye
    rw [hnext] at hsome
    cases hsome
  | some e' =>
    have hmem : e'.withSequence (t.queue.sequence + 1) ∈ (t.ticked e).queue :=
      (mem_ticked hv he).mpr (.inr ⟨e', hnext, rfl⟩)
    have hid : (e'.withSequence (t.queue.sequence + 1)).id = e.id := (Event.next?_eq_some hnext).1
    have hticks := h.ticks _ hmem
    rw [hid, Event.ticks_withSequence] at hticks
    exact hticks

theorem Swept.target_le (h : Swept limit (t.ticked e) t' fs) (hv : t.queue.Valid)
    (he : e ∈ t.queue) (hleast : ∀ x ∈ t.queue, x ≠ e → e.key < x.key) :
    ∀ f ∈ fs, e.target ≤ f.at_ := by
  intro f hf
  obtain ⟨y, hy, hid, -⟩ := h.only f hf
  have hfy : f.at_.nanos ∈ y.ticks limit := by
    rw [← h.ticks y hy]
    exact List.mem_map.mpr ⟨f, List.mem_filter.mpr ⟨hf, by simpa using hid⟩, rfl⟩
  have hge := Event.target_le_of_mem_ticks hfy
  rw [Instant.le_def]
  obtain ⟨hold, hne⟩ | ⟨e', hnext, rfl⟩ := (mem_ticked hv he).mp hy
  · have hkey := OrderKey.lt_iff_nanos.mp (hleast y hold hne)
    simp only [Event.key] at hkey
    omega
  · obtain ⟨-, -, -, htarget, hpos⟩ := Event.next?_eq_some hnext
    have hge' : e'.target.nanos ≤ f.at_.nanos := hge
    omega

/-- The earliest event is due, and the rest is fired after it. -/
theorem Swept.cons (hv : t.queue.Valid) (he : e ∈ t.queue) (hle : e.target ≤ limit)
    (hleast : ∀ x ∈ t.queue, x ≠ e → e.key < x.key) (h : Swept limit (t.ticked e) t' fs) :
    Swept limit t t' (e.firing :: fs) := by
  have hkept : ∀ x ∈ t.queue, x ≠ e → x ∈ (t.ticked e).queue := fun x hx hne =>
    (mem_ticked hv he).mpr (.inl ⟨hx, hne⟩)
  constructor
  · intro x hx
    by_cases hxe : x = e
    · rw [hxe]
      exact h.ticks_cons hv he hle
    · have hid : e.id ≠ x.id := fun hid => hxe (hv.eq_of_id hx he hid.symm)
      rw [List.filter_cons_of_neg (by simp [Event.firing, hid])]
      exact h.ticks x (hkept x hx hxe)
  · intro f hf
    obtain rfl | hf := List.mem_cons.mp hf
    · exact ⟨e, he, rfl, rfl⟩
    · obtain ⟨y, hy, hid, hdeliver⟩ := h.only f hf
      obtain ⟨hold, -⟩ | ⟨e', hnext, rfl⟩ := (mem_ticked hv he).mp hy
      · exact ⟨y, hold, hid, hdeliver⟩
      · obtain ⟨hid', -, hdeliver', -⟩ := Event.next?_eq_some hnext
        exact ⟨e, he, hid.trans hid', hdeliver.trans hdeliver'⟩
  · exact List.pairwise_cons.mpr ⟨h.target_le hv he hleast, h.ordered⟩
  · intro x hx
    obtain ⟨y, hy, hleft⟩ := h.left x hx
    obtain ⟨hold, -⟩ | ⟨e', hnext, rfl⟩ := (mem_ticked hv he).mp hy
    · exact ⟨y, hold, hleft⟩
    · exact ⟨e, he, hleft.of_next hle hnext⟩
  · intro x hx hlasts
    by_cases hxe : x = e
    · subst hxe
      obtain ⟨e', hnext, hlasts'⟩ := Event.lasts_of_le hle hlasts
      obtain ⟨y, hy, hleft⟩ := h.lasts _ ((mem_ticked hv he).mpr (.inr ⟨e', hnext, rfl⟩)) hlasts'
      exact ⟨y, hy, hleft.of_next hle hnext⟩
    · exact h.lasts x (hkept x hx hxe) hlasts
  · intro id
    rw [h.waiting, waiting_ticked]
    by_cases hid : e.id = id
    · rw [if_pos hid, List.find?_cons_of_pos (by simp [Event.firing, hid])]
      cases t.waiting[id]? <;> rfl
    · rw [if_neg hid, List.find?_cons_of_neg (by simp [Event.firing, hid])]
  · exact h.now_eq
  · exact h.origin_eq

end Timeline

namespace Site

variable {site : Site σ κ} {call : κ → Act σ Unit} {limit : Instant}

theorem exists_deliver_channel (site : Site σ κ) (call : κ → Act σ Unit) {e : Event (Delivery κ)}
    (hto : e.deliver = .channel) (s : σ) :
    ∃ s', site.deliver call e.firing e.firing.at_ (site.called e s) = (.ok (), s') ∧
      site.timeline s' = (site.timeline s).ticked e := by
  refine ⟨_, by rw [deliver, show e.firing.deliver = .channel from hto], ?_⟩
  rw [site.timeline_update, timeline_called]
  rfl

/-- Firing into channels comes to an end, after as many turns as there are in the backlog. -/
theorem exists_fires_swept (call : κ → Act σ Unit) (n : Nat) {s : σ}
    (hv : (site.timeline s).queue.Valid)
    (hchannel : (site.timeline s).Channelled) (hnow : (site.timeline s).now ≤ limit)
    (hn : (site.timeline s).queue.backlog limit = n) :
    ∃ fs s', Fires site call limit s fs s' ∧
      Timeline.Swept limit (site.timeline s) ((site.timeline s').settle limit) (fs.map (·.1)) := by
  induction n generalizing s with
  | zero =>
    cases hp : (site.timeline s).popDue limit with
    | none => exact ⟨[], s, .done hp, Timeline.swept_settle hv hnow hp⟩
    | some p =>
      obtain ⟨f, t⟩ := p
      obtain ⟨e, -, he, hle, -⟩ := Timeline.popDue_eq_some hv hp
      rw [EventQueue.backlog_popped hv he hle] at hn
      cases hn
  | succ n ih =>
    cases hp : (site.timeline s).popDue limit with
    | none => exact ⟨[], s, .done hp, Timeline.swept_settle hv hnow hp⟩
    | some p =>
      obtain ⟨f, t⟩ := p
      obtain ⟨e, -, he, hle, hleast, rfl, rfl⟩ := Timeline.popDue_eq_some hv hp
      obtain ⟨s₂, hdeliver, hs₂⟩ := exists_deliver_channel site call (hchannel e he) s
      have hbacklog : (site.timeline s₂).queue.backlog limit = n := by
        rw [EventQueue.backlog_popped hv he hle] at hn
        rw [hs₂]
        exact Nat.succ.inj hn
      have hvalid : (site.timeline s₂).queue.Valid := by
        rw [hs₂]
        exact EventQueue.valid_popped hv he
      have hchannel₂ : (site.timeline s₂).Channelled := by
        rw [hs₂]
        exact hchannel.ticked hv he
      have hnow₂ : (site.timeline s₂).now ≤ limit := by
        rw [hs₂]
        exact Timeline.now_ticked_le hnow hle
      obtain ⟨fs, s', hfires, hswept⟩ := ih hvalid hchannel₂ hnow₂ hbacklog
      rw [hs₂] at hswept
      exact ⟨(e.firing, s₂) :: fs, s', .turn hp hdeliver hfires, hswept.cons hv he hle hleast⟩

/-- One-shots for 5 and 20 ns, and a ticker of 3 ns. -/
def waits : List (Move Nat) :=
  [.arm 1 ⟨5⟩ .zero .channel, .arm 2 ⟨3⟩ ⟨3⟩ .channel, .arm 3 ⟨20⟩ .zero .channel]

end Site

end VirtualClock
