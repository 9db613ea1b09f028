import VirtualClock.Proofs.Queue.Events
import VirtualClock.Proofs.Timeline.Account
import VirtualClock.Proofs.Timeline.Crowd

/-! The channel of a timer or ticker that nobody has a handle of. Its senders are in the event that
is pending and in the firings on their way, so a receiver that finds it empty can tell whether a
value is still to come. -/

namespace VirtualClock

open EventQueue (mem_events mem_popped mem_clear remove_eq)

variable {κ : Type}

def Delivery.isChannel : Delivery κ → Bool
  | .channel => true
  | .callback _ => false

/-- What a receiver that does not wait finds in a channel of one place: the value, if there is one,
and else whether one of its senders is left. -/
def Received.find : Option Instant → (senders : Nat) → Received
  | some v, _ => .got v
  | none, 0 => .disconnected
  | none, _ + 1 => .empty

/-- Whether a use arms or stops `id`. -/
def Use.Handles (id : Nat) : Use κ → Prop
  | .reset i .. => i = id
  | .call (.disarm i) => i = id
  | _ => False

def Turn.Handles (id : Nat) : Turn κ → Prop
  | .use u => u.Handles id
  | _ => False

namespace Timeline

variable {t t' : Timeline κ} {id : Nat}

/-- The pending event of `id`. -/
def event? (t : Timeline κ) (id : Nat) : Option (Event (Delivery κ)) := (t.queue.remove id).1

theorem event?_eq_some (h : t.queue.Valid) {e : Event (Delivery κ)} :
    t.event? id = some e ↔ e ∈ t.queue ∧ e.id = id := by
  obtain ⟨x, hx, rfl, hr⟩ | ⟨hne, hr⟩ := remove_eq h id
  · rw [event?, hr, Option.some.injEq]
    constructor
    · rintro rfl
      exact ⟨hx, rfl⟩
    · rintro ⟨he, hid⟩
      exact h.eq_of_id hx he hid.symm
  · rw [event?, hr]
    exact iff_of_false (by simp) fun ⟨he, hid⟩ => hne e he hid

theorem isSome_event? (h : t.queue.Valid) (id : Nat) :
    (t.event? id).isSome = t.queue.isPending id := EventQueue.remove_fst_isSome h id

/-- A receiver has to wait while the channel is empty and its event pending. -/
theorem isReady_eq_false_iff :
    t.isReady id false = false ↔ t.waiting[id]? = none ∧ t.queue.isPending id = true := by
  have hcontains : t.waiting.contains id = (t.waiting[id]?).isSome :=
    Std.TreeMap.contains_eq_isSome_getElem?
  rw [isReady, hcontains]
  cases t.waiting[id]? <;> simp

theorem event?_congr (h : t.queue.Valid) (h' : t'.queue.Valid)
    (hsame : ∀ e, e.id = id → (e ∈ t'.queue ↔ e ∈ t.queue)) : t'.event? id = t.event? id := by
  ext e
  rw [event?_eq_some h', event?_eq_some h]
  exact and_congr_left fun hid => hsame e hid

/-- The next tick of an event takes its place. -/
theorem event?_popped (h : t.queue.Valid) {e : Event (Delivery κ)} (he : e ∈ t.queue) :
    (t.popped e).event? id = if e.id = id then
      e.next?.map (·.withSequence (t.queue.sequence + 1)) else t.event? id := by
  have h' : (t.popped e).queue.Valid := EventQueue.valid_popped h he
  ext x
  rw [event?_eq_some h', show x ∈ (t.popped e).queue ↔ _ from mem_popped h he]
  split
  · rename_i hid
    rw [Option.map_eq_some_iff]
    constructor
    · rintro ⟨⟨hx, hne⟩ | ⟨e', he', rfl⟩, hxid⟩
      · exact absurd (h.eq_of_id hx he (hxid.trans hid.symm)) hne
      · exact ⟨e', he', rfl⟩
    · rintro ⟨e', he', rfl⟩
      exact ⟨.inr ⟨e', he', rfl⟩, (Event.next?_eq_some he').1.trans hid⟩
  · rename_i hid
    rw [event?_eq_some h]
    refine and_congr_left fun hxid => ⟨?_, fun hx => .inl ⟨hx, ?_⟩⟩
    · rintro (⟨hx, -⟩ | ⟨e', he', rfl⟩)
      · exact hx
      · exact absurd ((Event.next?_eq_some he').1.symm.trans hxid) hid
    · rintro rfl
      exact hid hxid

/-- The event of an id that was handed out stays as long as it is neither armed nor stopped. -/
theorem event?_use (h : t.queue.Valid) {u : Use κ} (hu : t.Allows u) (hid : id ≤ t.queue.lastId)
    (hu' : ¬u.Handles id) : (t.use u).event? id = t.event? id := by
  refine event?_congr h (valid_use h u) fun e he => ?_
  cases u with
  | start delay interval deliver =>
    have hne : ¬e.id = t.queue.lastId + 1 := by omega
    refine (mem_move (valid_move h .allocate) _).trans ?_
    rw [mem_move h .allocate]
    simp only [Removes, queued?, allocate, EventQueue.allocate, Option.some.injEq]
    constructor
    · rintro (⟨⟨he, -⟩ | hnone, -⟩ | rfl)
      · exact he
      · cases hnone
      · exact absurd rfl hne
    · exact fun he => .inl ⟨.inl ⟨he, not_false⟩, hne⟩
  | reset i delay interval deliver =>
    have hne : i ≠ e.id := fun heq => hu' (heq.trans he)
    refine (mem_move h _).trans ?_
    simp only [Removes, queued?, Option.some.injEq]
    constructor
    · rintro (⟨he, -⟩ | rfl)
      · exact he
      · exact absurd rfl hne
    · exact fun he => .inl ⟨he, Ne.symm hne⟩
  | call m =>
    refine (mem_move h m).trans ?_
    cases m with
    | disarm i =>
      have hne : ¬e.id = i := fun heq => hu' (heq.symm.trans he)
      simp [Removes, queued?, hne]
    | allocate | receive _ | register _ | cancel _ => simp [Removes, queued?]
    | arm _ _ _ _ | popDue _ | settle _ | discard | send _ _ => cases hu

/-- A value stays in its channel until it is received. -/
theorem waiting_use {u : Use κ} (hu : t.Allows u) (hu' : u ≠ .call (.receive id)) :
    (t.use u).waiting[id]? = t.waiting[id]? := by
  cases u with
  | call m =>
    cases m with
    | receive i =>
      have hne : i ≠ id := fun heq => hu' (by rw [heq])
      rw [use, move, receive]
      cases t.waiting[i]? with
      | none => rfl
      | some v =>
        show (t.waiting.erase i)[id]? = _
        simp [Std.TreeMap.getElem?_erase, hne]
    | register count =>
      rw [use, move, register]
      cases t.queue.register count <;> rfl
    | allocate | disarm _ | cancel _ => rfl
    | arm _ _ _ _ | popDue _ | settle _ | discard | send _ _ => cases hu
  | _ => rfl

theorem waiting_receive (t : Timeline κ) (id : Nat) :
    (t.use (.call (.receive id))).waiting[id]? = none := by
  rw [use, move, receive]
  cases hv : t.waiting[id]? with
  | none => exact hv
  | some v =>
    show (t.waiting.erase id)[id]? = none
    simp

theorem waiting_handOver_of_ne {f : Firing (Delivery κ)} (hid : f.id ≠ id) :
    (Solo.handOver t f).waiting[id]? = t.waiting[id]? := by
  unfold Solo.handOver
  split
  · show (t.waiting.insertIfNew f.id f.at_)[id]? = _
    simp [Std.TreeMap.getElem?_insertIfNew, hid]
  · rfl

/-- A value that is sent is dropped if the channel holds another one. -/
theorem waiting_handOver_channel {f : Firing (Delivery κ)} (hf : f.deliver = .channel) :
    (Solo.handOver t f).waiting[f.id]? = some (t.waiting[f.id]?.getD f.at_) := by
  unfold Solo.handOver
  rw [hf]
  show (t.waiting.insertIfNew f.id f.at_)[f.id]? = _
  rw [Std.TreeMap.getElem?_insertIfNew]
  cases hv : t.waiting[f.id]? with
  | none =>
    have hmem : f.id ∉ t.waiting := by simpa using hv
    simp [hmem]
  | some v =>
    have hmem : f.id ∈ t.waiting := Std.TreeMap.mem_iff_isSome_getElem?.mpr (by simp [hv])
    simp [hmem]

end Timeline

namespace Crowd

variable {c : Crowd κ} {id : Nat} {x : Turn κ}

/-- Every id in use was handed out. -/
structure Tended (c : Crowd κ) : Prop where
  timeline : c.timeline.Tended
  slot_le : ∀ id v, c.timeline.waiting[id]? = some v → id ≤ c.timeline.queue.lastId
  flying_le : ∀ f ∈ c.flying, f.id ≤ c.timeline.queue.lastId

theorem tended_start (at_ : Reading) : (start at_ : Crowd κ).Tended where
  timeline := Timeline.tended_start at_
  slot_le id v hv := by
    have hnone : (start at_ : Crowd κ).timeline.waiting[id]? = none := Std.TreeMap.getElem?_emptyc
    rw [hnone] at hv
    cases hv
  flying_le f hf := by cases hf

theorem Steps.tended {c' : Crowd κ} (hs : Steps c x c') (h : c.Tended) : c'.Tended := by
  cases hs with
  | idle x hfired huse hdiscard => exact h
  | @use u hu =>
    have hle := Timeline.lastId_le_use h.timeline.valid u
    refine ⟨h.timeline.use hu, fun id v hv => ?_, fun f hf => Nat.le_trans (h.flying_le f hf) hle⟩
    by_cases hreceive : u = .call (.receive id)
    · subst hreceive
      rw [show (_ : Option Instant) = none from Timeline.waiting_receive _ id] at hv
      cases hv
    · have hsame := Timeline.waiting_use hu hreceive
      exact Nat.le_trans (h.slot_le id v (hsame.symm.trans hv)) hle
  | advance d =>
    refine ⟨h.timeline, h.slot_le, fun f hf => h.flying_le f ?_⟩
    simpa [flying, Underway.firing?] using hf
  | @pop i limit f t hi hp =>
    have hmove : c.timeline.move (.popDue limit) = t := by rw [Timeline.move, hp]; rfl
    have ht : t.Tended := hmove ▸ h.timeline.move (by simp)
    have hle := Timeline.lastId_le_popDue h.timeline.valid hp
    obtain ⟨e, -, hmem, -, -, rfl, rfl⟩ := Timeline.popDue_eq_some h.timeline.valid hp
    refine ⟨ht, fun id v hv => Nat.le_trans (h.slot_le id v hv) hle, fun g hg => ?_⟩
    have hperm := flying_set hi (c.timeline.popped e) ⟨limit, .delivering e.firing⟩
    obtain rfl | hg := List.mem_cons.mp (hperm.symm.subset hg)
    · exact Nat.le_trans (h.timeline.id_le e hmem) hle
    · exact Nat.le_trans (h.flying_le g hg) hle
  | @rest i limit hi hp =>
    refine ⟨h.timeline, h.slot_le, fun f hf => h.flying_le f ?_⟩
    exact (flying_set hi c.timeline ⟨limit, .settling⟩).symm.subset hf
  | @deliver i limit f hi =>
    have hperm := flying_set hi (Solo.handOver c.timeline f) ⟨limit, .looking⟩
    have hf : f ∈ c.flying := hperm.symm.subset List.mem_cons_self
    have hqueue : (Solo.handOver c.timeline f).queue = c.timeline.queue :=
      Timeline.queue_handOver c.timeline f
    refine ⟨⟨?_, ?_⟩, fun id v hv => ?_, fun g hg => ?_⟩ <;> simp only [hqueue]
    · exact h.timeline.valid
    · exact h.timeline.id_le
    · by_cases hid : f.id = id
      · exact hid ▸ h.flying_le f hf
      · exact h.slot_le id v ((Timeline.waiting_handOver_of_ne hid).symm.trans hv)
    · exact h.flying_le g (hperm.symm.subset (List.mem_cons_of_mem f hg))
  | @leave i limit f k hi hk =>
    refine ⟨h.timeline, h.slot_le, fun g hg => h.flying_le g ?_⟩
    exact (flying_eraseIdx hi c.timeline).symm.subset (List.mem_cons_of_mem f hg)
  | @settle i limit hi =>
    refine ⟨⟨h.timeline.valid, h.timeline.id_le⟩, h.slot_le, fun g hg => h.flying_le g ?_⟩
    exact (flying_eraseIdx hi (c.timeline.settle limit)).symm.subset hg
  | discard =>
    refine ⟨⟨EventQueue.valid_clear _, fun e he => ?_⟩, h.slot_le, h.flying_le⟩
    exact absurd he mem_clear

theorem Tended.turns (h : c.Tended) (xs : List (Turn κ)) : (c.turns xs).Tended := by
  induction xs generalizing c with
  | nil => exact h
  | cons x xs ih => exact ih ((steps_turn c x).tended h)

/-! ### What a turn means to a channel -/

/-- The firings of `id` that were taken off the queue and have not been delivered. -/
def carried (c : Crowd κ) (id : Nat) : List (Firing (Delivery κ)) :=
  c.flying.filter (·.id = id)

/-- The instant for which a turn takes the event of `id` off the queue. -/
def firedAt? (c : Crowd κ) (id : Nat) (x : Turn κ) : Option Instant :=
  ((c.fired? x).filter (·.id = id)).map (·.at_)

/-- The value that a turn takes out of the channel of `id`. -/
def received? (c : Crowd κ) (id : Nat) : Turn κ → Option Instant
  | .use (.call (.receive i)) => if i = id then c.timeline.waiting[i]? else none
  | _ => none

/-- A turn that takes no event of `id` off the queue, nor a value out of its channel. -/
structure Silent (c : Crowd κ) (id : Nat) (x : Turn κ) : Prop where
  fired : c.firedAt? id x = none
  received : c.received? id x = none
  ne_discard : x ≠ .discard

/-- What a turn that leads to `c'` means to the channel of `id`. -/
inductive Concerns (c : Crowd κ) (id : Nat) (x : Turn κ) (c' : Crowd κ) : Prop where
  | nothing (hx : c.Silent id x) (hevent : c'.timeline.event? id = c.timeline.event? id)
      (hslot : c'.timeline.waiting[id]? = c.timeline.waiting[id]?)
      (hcarried : (c.carried id).Perm (c'.carried id))
  | fires (e : Event (Delivery κ)) (hfired : c.firedAt? id x = some e.target)
      (hreceived : c.received? id x = none) (hx : x ≠ .discard)
      (hold : c.timeline.event? id = some e)
      (hevent : c'.timeline.event? id =
        e.next?.map (·.withSequence (c.timeline.queue.sequence + 1)))
      (hslot : c'.timeline.waiting[id]? = c.timeline.waiting[id]?)
      (hcarried : (e.firing :: c.carried id).Perm (c'.carried id))
  | arrives (f : Firing (Delivery κ)) (hf : f.deliver = .channel) (hx : c.Silent id x)
      (hevent : c'.timeline.event? id = c.timeline.event? id)
      (hslot : c'.timeline.waiting[id]? = some (c.timeline.waiting[id]?.getD f.at_))
      (hcarried : (c.carried id).Perm (f :: c'.carried id))
  /-- A callback returns or panics. -/
  | returns (f : Firing (Delivery κ)) (k : κ) (hf : f.deliver = .callback k) (hx : c.Silent id x)
      (hevent : c'.timeline.event? id = c.timeline.event? id)
      (hslot : c'.timeline.waiting[id]? = c.timeline.waiting[id]?)
      (hcarried : (c.carried id).Perm (f :: c'.carried id))
  | receives (v : Instant) (hfired : c.firedAt? id x = none)
      (hreceived : c.received? id x = some v) (hx : x ≠ .discard)
      (hevent : c'.timeline.event? id = c.timeline.event? id)
      (hold : c.timeline.waiting[id]? = some v) (hslot : c'.timeline.waiting[id]? = none)
      (hcarried : (c.carried id).Perm (c'.carried id))
  | drops (hx : x = .discard) (hevent : c'.timeline.event? id = none)
      (hslot : c'.timeline.waiting[id]? = c.timeline.waiting[id]?)
      (hcarried : (c.carried id).Perm (c'.carried id))

theorem silent_of_not_use (hfired : c.fired? x = none) (huse : ∀ u, x ≠ .use u)
    (hdiscard : x ≠ .discard) : c.Silent id x where
  fired := by rw [firedAt?, hfired]; rfl
  received := by
    cases x with
    | use u => exact absurd rfl (huse u)
    | _ => rfl
  ne_discard := hdiscard

theorem silent_use {u : Use κ} (hu : u ≠ .call (.receive id)) : c.Silent id (.use u) where
  fired := rfl
  received := by
    cases u with
    | call m =>
      cases m with
      | receive i => exact if_neg fun heq => hu (by rw [heq])
      | _ => rfl
    | _ => rfl
  ne_discard := by simp

theorem concerns_use {u : Use κ} (h : c.timeline.queue.Valid) (hu : c.timeline.Allows u)
    (hid : id ≤ c.timeline.queue.lastId) (hu' : ¬u.Handles id) :
    Concerns c id (.use u) { c with timeline := c.timeline.use u } := by
  have hevent := Timeline.event?_use h hu hid hu'
  by_cases hreceive : u = .call (.receive id)
  · subst hreceive
    have hreceived : c.received? id (.use (.call (.receive id))) = c.timeline.waiting[id]? :=
      if_pos rfl
    have hslot := Timeline.waiting_receive c.timeline id
    cases hv : c.timeline.waiting[id]? with
    | none =>
      exact .nothing ⟨rfl, hreceived.trans hv, by simp⟩ hevent (hslot.trans hv.symm) (.refl _)
    | some v => exact .receives v rfl (hreceived.trans hv) (by simp) hevent hv hslot (.refl _)
  · exact .nothing (silent_use hreceive) hevent (Timeline.waiting_use hu hreceive) (.refl _)

theorem concerns_pop (h : c.timeline.queue.Valid) {i : Nat} {limit : Instant}
    {f : Firing (Delivery κ)} {t : Timeline κ} (hi : c.advances[i]? = some ⟨limit, .looking⟩)
    (hp : c.timeline.popDue limit = some (f, t)) :
    Concerns c id (.look i) ⟨t, c.advances.set i ⟨limit, .delivering f⟩⟩ := by
  have hfired : c.fired? (.look i) = some f := by simp only [fired?, hi, hp]; rfl
  have hperm := (flying_set hi t ⟨limit, .delivering f⟩).filter (·.id = id)
  obtain ⟨e, -, hmem, -, -, rfl, rfl⟩ := Timeline.popDue_eq_some h hp
  have hevent : (c.timeline.popped e).event? id = _ := Timeline.event?_popped h hmem
  by_cases hid : e.id = id
  · refine .fires e ?_ rfl (by simp) ((Timeline.event?_eq_some h).mpr ⟨hmem, hid⟩)
      (hevent.trans (if_pos hid)) rfl ?_
    · rw [firedAt?, hfired]
      simp [Event.firing, hid]
    · simpa [Underway.firing?, Event.firing, hid, carried] using hperm
  · refine .nothing ⟨?_, rfl, by simp⟩ (hevent.trans (if_neg hid)) rfl ?_
    · rw [firedAt?, hfired]
      simp [Event.firing, hid]
    · simpa [Underway.firing?, Event.firing, hid, carried] using hperm

theorem concerns_deliver {i : Nat} {limit : Instant} {f : Firing (Delivery κ)}
    (hi : c.advances[i]? = some ⟨limit, .delivering f⟩) :
    Concerns c id (.deliver i)
      ⟨Solo.handOver c.timeline f, c.advances.set i ⟨limit, .looking⟩⟩ := by
  have hx : c.Silent id (.deliver i) := silent_of_not_use rfl (by simp) (by simp)
  have hperm := (flying_set hi (Solo.handOver c.timeline f) ⟨limit, .looking⟩).filter (·.id = id)
  have hevent : (Solo.handOver c.timeline f).event? id = c.timeline.event? id := by
    rw [Timeline.event?, Timeline.queue_handOver, Timeline.event?]
  by_cases hid : f.id = id
  · have hcarried : (c.carried id).Perm
        (f :: carried ⟨Solo.handOver c.timeline f, c.advances.set i ⟨limit, .looking⟩⟩ id) := by
      simpa [Underway.firing?, hid, carried] using hperm
    subst hid
    cases hf : f.deliver with
    | channel => exact .arrives f hf hx hevent (Timeline.waiting_handOver_channel hf) hcarried
    | callback k =>
      refine .returns f k hf hx hevent ?_ hcarried
      rw [Solo.handOver, hf]
  · refine .nothing hx hevent (Timeline.waiting_handOver_of_ne hid) ?_
    simpa [Underway.firing?, hid, carried] using hperm

theorem Steps.concerns {c' : Crowd κ} (hs : Steps c x c') (h : c.timeline.queue.Valid)
    (hid : id ≤ c.timeline.queue.lastId) (hx : ¬x.Handles id) : Concerns c id x c' := by
  cases hs with
  | idle x hfired huse hdiscard =>
    refine .nothing ?_ rfl rfl (.refl _)
    cases x with
    | use u =>
      refine silent_use fun hu => huse u rfl ?_
      rw [hu]
      rfl
    | _ => exact silent_of_not_use hfired (by simp) hdiscard
  | use hu => exact concerns_use h hu hid hx
  | advance d =>
    refine .nothing (silent_of_not_use rfl (by simp) (by simp)) rfl rfl ?_
    simp [carried, flying, Underway.firing?]
  | pop hi hp => exact concerns_pop h hi hp
  | @rest i limit hi hp =>
    have hperm := (flying_set hi c.timeline ⟨limit, .settling⟩).filter (·.id = id)
    refine .nothing (silent_of_not_use ?_ (by simp) (by simp)) rfl rfl hperm
    simp only [fired?, hi, hp]
    rfl
  | deliver hi => exact concerns_deliver hi
  | @leave i limit f k hi hk =>
    have hx : c.Silent id (.leave i) := silent_of_not_use rfl (by simp) (by simp)
    have hperm := (flying_eraseIdx hi c.timeline).filter (·.id = id)
    by_cases hid : f.id = id
    · exact .returns f k hk hx rfl rfl (by simpa [Underway.firing?, hid, carried] using hperm)
    · exact .nothing hx rfl rfl (by simpa [Underway.firing?, hid, carried] using hperm)
  | @settle i limit hi =>
    have hperm := (flying_eraseIdx hi (c.timeline.settle limit)).filter (·.id = id)
    exact .nothing (silent_of_not_use rfl (by simp) (by simp)) rfl rfl hperm
  | discard =>
    refine .drops rfl ?_ rfl (.refl _)
    have hvalid : (c.timeline.discard.2).queue.Valid := EventQueue.valid_clear _
    ext e
    rw [Timeline.event?_eq_some hvalid]
    exact iff_of_false (fun he => mem_clear he.1) (by simp)

theorem Steps.lastId_le {c' : Crowd κ} (hs : Steps c x c') (h : c.timeline.queue.Valid) :
    c.timeline.queue.lastId ≤ c'.timeline.queue.lastId := by
  cases hs with
  | use hu => exact Timeline.lastId_le_use h _
  | pop hi hp => exact Timeline.lastId_le_popDue h hp
  | @deliver i limit f hi => exact Nat.le_of_eq (Timeline.lastId_handOver c.timeline f).symm
  | _ => exact Nat.le_refl _

/-- The instants for which some turns take the event of `id` off the queue, in order. -/
def firings (c : Crowd κ) (id : Nat) : List (Turn κ) → List Instant
  | [] => []
  | x :: xs => (c.firedAt? id x).toList ++ (c.turn x).firings id xs

/-- The values that some turns take out of the channel of `id`, in order. -/
def receipts (c : Crowd κ) (id : Nat) : List (Turn κ) → List Instant
  | [] => []
  | x :: xs => (c.received? id x).toList ++ (c.turn x).receipts id xs

/-! ### Channels that nobody uses yet -/

/-- A channel that was handed out and is not in use. -/
structure Unused (c : Crowd κ) (id : Nat) : Prop where
  id_le : id ≤ c.timeline.queue.lastId
  event : c.timeline.event? id = none
  slot : c.timeline.waiting[id]? = none
  carried : c.carried id = []

theorem Tended.unused (h : c.Tended) :
    (c.turn (.use (.call .allocate))).Unused c.timeline.allocate.1 where
  id_le := Nat.le_refl _
  event := by
    have h' := h.timeline.move (m := .allocate) (by simp)
    rw [Option.eq_none_iff_forall_not_mem]
    intro e he
    obtain ⟨hmem, hid⟩ := (Timeline.event?_eq_some h'.valid).mp he
    have hle := h.timeline.id_le e hmem
    rw [hid] at hle
    exact Nat.not_succ_le_self _ hle
  slot := by
    rw [Option.eq_none_iff_forall_not_mem]
    intro v hv
    exact Nat.not_succ_le_self _ (h.slot_le _ v hv)
  carried := by
    refine List.filter_eq_nil_iff.mpr fun f hf => ?_
    have hle := h.flying_le f hf
    simp only [decide_eq_true_eq]
    rintro hid
    rw [hid] at hle
    exact Nat.not_succ_le_self _ hle

theorem Unused.turn (hu : c.Unused id) (h : c.timeline.queue.Valid) (hx : ¬x.Handles id) :
    (c.turn x).Unused id := by
  have hs := steps_turn c x
  have hle := Nat.le_trans hu.id_le (hs.lastId_le h)
  have hnone (f : Firing (Delivery κ)) (l : List (Firing (Delivery κ))) :
      ¬(c.carried id).Perm (f :: l) := by
    rw [hu.carried]
    exact List.not_perm_nil_cons f l
  cases hs.concerns h hu.id_le hx with
  | nothing hx hevent hslot hcarried =>
    rw [hu.carried] at hcarried
    exact ⟨hle, hevent.trans hu.event, hslot.trans hu.slot, hcarried.symm.eq_nil⟩
  | fires e hfired hreceived hx hold hevent hslot hcarried =>
    rw [hu.event] at hold
    cases hold
  | arrives f hf hx hevent hslot hcarried => exact absurd hcarried (hnone f _)
  | returns f k hf hx hevent hslot hcarried => exact absurd hcarried (hnone f _)
  | receives v hfired hreceived hx hevent hold hslot hcarried =>
    rw [hu.slot] at hold
    cases hold
  | drops hx hevent hslot hcarried =>
    rw [hu.carried] at hcarried
    exact ⟨hle, hevent, hslot.trans hu.slot, hcarried.symm.eq_nil⟩

theorem Unused.turns (hu : c.Unused id) (h : c.timeline.queue.Valid) {xs : List (Turn κ)}
    (hxs : ∀ x ∈ xs, ¬x.Handles id) : (c.turns xs).Unused id := by
  induction xs generalizing c with
  | nil => exact hu
  | cons x xs ih =>
    rw [List.forall_mem_cons] at hxs
    exact ih (hu.turn h hxs.1) ((steps_turn c x).valid h) hxs.2

/-! ### What holds of a channel while its event is pending and after that -/

/-- A channel whose event has `interval`. Since it was armed it was taken off the queue for the
instants `fired`, and the timeline was discarded if `dropped`. -/
structure Connected (c : Crowd κ) (id : Nat) (interval : Delay) (fired : List Instant)
    (dropped : Prop) : Prop where
  id_le : id ≤ c.timeline.queue.lastId
  event : ∀ e, c.timeline.event? id = some e → e.interval = interval ∧ e.deliver = .channel
  carried : ∀ f ∈ c.carried id, f.deliver = .channel
  gone_iff : c.timeline.event? id = none ↔
    dropped ∨ ∃ at_ ∈ fired, Sight.recurs interval at_ = false

theorem Connected.turn {interval : Delay} {fired : List Instant} {dropped : Prop}
    (hc : c.Connected id interval fired dropped) (h : c.timeline.queue.Valid)
    (hx : ¬x.Handles id) :
    (c.turn x).Connected id interval (fired ++ (c.firedAt? id x).toList)
      (dropped ∨ x = .discard) := by
  have hs := steps_turn c x
  have hle := Nat.le_trans hc.id_le (hs.lastId_le h)
  have hsame (hfired : c.firedAt? id x = none) (hx : x ≠ .discard)
      (hevent : (c.turn x).timeline.event? id = c.timeline.event? id)
      (hcarried : (c.turn x).carried id ⊆ c.carried id) :
      (c.turn x).Connected id interval (fired ++ (c.firedAt? id x).toList)
        (dropped ∨ x = .discard) := by
    refine ⟨hle, hevent ▸ hc.event, fun f hf => hc.carried f (hcarried hf), ?_⟩
    rw [hevent, hc.gone_iff, hfired]
    simp [hx]
  cases hs.concerns h hc.id_le hx with
  | nothing hx hevent hslot hcarried =>
    exact hsame hx.fired hx.ne_discard hevent hcarried.symm.subset
  | fires e hfired hreceived hx hold hevent hslot hcarried =>
    obtain ⟨hinterval, hdeliver⟩ := hc.event e hold
    have hopen : ¬(dropped ∨ ∃ at_ ∈ fired, Sight.recurs interval at_ = false) := by
      rw [← hc.gone_iff, hold]
      simp
    refine ⟨hle, fun e' he' => ?_, fun f hf => ?_, ?_⟩
    · rw [hevent, Option.map_eq_some_iff] at he'
      obtain ⟨e'', hnext, rfl⟩ := he'
      obtain ⟨-, hinterval', hdeliver', -⟩ := Event.next?_eq_some hnext
      exact ⟨hinterval'.trans hinterval, hdeliver'.trans hdeliver⟩
    · obtain rfl | hf := List.mem_cons.mp (hcarried.symm.subset hf)
      · exact hdeliver
      · exact hc.carried f hf
    · have hlast := Timeline.isSome_next? e
      rw [hinterval] at hlast
      rw [hevent, Option.map_eq_none_iff, hfired, ← Option.not_isSome_iff_eq_none, hlast]
      rw [not_or] at hopen
      simp [hopen.1, hx, or_and_right, exists_or, hopen.2]
  | arrives f hf hx hevent hslot hcarried =>
    refine hsame hx.fired hx.ne_discard hevent ?_
    exact fun g hg => hcarried.symm.subset (List.mem_cons_of_mem f hg)
  | returns f k hf hx hevent hslot hcarried =>
    refine hsame hx.fired hx.ne_discard hevent ?_
    exact fun g hg => hcarried.symm.subset (List.mem_cons_of_mem f hg)
  | receives v hfired hreceived hx hevent hold hslot hcarried =>
    exact hsame hfired hx hevent hcarried.symm.subset
  | drops hx hevent hslot hcarried =>
    refine ⟨hle, fun e he => ?_, fun f hf => hc.carried f (hcarried.symm.subset hf), ?_⟩
    · rw [hevent] at he
      cases he
    · exact iff_of_true hevent (.inl (.inr hx))

theorem Connected.turns {interval : Delay} {fired : List Instant} {dropped : Prop}
    (hc : c.Connected id interval fired dropped) (h : c.timeline.queue.Valid)
    {xs : List (Turn κ)} (hxs : ∀ x ∈ xs, ¬x.Handles id) :
    (c.turns xs).Connected id interval (fired ++ c.firings id xs) (dropped ∨ .discard ∈ xs) := by
  induction xs generalizing c fired dropped with
  | nil => simpa [firings] using hc
  | cons x xs ih =>
    rw [List.forall_mem_cons] at hxs
    have hrest := ih (hc.turn h hxs.1) ((steps_turn c x).valid h) hxs.2
    rw [List.append_assoc, or_assoc] at hrest
    rw [List.mem_cons, eq_comm (a := Turn.discard)]
    exact hrest

/-- The channel of a one-shot that was armed to fire at `due`, and was taken off the queue for the
instants `fired`: at most one, which is on its way, in the channel, or was received. -/
structure Promised (c : Crowd κ) (id : Nat) (due : Instant) (fired received : List Instant) :
    Prop where
  event : ∀ e, c.timeline.event? id = some e → e.target = due ∧ fired = []
  fired_eq : fired = [] ∨ fired = [due]
  account : (received ++ (c.timeline.waiting[id]?).toList ++ (c.carried id).map (·.at_)).Perm fired

theorem Promised.turn {due : Instant} {fired received : List Instant} {dropped : Prop}
    (hp : c.Promised id due fired received) (hc : c.Connected id .zero fired dropped)
    (h : c.timeline.queue.Valid) (hx : ¬x.Handles id) :
    (c.turn x).Promised id due (fired ++ (c.firedAt? id x).toList)
      (received ++ (c.received? id x).toList) := by
  have haccount := hp.account
  cases (steps_turn c x).concerns h hc.id_le hx with
  | nothing hx hevent hslot hcarried =>
    rw [hx.fired, hx.received, Option.toList_none, List.append_nil, List.append_nil]
    refine ⟨hevent ▸ hp.event, hp.fired_eq, ?_⟩
    rw [hslot]
    exact ((hcarried.symm.map _).append_left _).trans haccount
  | fires e hfired hreceived hx hold hevent hslot hcarried =>
    obtain ⟨htarget, rfl⟩ := hp.event e hold
    have hnext : e.next? = none := Event.next?_eq_none (hc.event e hold).1
    obtain ⟨rfl, hempty, hnone⟩ : received = [] ∧ c.timeline.waiting[id]? = none ∧
        c.carried id = [] := by simpa using haccount.eq_nil
    rw [hnone] at hcarried
    rw [hfired, hreceived, htarget]
    refine ⟨fun e' he' => ?_, .inr rfl, ?_⟩
    · rw [hevent, hnext] at he'
      cases he'
    · rw [hslot, hempty, ← htarget]
      exact hcarried.symm.map _
  | arrives f hf hx hevent hslot hcarried =>
    rw [hx.fired, hx.received, Option.toList_none, List.append_nil, List.append_nil]
    refine ⟨hevent ▸ hp.event, hp.fired_eq, ?_⟩
    -- The firing is the only one, so nothing is in the channel yet.
    have hone : (f.at_ :: (received ++ (c.timeline.waiting[id]?).toList ++
        ((c.turn x).carried id).map (·.at_))).Perm fired :=
      (List.perm_middle.symm.trans ((hcarried.symm.map _).append_left _)).trans haccount
    obtain rfl | rfl := hp.fired_eq
    · exact absurd hone.symm (List.not_perm_nil_cons _ _)
    · obtain ⟨hat, rfl, hempty, hnone⟩ : f.at_ = due ∧ received = [] ∧
          c.timeline.waiting[id]? = none ∧ (c.turn x).carried id = [] := by simpa using hone
      rw [hslot, hempty, hnone, ← hat]
      exact .refl _
  | returns f k hf hx hevent hslot hcarried =>
    have hchannel := hc.carried f (hcarried.symm.subset List.mem_cons_self)
    rw [hf] at hchannel
    cases hchannel
  | receives v hfired hreceived hx hevent hold hslot hcarried =>
    rw [hfired, hreceived, Option.toList_none, List.append_nil]
    refine ⟨hevent ▸ hp.event, hp.fired_eq, ?_⟩
    rw [hold] at haccount
    rw [hslot, Option.toList_none, List.append_nil]
    exact ((hcarried.symm.map _).append_left _).trans haccount
  | drops hx hevent hslot hcarried =>
    subst hx
    refine ⟨fun e he => ?_, ?_, ?_⟩
    · rw [hevent] at he
      cases he
    · simpa [firedAt?, fired?] using hp.fired_eq
    · rw [hslot]
      simpa [firedAt?, fired?, received?] using
        ((hcarried.symm.map _).append_left _).trans haccount

theorem Promised.turns {due : Instant} {fired received : List Instant} {dropped : Prop}
    (hp : c.Promised id due fired received) (hc : c.Connected id .zero fired dropped)
    (h : c.timeline.queue.Valid) {xs : List (Turn κ)} (hxs : ∀ x ∈ xs, ¬x.Handles id) :
    (c.turns xs).Promised id due (fired ++ c.firings id xs) (received ++ c.receipts id xs) := by
  induction xs generalizing c fired received dropped with
  | nil => simpa [firings, receipts] using hp
  | cons x xs ih =>
    rw [List.forall_mem_cons] at hxs
    have hrest := ih (hp.turn hc h hxs.1) (hc.turn h hxs.1) ((steps_turn c x).valid h) hxs.2
    rw [List.append_assoc, List.append_assoc] at hrest
    exact hrest

/-! ### What a receiver finds -/

/-- The number of senders into the channel of `id`: its pending event has one, and so has every
firing on its way. -/
def senders (c : Crowd κ) (id : Nat) : Nat :=
  c.timeline.queue.events.countP (fun e => e.id = id && e.deliver.isChannel) +
    c.flying.countP (fun f => f.id = id && f.deliver.isChannel)

/-- What a receiver that does not wait finds in the channel of `id`. -/
def found (c : Crowd κ) (id : Nat) : Received := .find c.timeline.waiting[id]? (c.senders id)

theorem Connected.countP_events {interval : Delay} {fired : List Instant} {dropped : Prop}
    (hc : c.Connected id interval fired dropped) (h : c.timeline.queue.Valid) :
    c.timeline.queue.events.countP (fun e => e.id = id && e.deliver.isChannel) =
      (c.timeline.queue.isPending id).toNat := by
  have hmem (e : Event (Delivery κ)) : e ∈ c.timeline.queue.events.filter
      (fun e => e.id = id && e.deliver.isChannel) ↔ c.timeline.event? id = some e := by
    rw [List.mem_filter, mem_events h, Timeline.event?_eq_some h, Bool.and_eq_true,
      decide_eq_true_eq, ← and_assoc, ← Timeline.event?_eq_some h]
    refine and_iff_left_of_imp fun he => ?_
    rw [(hc.event e he).2]
    rfl
  have hnodup := (EventQueue.inOrder_events h).nodup.filter
    (fun e => e.id = id && e.deliver.isChannel)
  have hone : (c.timeline.event? id).toList.Nodup := by cases c.timeline.event? id <;> simp
  have hperm := (List.perm_ext_iff_of_nodup hnodup hone).mpr fun e => by
    rw [hmem, Option.mem_toList]
  rw [List.countP_eq_length_filter, hperm.length_eq, ← Timeline.isSome_event? h]
  cases c.timeline.event? id <;> rfl

theorem Connected.countP_flying {interval : Delay} {fired : List Instant} {dropped : Prop}
    (hc : c.Connected id interval fired dropped) :
    c.flying.countP (fun f => f.id = id && f.deliver.isChannel) = (c.carried id).length := by
  refine .trans (List.countP_congr fun f hf => ?_) List.countP_eq_length_filter
  rw [Bool.and_eq_true, decide_eq_true_eq]
  refine and_iff_left_of_imp fun hid => ?_
  rw [hc.carried f (List.mem_filter.mpr ⟨hf, by simpa using hid⟩)]
  rfl

theorem Connected.senders_eq {interval : Delay} {fired : List Instant} {dropped : Prop}
    (hc : c.Connected id interval fired dropped) (h : c.timeline.queue.Valid) :
    c.senders id = (c.timeline.queue.isPending id).toNat + (c.carried id).length := by
  rw [senders, hc.countP_events h, hc.countP_flying]

/-- What a receiver finds in the channel `id`, which has no handle. -/
structure Told (c : Crowd κ) (id : Nat) : Prop where
  senders_eq : c.senders id = (c.timeline.queue.isPending id).toNat + (c.carried id).length
  got_iff : ∀ v, c.found id = .got v ↔ c.timeline.waiting[id]? = some v
  /-- With no firing on its way, the sender in the queue is the only one. -/
  empty_iff : c.carried id = [] →
    (c.found id = .empty ↔ c.timeline.waiting[id]? = none ∧ c.timeline.queue.isPending id = true)
  disconnected_iff : c.carried id = [] →
    (c.found id = .disconnected ↔
      c.timeline.waiting[id]? = none ∧ c.timeline.queue.isPending id = false)
  /-- The channel of a firing on its way stays connected. -/
  empty_of_carried : c.carried id ≠ [] → c.timeline.waiting[id]? = none → c.found id = .empty
  tryReceive_eq : (c.timeline.tryReceive id !(c.carried id).isEmpty).1 = c.found id

theorem told_of_senders (h : c.senders id =
    (c.timeline.queue.isPending id).toNat + (c.carried id).length) : c.Told id where
  senders_eq := h
  got_iff v := by
    rw [found]
    cases c.timeline.waiting[id]? with
    | some v' => simp [Received.find]
    | none => cases c.senders id <;> simp [Received.find]
  empty_iff hnone := by
    rw [found, h, hnone]
    cases c.timeline.waiting[id]? <;> cases c.timeline.queue.isPending id <;> simp [Received.find]
  disconnected_iff hnone := by
    rw [found, h, hnone]
    cases c.timeline.waiting[id]? <;> cases c.timeline.queue.isPending id <;> simp [Received.find]
  empty_of_carried hsome hslot := by
    rw [found, h, hslot]
    cases hcarried : c.carried id with
    | nil => exact absurd hcarried hsome
    | cons f l => rfl
  tryReceive_eq := by
    rw [found, h, Timeline.tryReceive, Timeline.receive]
    cases c.timeline.waiting[id]? with
    | some v => rfl
    | none => cases c.timeline.queue.isPending id <;> cases c.carried id <;> simp [Received.find]

/-! ### Channels that are handed out -/

/-- The state in which the next id was handed out, and others took the turns `between`. -/
def allocated (c : Crowd κ) (between : List (Turn κ)) : Crowd κ :=
  (c.turn (.use (.call .allocate))).turns between

/-- The state in which a channel was handed out: an id was allocated, others took the turns
`between`, and it was armed. -/
def opened (c : Crowd κ) (between : List (Turn κ)) (d interval : Delay) : Crowd κ :=
  (c.allocated between).turn (.use (.reset c.timeline.allocate.1 d interval .channel))

/-- A new timer is a channel that is handed out with nothing between. -/
theorem startTimer_eq_opened (c : Crowd κ) (d : Delay) :
    c.timeline.startTimer d .channel = (c.timeline.allocate.1, (c.opened [] d .zero).timeline) := by
  have hid : (c.allocated []).timeline.Allows (.reset c.timeline.allocate.1 d .zero .channel) :=
    Nat.le_refl _
  rw [Timeline.startTimer_eq, opened, turn_use hid]
  rfl

theorem startTicker_eq_opened (c : Crowd κ) {d : Delay} (hd : 0 < d.nanos) :
    c.timeline.startTicker d =
      .ok (c.timeline.allocate.1, (c.opened [] d d).timeline) := by
  have hid : (c.allocated []).timeline.Allows (.reset c.timeline.allocate.1 d d .channel) :=
    Nat.le_refl _
  rw [Timeline.startTicker_eq_ok, opened, turn_use hid]
  exact ⟨hd, rfl, rfl⟩

theorem Unused.armed (hu : c.Unused id) (h : c.timeline.queue.Valid) (d interval : Delay) :
    (c.turn (.use (.reset id d interval .channel))).Connected id interval [] False ∧
      (c.turn (.use (.reset id d interval .channel))).Promised id
        (c.timeline.now.deadline d.clamp) [] [] := by
  have hvalid := Timeline.valid_move h (.arm id d interval .channel)
  have hevent : (c.timeline.move (.arm id d interval .channel)).event? id = some
      ⟨id, c.timeline.now.deadline d.clamp, c.timeline.queue.sequence + 1, interval, .channel⟩ :=
    (Timeline.event?_eq_some hvalid).mpr ⟨(Timeline.mem_move h _).mpr (.inr rfl), rfl⟩
  let c' : Crowd κ := { c with timeline := c.timeline.move (.arm id d interval .channel) }
  have hcarried : c'.carried id = [] := hu.carried
  have hslot : c'.timeline.waiting[id]? = none := hu.slot
  have hturn : c.turn (.use (.reset id d interval .channel)) = c' :=
    turn_use (show _ ≤ _ from hu.id_le)
  rw [hturn]
  refine ⟨⟨?_, fun e he => ?_, fun f hf => ?_, ?_⟩, fun e he => ?_, .inl rfl, ?_⟩
  · exact Nat.le_trans hu.id_le (Timeline.lastId_le_move h _)
  · cases hevent.symm.trans he
    exact ⟨rfl, rfl⟩
  · rw [hcarried] at hf
    cases hf
  · rw [show c'.timeline.event? id = _ from hevent]
    simp
  · cases hevent.symm.trans he
    exact ⟨rfl, rfl⟩
  · rw [hcarried, hslot]
    exact .refl _

/-- The channel `id` of a one-shot that fires at `due`, when the turns `xs` were taken since it was
armed in `c`. -/
structure Once (c : Crowd κ) (id : Nat) (due : Instant) (xs : List (Turn κ)) : Prop extends
    Told (c.turns xs) id where
  gone_iff : (c.turns xs).timeline.queue.isPending id = false ↔
    .discard ∈ xs ∨ c.firings id xs ≠ []
  firings_eq : c.firings id xs = [] ∨ c.firings id xs = [due]
  /-- What fired was received, or is in the channel, or is on its way. -/
  account : c.receipts id xs ++ ((c.turns xs).timeline.waiting[id]?).toList ++
    ((c.turns xs).carried id).map (·.at_) = c.firings id xs
  receipts_eq : c.receipts id xs = [] ∨ c.receipts id xs = [due]
  slot_eq : ∀ v, (c.turns xs).timeline.waiting[id]? = some v → v = due
  /-- Whoever has waited for its value since then still waits. -/
  blocked_iff : .use (.call (.receive id)) ∉ xs → (c.turns xs).carried id = [] →
    ((c.turns xs).found id = .empty ↔ (c.turns xs).timeline.queue.isPending id = true)

/-- The channel `id` of a ticker with period `d`, when the turns `xs` were taken since it was armed
in `c`. -/
structure Ticks (c : Crowd κ) (id : Nat) (d : Delay) (xs : List (Turn κ)) : Prop extends
    Told (c.turns xs) id where
  gone_iff : (c.turns xs).timeline.queue.isPending id = false ↔
    .discard ∈ xs ∨ ∃ at_ ∈ c.firings id xs, at_.add? d = none

theorem Connected.isPending_eq_false_iff {interval : Delay} {fired : List Instant} {dropped : Prop}
    (hc : c.Connected id interval fired dropped) (h : c.timeline.queue.Valid) :
    c.timeline.queue.isPending id = false ↔
      dropped ∨ ∃ at_ ∈ fired, Sight.recurs interval at_ = false := by
  rw [← hc.gone_iff, ← Timeline.isSome_event? h, Option.isSome_eq_false_iff,
    Option.isNone_iff_eq_none]

theorem once_of_promised {due : Instant} {xs : List (Turn κ)} (h : c.timeline.queue.Valid)
    (hc : c.Connected id .zero [] False) (hp : c.Promised id due [] [])
    (hxs : ∀ x ∈ xs, ¬x.Handles id) : c.Once id due xs := by
  have h' := valid_turns h xs
  have hc' := hc.turns h hxs
  have hp' := hp.turns hc h hxs
  rw [List.nil_append, List.nil_append] at hp'
  have htold := told_of_senders (hc'.senders_eq h')
  have hgone : (c.turns xs).timeline.queue.isPending id = false ↔
      .discard ∈ xs ∨ c.firings id xs ≠ [] := by
    rw [hc'.isPending_eq_false_iff h', false_or, List.nil_append, ne_eq,
      List.eq_nil_iff_forall_not_mem, not_forall]
    simp [Sight.recurs, Delay.zero]
  have haccount : c.receipts id xs ++ ((c.turns xs).timeline.waiting[id]?).toList ++
      ((c.turns xs).carried id).map (·.at_) = c.firings id xs := by
    have hperm := hp'.account
    obtain hfired | hfired := hp'.fired_eq <;> rw [hfired] at hperm ⊢
    · exact hperm.eq_nil
    · exact List.perm_singleton.mp hperm
  have hdue : ∀ v ∈ c.firings id xs, v = due := by
    intro v hv
    obtain hfired | hfired := hp'.fired_eq <;> rw [hfired] at hv
    · cases hv
    · exact List.mem_singleton.mp hv
  refine ⟨htold, hgone, hp'.fired_eq, haccount, ?_, fun v hv => hdue v ?_,
    fun hothers hcarried => ?_⟩
  · have hle : c.receipts id xs <+: c.firings id xs := by
      rw [← haccount, List.append_assoc]
      exact List.prefix_append _ _
    obtain hfired | hfired := hp'.fired_eq <;> rw [hfired] at hle
    · exact .inl (List.prefix_nil.mp hle)
    · obtain hnone | ⟨l, hreceipts, hl⟩ := List.prefix_cons_iff.mp hle
      · exact .inl hnone
      · exact .inr (hreceipts.trans (by rw [List.prefix_nil.mp hl]))
  · rw [← haccount, hv]
    simp
  · rw [htold.empty_iff hcarried]
    refine and_iff_right_of_imp fun hpending => ?_
    have hfired : c.firings id xs = [] := by
      by_contra hfired
      rw [hgone.mpr (.inr hfired)] at hpending
      cases hpending
    rw [hfired] at haccount
    simpa using (List.append_eq_nil_iff.mp (List.append_eq_nil_iff.mp haccount).1).2

theorem ticks_of_connected {d : Delay} {xs : List (Turn κ)} (h : c.timeline.queue.Valid)
    (hd : 0 < d.nanos) (hc : c.Connected id d [] False) (hxs : ∀ x ∈ xs, ¬x.Handles id) :
    c.Ticks id d xs := by
  have h' := valid_turns h xs
  have hc' := hc.turns h hxs
  refine ⟨told_of_senders (hc'.senders_eq h'), ?_⟩
  rw [hc'.isPending_eq_false_iff h', false_or, List.nil_append]
  simp [Sight.recurs, hd]

end Crowd

end VirtualClock
