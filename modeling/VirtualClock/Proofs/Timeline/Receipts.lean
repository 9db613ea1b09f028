import Mathlib.Data.List.DropRight
import VirtualClock.Proofs.Advance
import VirtualClock.Proofs.Timeline.Channels
import VirtualClock.Proofs.Timeline.Order

/-! What a receiver gets out of the channel of a timer or ticker. The channel has one place, so of
the firings that reach it since the last receipt the first one is received and the later ones are
lost, whenever the receiver comes and whatever is stopped and reset. For a single caller firings
reach it in the order of their instants. Of two advances at once, one may overtake the other between
taking a firing off the queue and handing it over. -/

namespace VirtualClock

variable {κ : Type}

/-- What passes through a channel. -/
inductive Passage where
  | sent (value : Instant)
  | received (value : Instant)
deriving DecidableEq

namespace Passage

def isSent : Passage → Bool
  | sent _ => true
  | received _ => false

def value : Passage → Instant
  | sent v => v
  | received v => v

/-- The values that are sent, in order, whether or not they are received. -/
def sents (log : List Passage) : List Instant := (log.filter isSent).map value

/-- The values that are received, in order. -/
def receipts (log : List Passage) : List Instant := (log.filter (!·.isSent)).map value

/-- The values that were sent since the last receipt, or since the beginning. -/
def unread (log : List Passage) : List Instant := (log.rtakeWhile isSent).map value

/-- Of the values sent since the last receipt, or since the beginning, the first one is in the
channel, and it is what the next receipt takes out. -/
structure KeepsFirst (log : List Passage) (slot : Option Instant) : Prop where
  receipt : ∀ l v r, log = l ++ received v :: r → (unread l).head? = some v
  slot_eq : slot = (unread log).head?

theorem unread_sent (log : List Passage) (v : Instant) :
    unread (log ++ [sent v]) = unread log ++ [v] := by
  rw [unread, List.rtakeWhile_concat_pos _ _ _ rfl, List.map_append]
  rfl

theorem unread_received (log : List Passage) (v : Instant) :
    unread (log ++ [received v]) = [] := by
  rw [unread, List.rtakeWhile_concat_neg _ _ _ (by simp [isSent])]
  rfl

theorem sents_append (l r : List Passage) : sents (l ++ r) = sents l ++ sents r := by
  rw [sents, List.filter_append, List.map_append]
  rfl

theorem receipts_append (l r : List Passage) :
    receipts (l ++ r) = receipts l ++ receipts r := by
  rw [receipts, List.filter_append, List.map_append]
  rfl

theorem sents_nil : sents [] = [] := rfl

theorem sents_sent (v : Instant) : sents [sent v] = [v] := rfl

theorem split_concat {log l r : List Passage} {p q : Passage} (h : log ++ [p] = l ++ q :: r) :
    log = l ∧ p = q ∨ ∃ r', log = l ++ q :: r' := by
  obtain rfl | ⟨r', x, rfl⟩ := List.eq_nil_or_concat' r
  · obtain ⟨hl, hp⟩ := List.append_inj' h rfl
    exact .inl ⟨hl, List.head_eq_of_cons_eq hp⟩
  · rw [← List.cons_append, ← List.append_assoc] at h
    exact .inr ⟨r', (List.append_inj' h rfl).1⟩

theorem keepsFirst_nil : KeepsFirst [] none where
  receipt l v r h := by simp at h
  slot_eq := rfl

/-- A value that is sent is dropped if the channel still holds one. -/
theorem KeepsFirst.send {log : List Passage} {slot : Option Instant} (h : KeepsFirst log slot)
    (v : Instant) : KeepsFirst (log ++ [sent v]) (some (slot.getD v)) where
  receipt l w r heq := by
    obtain ⟨-, hne⟩ | ⟨r', hl⟩ := split_concat heq
    · cases hne
    · exact h.receipt l w r' hl
  slot_eq := by
    rw [unread_sent, h.slot_eq]
    cases unread log <;> rfl

theorem KeepsFirst.receive {log : List Passage} {v : Instant} (h : KeepsFirst log (some v)) :
    KeepsFirst (log ++ [received v]) none where
  receipt l w r heq := by
    obtain ⟨rfl, hw⟩ | ⟨r', hl⟩ := split_concat heq
    · cases hw
      exact h.slot_eq.symm
    · exact h.receipt l w r' hl
  slot_eq := by rw [unread_received]; rfl

/-- What was received, and behind it what is unread, were sent in this order, each value once. -/
theorem sublist_sents {log : List Passage}
    (h : ∀ l v r, log = l ++ received v :: r → (unread l).head? = some v) :
    (receipts log ++ unread log).Sublist (sents log) := by
  induction log using List.reverseRecOn with
  | nil => exact .refl _
  | append_singleton log p ih =>
    have hlog := ih fun l v r hl => h l v (r ++ [p]) (by rw [hl]; simp)
    rw [receipts_append, sents_append]
    cases p with
    | sent v =>
      rw [unread_sent, show receipts [sent v] = [] from rfl, List.append_nil, ← List.append_assoc]
      exact hlog.append (.refl _)
    | received v =>
      obtain ⟨rest, hrest⟩ := List.head?_eq_some_iff.mp (h log v [] rfl)
      rw [unread_received, show sents [received v] = [] from rfl, List.append_nil, List.append_nil]
      rw [hrest] at hlog
      exact (((List.nil_sublist rest).cons_cons v).append_left _).trans hlog

theorem KeepsFirst.sublist {log : List Passage} {slot : Option Instant} (h : KeepsFirst log slot) :
    (receipts log).Sublist (sents log) :=
  (List.sublist_append_left _ _).trans (sublist_sents h.receipt)

end Passage

/-- Whether an event fires into the channel of `id`. -/
def Event.feeds (id : Nat) (e : Event (Delivery κ)) : Bool := e.id = id && e.deliver.isChannel

namespace Timeline

theorem target_le_of_key_lt {e x : Event (Delivery κ)} (h : e.key < x.key) :
    e.target ≤ x.target := by
  have hkey := OrderKey.lt_iff_nanos.mp h
  rw [Instant.le_def]
  simp only [Event.key] at hkey
  omega

/-- What a move means to the channel of `id`. -/
def passage? (t : Timeline κ) (id : Nat) : Move κ → Option Passage
  | .send i value => if i = id then some (.sent value) else none
  | .receive i => if i = id then (t.receive i).map fun (value, _) => .received value else none
  | _ => none

/-- What passes through the channel of `id` in some moves. -/
def passages (t : Timeline κ) (id : Nat) : List (Move κ) → List Passage
  | [] => []
  | m :: ms => (t.passage? id m).toList ++ (t.move m).passages id ms

theorem passages_append (t : Timeline κ) (id : Nat) (ms ms' : List (Move κ)) :
    t.passages id (ms ++ ms') = t.passages id ms ++ (t.moves ms).passages id ms' := by
  induction ms generalizing t with
  | nil => rfl
  | cons m ms ih => rw [List.cons_append, passages, passages, ih, moves_cons, List.append_assoc]

/-- Only what is sent to `id` and received from `id` changes its channel. -/
theorem waiting_move (t : Timeline κ) (id : Nat) {m : Move κ} (hm : t.passage? id m = none) :
    (t.move m).waiting[id]? = t.waiting[id]? := by
  cases m with
  | send i value =>
    rw [passage?, ite_eq_right_iff] at hm
    have hne : i ≠ id := fun hid => by cases hm hid
    show (t.waiting.insertIfNew i value)[id]? = _
    simp [Std.TreeMap.getElem?_insertIfNew, hne]
  | receive i =>
    rw [passage?, receive] at hm
    rw [move, receive]
    cases hv : t.waiting[i]? with
    | none => rfl
    | some v =>
      rw [hv, ite_eq_right_iff] at hm
      have hne : i ≠ id := fun hid => by cases hm hid
      show (t.waiting.erase i)[id]? = _
      simp [Std.TreeMap.getElem?_erase, hne]
  | popDue limit => rw [move, popDue]; cases t.queue.popDue limit <;> rfl
  | register count => rw [move, register]; cases t.queue.register count <;> rfl
  | _ => rfl

theorem keepsFirst_move {t : Timeline κ} {id : Nat} {log : List Passage}
    (h : Passage.KeepsFirst log t.waiting[id]?) (m : Move κ) :
    Passage.KeepsFirst (log ++ (t.passage? id m).toList) (t.move m).waiting[id]? := by
  cases hp : t.passage? id m with
  | none =>
    rw [waiting_move t id hp, Option.toList_none, List.append_nil]
    exact h
  | some p =>
    cases m with
    | send i value =>
      obtain ⟨rfl, rfl⟩ : i = id ∧ Passage.sent value = p := by simpa [passage?] using hp
      have hslot := waiting_handOver_channel (t := t) (f := ⟨i, value, .channel⟩) rfl
      exact (show _ = _ from hslot) ▸ h.send value
    | receive i =>
      obtain ⟨rfl, v, hv, rfl⟩ : i = id ∧ ∃ v, t.waiting[i]? = some v ∧ .received v = p := by
        simpa [passage?, receive] using hp
      rw [hv] at h
      exact (show _ = _ from waiting_receive t i) ▸ h.receive
    | _ => cases hp

theorem keepsFirst_moves {t : Timeline κ} {id : Nat} {log : List Passage}
    (h : Passage.KeepsFirst log t.waiting[id]?) (ms : List (Move κ)) :
    Passage.KeepsFirst (log ++ t.passages id ms) (t.moves ms).waiting[id]? := by
  induction ms generalizing t log with
  | nil => rw [passages, List.append_nil]; exact h
  | cons m ms ih =>
    rw [passages, ← List.append_assoc]
    exact ih (keepsFirst_move h m)

theorem keepsFirst_start (at_ : Reading) (id : Nat) (ms : List (Move κ)) :
    Passage.KeepsFirst ((start at_).passages id ms) ((start at_).moves ms).waiting[id]? := by
  have hslot : (start at_ : Timeline κ).waiting[id]? = none := Std.TreeMap.getElem?_emptyc
  have hempty : Passage.KeepsFirst [] (start at_ : Timeline κ).waiting[id]? := by
    rw [hslot]
    exact Passage.keepsFirst_nil
  exact keepsFirst_moves hempty ms

theorem sents_eq_nil {t : Timeline κ} (id : Nat) {ms : List (Move κ)}
    (hms : ∀ m ∈ ms, m.isInner = false) : Passage.sents (t.passages id ms) = [] := by
  induction ms generalizing t with
  | nil => rfl
  | cons m ms ih =>
    rw [List.forall_mem_cons] at hms
    rw [passages, Passage.sents_append, ih hms.2, List.append_nil]
    cases m with
    | send i value => cases hms.1
    | receive i =>
      rw [passage?, receive]
      split
      · cases t.waiting[i]? <;> rfl
      · rfl
    | _ => rfl

/-- Nothing that is done to timers and tickers changes what waits in the channel of `id`. -/
structure Undisturbed (t : Timeline κ) (id : Nat) : Prop where
  stop_keeps : ∀ i, (t.disarm i).2.waiting[id]? = t.waiting[id]?
  reset_keeps : ∀ i d deliver, (t.resetTimer i d deliver).2.waiting[id]? = t.waiting[id]?
  resetTicker_keeps : ∀ i d was t',
    t.resetTicker i d = .ok (was, t') → t'.waiting[id]? = t.waiting[id]?

theorem undisturbed {t : Timeline κ} (h : t.queue.Valid) (id : Nat) : t.Undisturbed id where
  stop_keeps i := waiting_move t id (m := .disarm i) rfl
  reset_keeps i d deliver := waiting_move t id (m := .arm i d .zero deliver) rfl
  resetTicker_keeps i d was t' ht := by
    obtain ⟨-, -, rfl⟩ := (resetTicker_eq_ok h).mp ht
    exact waiting_move t id (m := .arm i d d .channel) rfl

/-- The events that some moves fire into the channel of `id`, in the order in which they are taken
off the queue. -/
def fired (t : Timeline κ) (id : Nat) (ms : List (Move κ)) : List (Event (Delivery κ)) :=
  (t.taken ms).filter (·.feeds id)

theorem fired_append (t : Timeline κ) (id : Nat) (ms ms' : List (Move κ)) :
    t.fired id (ms ++ ms') = t.fired id ms ++ (t.moves ms).fired id ms' := by
  rw [fired, taken_append, List.filter_append]
  rfl

theorem fired_eq_nil {t : Timeline κ} (id : Nat) {ms : List (Move κ)}
    (hms : ∀ m ∈ ms, m.isInner = false) : t.fired id ms = [] := by
  rw [fired, Solo.taken_eq_nil hms, List.filter_nil]

theorem fired_sorted (at_ : Reading) (id : Nat) (ms : List (Move κ)) :
    ((start at_).fired id ms).Pairwise fun e x => e.key < x.key :=
  ((ordered_start at_).moves ms).sorted.sublist List.filter_sublist

theorem targets_sorted (at_ : Reading) (id : Nat) (ms : List (Move κ)) :
    (((start at_).fired id ms).map (·.target)).Pairwise (· ≤ ·) :=
  List.pairwise_map.mpr ((fired_sorted at_ id ms).imp target_le_of_key_lt)

end Timeline

/-! ### What is sent are the firings -/

namespace Solo

/-- The events that fire into the channel of `id` in some deeds, in order. -/
def fired (c : Solo κ) (id : Nat) (ds : List (Deed κ)) : List (Event (Delivery κ)) :=
  c.timeline.fired id (c.story ds)

/-- What passes through the channel of `id` in some deeds. -/
def passages (c : Solo κ) (id : Nat) (ds : List (Deed κ)) : List Passage :=
  c.timeline.passages id (c.story ds)

theorem made_fire {c : Solo κ} {a : Advancing} {rest : List Advancing} {e : Event (Delivery κ)}
    {t : Timeline κ} (hadv : c.advances = a :: rest)
    (hp : c.timeline.popDue a.limit = some (e.firing, t)) :
    c.made .fire =
      .popDue a.limit :: if e.deliver.isChannel then [.send e.id e.target] else [] := by
  obtain ⟨id, target, sequence, interval, deliver⟩ := e
  rw [Event.firing] at hp
  cases deliver <;> simp only [made, hadv, hp] <;> rfl

/-- What a firing sends to `id` is its own instant, if it is one of `id`. -/
theorem sents_fire {c c' : Solo κ} {id : Nat} (h : c.timeline.queue.Valid)
    (hd : c.step .fire = some c') :
    Passage.sents (c.timeline.passages id (c.made .fire)) =
      (c.timeline.fired id (c.made .fire)).map (·.target) := by
  obtain ⟨a, rest, f, t, hadv, hp, -⟩ := step_fire hd
  obtain ⟨e, htaken, -, -, -, rfl, -⟩ := Timeline.popDue_eq_some h hp
  rw [made_fire hadv hp, Timeline.fired, Timeline.taken, htaken, Timeline.passages]
  have hpop : c.timeline.passage? id (.popDue a.limit) = none := rfl
  rw [hpop]
  by_cases hchannel : e.deliver.isChannel
  · simp only [if_pos hchannel, Timeline.passages, Timeline.passage?, Timeline.taken]
    by_cases hid : e.id = id <;>
      simp [hid, hchannel, Event.feeds, Timeline.taken?, Passage.sents_sent, Passage.sents_nil]
  · simp [hchannel, Timeline.passages, Timeline.taken, Event.feeds, Passage.sents_nil]

/-- What a deed sends to `id` is what it fires into its channel. -/
theorem sents_made {c c' : Solo κ} {id : Nat} {d : Deed κ} (h : c.timeline.queue.Valid)
    (hd : c.step d = some c') :
    Passage.sents (c.timeline.passages id (c.made d)) =
      (c.timeline.fired id (c.made d)).map (·.target) := by
  cases d with
  | act m =>
    have hquiet : ∀ m' ∈ c.made (.act m), m'.isInner = false :=
      List.forall_mem_singleton.mpr (step_act hd).1
    rw [Timeline.sents_eq_nil id hquiet, Timeline.fired_eq_nil id hquiet, List.map_nil]
  | advance d => rfl
  | fire => exact sents_fire h hd
  | finish =>
    obtain ⟨a, rest, hadv, -, -⟩ := step_finish hd
    rw [made, hadv]
    rfl
  | leave => rfl

theorem sents_run {c c' : Solo κ} (id : Nat) {ds : List (Deed κ)} (h : c.timeline.queue.Valid)
    (hrun : c.run ds = some c') :
    Passage.sents (c.passages id ds) = (c.fired id ds).map (·.target) := by
  induction ds generalizing c with
  | nil => rfl
  | cons d ds ih =>
    rw [run_cons] at hrun
    obtain ⟨c₁, hd, hrest⟩ := Option.bind_eq_some_iff.mp hrun
    have htimeline := timeline_step hd
    have hvalid : c₁.timeline.queue.Valid := htimeline ▸ Timeline.valid_moves h (c.made d)
    rw [passages, fired, story_cons hd, Timeline.passages_append, Timeline.fired_append,
      Passage.sents_append, List.map_append, sents_made h hd, ← htimeline]
    exact congrArg _ (ih hvalid hrest)

/-- What a receiver on the channel of `id` gets in a run of a single caller on a fresh timeline at
`at_`, which leads to `c`. -/
structure Receives (at_ : Reading) (id : Nat) (ds : List (Deed κ)) (c : Solo κ) : Prop extends
    Timeline.Undisturbed c.timeline id where
  keepsFirst : Passage.KeepsFirst ((start at_).passages id ds) c.timeline.waiting[id]?
  /-- What is sent are the instants of the firings, in their order. -/
  sents_eq : Passage.sents ((start at_).passages id ds) = ((start at_).fired id ds).map (·.target)
  fired_sorted : ((start at_).fired id ds).Pairwise fun e x => e.key < x.key
  /-- Each firing is received at most once. -/
  receipts_sublist : (Passage.receipts ((start at_).passages id ds)).Sublist
    (((start at_).fired id ds).map (·.target))
  receipts_sorted : (Passage.receipts ((start at_).passages id ds)).Pairwise (· ≤ ·)

theorem receives_of_run {at_ : Reading} (id : Nat) {ds : List (Deed κ)} {c : Solo κ}
    (hrun : (start at_).run ds = some c) : Receives at_ id ds c := by
  have htimeline : c.timeline = (Timeline.start at_).moves ((start at_ : Solo κ).story ds) :=
    timeline_run hrun
  have hvalid : c.timeline.queue.Valid := htimeline ▸ Timeline.valid_moves (Timeline.valid_start at_) _
  have hkeeps := Timeline.keepsFirst_start at_ id ((start at_ : Solo κ).story ds)
  have hsents := sents_run id (Timeline.valid_start at_) hrun
  have hsublist : (Passage.receipts ((start at_).passages id ds)).Sublist
      (((start at_).fired id ds).map (·.target)) := hsents ▸ hkeeps.sublist
  exact ⟨Timeline.undisturbed hvalid id, htimeline ▸ hkeeps, hsents, Timeline.fired_sorted at_ id _,
    hsublist, (Timeline.targets_sorted at_ id _).sublist hsublist⟩

end Solo

namespace Crowd

/-- The firings of some that go to the channel of `id`, as what they send to it. -/
def sentTo (id : Nat) (fs : List (Firing (Delivery κ))) : List Instant :=
  (fs.filter fun f => f.id = id && f.deliver.isChannel).map (·.at_)

/-- What was taken off the queue for the channel of `id` and has not reached it. -/
def onWay (c : Crowd κ) (id : Nat) : List Instant := sentTo id c.flying

/-- The events that fire into the channel of `id` in some turns, in the order in which they are
taken off the queue. -/
def fired (c : Crowd κ) (id : Nat) (xs : List (Turn κ)) : List (Event (Delivery κ)) :=
  c.timeline.fired id (c.story xs)

/-- What passes through the channel of `id` in some turns. -/
def passages (c : Crowd κ) (id : Nat) (xs : List (Turn κ)) : List Passage :=
  c.timeline.passages id (c.story xs)

theorem sentTo_append (id : Nat) (fs gs : List (Firing (Delivery κ))) :
    sentTo id (fs ++ gs) = sentTo id fs ++ sentTo id gs := by
  rw [sentTo, List.filter_append, List.map_append]
  rfl

theorem sentTo_perm (id : Nat) {fs gs : List (Firing (Delivery κ))} (h : fs.Perm gs) :
    (sentTo id fs).Perm (sentTo id gs) :=
  (h.filter _).map _

theorem sentTo_firings (id : Nat) (es : List (Event (Delivery κ))) :
    sentTo id (es.map (·.firing)) = (es.filter (·.feeds id)).map (·.target) := by
  rw [sentTo, List.filter_map, List.map_map]
  rfl

/-- A turn takes at most one step with the firings for the channel of `id`. -/
inductive Carries (c : Crowd κ) (id : Nat) (x : Turn κ) : Prop where
  /-- It takes one off the queue, or none. -/
  | pops (hsents : Passage.sents (c.timeline.passages id (c.made x)) = [])
      (hway : ((c.turn x).onWay id).Perm
        ((c.timeline.fired id (c.made x)).map (·.target) ++ c.onWay id))
  /-- It sends one to the channel, or none. -/
  | sends (hfired : c.timeline.fired id (c.made x) = [])
      (hway : (Passage.sents (c.timeline.passages id (c.made x)) ++ (c.turn x).onWay id).Perm
        (c.onWay id))

/-- A turn that does nothing to firings. -/
theorem carries_quiet {c : Crowd κ} (id : Nat) {x : Turn κ}
    (hmade : ∀ m ∈ c.made x, m.isInner = false) (hflying : (c.turn x).flying = c.flying) :
    c.Carries id x := by
  refine .sends (Timeline.fired_eq_nil id hmade) ?_
  rw [Timeline.sents_eq_nil id hmade, onWay, hflying]
  exact .refl _

theorem carries_idle {c : Crowd κ} (id : Nat) {x : Turn κ} (hmade : c.made x = [])
    (hturn : c.turn x = c) : c.Carries id x :=
  carries_quiet id (by simp [hmade]) (by rw [hturn])

theorem made_look {c : Crowd κ} {i : Nat} {limit : Instant}
    (hi : c.advances[i]? = some ⟨limit, .looking⟩) : c.made (.look i) = [.popDue limit] := by
  rw [made, hi]

theorem carries_pop {c : Crowd κ} (h : c.timeline.queue.Valid) (id : Nat) {i : Nat}
    {limit : Instant} (hi : c.advances[i]? = some ⟨limit, .looking⟩) {f : Firing (Delivery κ)}
    {t : Timeline κ} (hp : c.timeline.popDue limit = some (f, t)) : c.Carries id (.look i) := by
  obtain ⟨e, htaken, -, -, -, rfl, -⟩ := Timeline.popDue_eq_some h hp
  have hturn : c.turn (.look i) = ⟨t, c.advances.set i ⟨limit, .delivering e.firing⟩⟩ := by
    simp only [turn, hi, hp]
  have hfired : (c.timeline.fired id (c.made (.look i))).map (·.target) = sentTo id [e.firing] := by
    rw [made_look hi, Timeline.fired, Timeline.taken, htaken, Timeline.taken, List.append_nil,
      ← sentTo_firings]
    rfl
  have hflying := sentTo_perm id (flying_set hi t ⟨limit, .delivering e.firing⟩)
  rw [sentTo_append, sentTo_append] at hflying
  refine .pops (by rw [made_look hi]; rfl) ?_
  rw [hfired, hturn]
  exact hflying.symm

theorem carries_rest {c : Crowd κ} (id : Nat) {i : Nat} {limit : Instant}
    (hi : c.advances[i]? = some ⟨limit, .looking⟩) (hp : c.timeline.popDue limit = none) :
    c.Carries id (.look i) := by
  have hturn : c.turn (.look i) = { c with advances := c.advances.set i ⟨limit, .settling⟩ } := by
    simp only [turn, hi, hp]
  have hfired : c.timeline.fired id (c.made (.look i)) = [] := by
    rw [made_look hi, Timeline.fired, Timeline.taken, Timeline.taken?, hp]
    rfl
  refine .sends hfired ?_
  rw [made_look hi, hturn]
  exact (sentTo_perm id (flying_set hi c.timeline ⟨limit, .settling⟩)).symm

theorem carries_look {c : Crowd κ} (h : c.timeline.queue.Valid) (id i : Nat) :
    c.Carries id (.look i) := by
  cases hi : c.advances[i]? with
  | none => exact carries_idle id (by rw [made, hi]) (by rw [turn, hi])
  | some a =>
    obtain ⟨limit, looking | f | settling⟩ := a
    · cases hp : c.timeline.popDue limit with
      | none => exact carries_rest id hi hp
      | some p => exact carries_pop h id hi hp
    · exact carries_idle id (by rw [made, hi]) (by rw [turn, hi])
    · exact carries_idle id (by rw [made, hi]) (by rw [turn, hi])

theorem carries_deliver (c : Crowd κ) (id i : Nat) : c.Carries id (.deliver i) := by
  cases hi : c.advances[i]? with
  | none => exact carries_idle id (by rw [made, hi]) (by rw [turn, hi])
  | some a =>
    obtain ⟨limit, looking | ⟨f⟩ | settling⟩ := a
    · exact carries_idle id (by rw [made, hi]) (by rw [turn, hi])
    · have hturn : c.turn (.deliver i) =
          ⟨Solo.handOver c.timeline f, c.advances.set i ⟨limit, .looking⟩⟩ := by rw [turn, hi]
      have hflying := sentTo_perm id (flying_set hi (Solo.handOver c.timeline f) ⟨limit, .looking⟩)
      rw [sentTo_append, sentTo_append] at hflying
      obtain ⟨fid, at_, channel | k⟩ := f
      · have hmade : c.made (.deliver i) = [.send fid at_] := by rw [made, hi]
        have hsents : Passage.sents (c.timeline.passages id (c.made (.deliver i))) =
            sentTo id [(⟨fid, at_, .channel⟩ : Firing (Delivery κ))] := by
          rw [hmade, Timeline.passages, Timeline.passages, Timeline.passage?]
          by_cases hid : fid = id <;> simp [hid, sentTo, Delivery.isChannel] <;> rfl
        refine .sends ?_ ?_
        · rw [hmade]; rfl
        · rw [hsents, hturn]
          exact hflying.symm
      · have hmade : c.made (.deliver i) = [] := by rw [made, hi]
        refine .sends ?_ ?_
        · rw [hmade]; rfl
        · rw [hmade, hturn]
          have hnone : sentTo id [(⟨fid, at_, .callback k⟩ : Firing (Delivery κ))] = [] := by
            simp [sentTo, Delivery.isChannel]
          exact (hnone ▸ hflying).symm
    · exact carries_idle id (by rw [made, hi]) (by rw [turn, hi])

/-- An advance that ends was delivering nothing to a channel. -/
theorem carries_end {c : Crowd κ} (id : Nat) {x : Turn κ} {i : Nat} {a : Underway κ}
    {t : Timeline κ} (hi : c.advances[i]? = some a) (ha : sentTo id a.firing?.toList = [])
    (hturn : c.turn x = ⟨t, c.advances.eraseIdx i⟩) (hfired : c.timeline.fired id (c.made x) = [])
    (hsents : Passage.sents (c.timeline.passages id (c.made x)) = []) : c.Carries id x := by
  have hflying := sentTo_perm id (flying_eraseIdx hi t)
  rw [sentTo_append, ha] at hflying
  refine .sends hfired ?_
  rw [hsents, hturn]
  exact hflying.symm

theorem carries_leave (c : Crowd κ) (id i : Nat) : c.Carries id (.leave i) := by
  cases hi : c.advances[i]? with
  | none => exact carries_idle id rfl (by rw [turn, hi])
  | some a =>
    obtain ⟨limit, looking | ⟨⟨fid, at_, channel | k⟩⟩ | settling⟩ := a
    · exact carries_idle id rfl (by rw [turn, hi])
    · exact carries_idle id rfl (by rw [turn, hi])
    · have hturn : c.turn (.leave i) = ⟨c.timeline, c.advances.eraseIdx i⟩ := by rw [turn, hi]
      refine carries_end id hi ?_ hturn rfl rfl
      simp [Underway.firing?, sentTo, Delivery.isChannel]
    · exact carries_idle id rfl (by rw [turn, hi])

theorem carries_settle (c : Crowd κ) (id i : Nat) : c.Carries id (.settle i) := by
  cases hi : c.advances[i]? with
  | none => exact carries_idle id (by rw [made, hi]) (by rw [turn, hi])
  | some a =>
    obtain ⟨limit, looking | f | settling⟩ := a
    · exact carries_idle id (by rw [made, hi]) (by rw [turn, hi])
    · exact carries_idle id (by rw [made, hi]) (by rw [turn, hi])
    · have hmade : c.made (.settle i) = [.settle limit] := by rw [made, hi]
      have hturn : c.turn (.settle i) =
          ⟨c.timeline.settle limit, c.advances.eraseIdx i⟩ := by rw [turn, hi]
      exact carries_end id hi rfl hturn (by rw [hmade]; rfl) (by rw [hmade]; rfl)

theorem carries_turn {c : Crowd κ} (h : c.timeline.queue.Valid) (id : Nat) (x : Turn κ) :
    c.Carries id x := by
  cases x with
  | use u =>
    have hmade : ∀ m ∈ c.made (.use u), m.isInner = false := by
      rw [made]
      split
      · exact Timeline.isInner_of_mem_useMoves ‹_›
      · simp
    have hflying : (c.turn (.use u)).flying = c.flying := by rw [turn]; split <;> rfl
    exact carries_quiet id hmade hflying
  | advance d =>
    have hflying : (c.turn (.advance d)).flying = c.flying := by
      simp [turn, flying, Underway.firing?]
    exact carries_quiet id (by simp [made]) hflying
  | look i => exact carries_look h id i
  | deliver i => exact carries_deliver c id i
  | leave i => exact carries_leave c id i
  | settle i => exact carries_settle c id i
  | discard => exact carries_quiet id (List.forall_mem_singleton.mpr rfl) rfl

theorem Carries.account {c : Crowd κ} {id : Nat} {x : Turn κ} (h : c.Carries id x) :
    (Passage.sents (c.timeline.passages id (c.made x)) ++ (c.turn x).onWay id).Perm
      (c.onWay id ++ (c.timeline.fired id (c.made x)).map (·.target)) := by
  cases h with
  | pops hsents hway =>
    rw [hsents]
    exact hway.trans List.perm_append_comm
  | sends hfired hway =>
    rw [hfired, List.map_nil, List.append_nil]
    exact hway

theorem eq_of_perm_of_length_le_one {α : Type} {l l' : List α} (h : l.Perm l')
    (hl : l.length ≤ 1) : l = l' := by
  match l, hl with
  | [], _ => exact h.nil_eq
  | [a], _ => exact List.singleton_perm.mp h

/-- With no more than one firing on its way before and after a turn, none overtakes another. -/
theorem Carries.account_eq {c : Crowd κ} {id : Nat} {x : Turn κ} (h : c.Carries id x)
    (hone : (c.onWay id).length ≤ 1) (hone' : ((c.turn x).onWay id).length ≤ 1) :
    Passage.sents (c.timeline.passages id (c.made x)) ++ (c.turn x).onWay id =
      c.onWay id ++ (c.timeline.fired id (c.made x)).map (·.target) := by
  have haccount := h.account
  cases h with
  | pops hsents hway =>
    rw [hsents] at haccount ⊢
    exact eq_of_perm_of_length_le_one haccount hone'
  | sends hfired hway =>
    rw [hfired] at haccount ⊢
    refine (eq_of_perm_of_length_le_one haccount.symm ?_).symm
    rw [List.map_nil, List.append_nil]
    exact hone

theorem passages_cons (c : Crowd κ) (id : Nat) (x : Turn κ) (xs : List (Turn κ)) :
    c.passages id (x :: xs) =
      c.timeline.passages id (c.made x) ++ (c.turn x).passages id xs := by
  rw [passages, story, Timeline.passages_append, ← timeline_turn]
  rfl

theorem fired_cons (c : Crowd κ) (id : Nat) (x : Turn κ) (xs : List (Turn κ)) :
    c.fired id (x :: xs) = c.timeline.fired id (c.made x) ++ (c.turn x).fired id xs := by
  rw [fired, story, Timeline.fired_append, ← timeline_turn]
  rfl

/-- Every firing that was taken off the queue was sent once, or is on its way. -/
theorem account_turns {c : Crowd κ} (h : c.timeline.queue.Valid) (id : Nat)
    (xs : List (Turn κ)) :
    (Passage.sents (c.passages id xs) ++ (c.turns xs).onWay id).Perm
      (c.onWay id ++ (c.fired id xs).map (·.target)) := by
  induction xs generalizing c with
  | nil => rw [turns_nil]; exact .of_eq (List.append_nil _).symm
  | cons x xs ih =>
    have hstep := (carries_turn h id x).account
    have hrest := ih ((steps_turn c x).valid h)
    rw [passages_cons, fired_cons, Passage.sents_append, List.map_append, List.append_assoc,
      ← List.append_assoc (c.onWay id)]
    refine (hrest.append_left _).trans ?_
    rw [← List.append_assoc]
    exact hstep.append_right _

/-- At no time was more than one firing on its way to the channel of `id`. -/
def OneByOne (c : Crowd κ) (id : Nat) (xs : List (Turn κ)) : Prop :=
  ∀ ys, ys <+: xs → ((c.turns ys).onWay id).length ≤ 1

theorem account_eq_turns {c : Crowd κ} (h : c.timeline.queue.Valid) {id : Nat}
    {xs : List (Turn κ)} (hone : c.OneByOne id xs) :
    Passage.sents (c.passages id xs) ++ (c.turns xs).onWay id =
      c.onWay id ++ (c.fired id xs).map (·.target) := by
  induction xs generalizing c with
  | nil => exact (List.append_nil _).symm
  | cons x xs ih =>
    have hnow : (c.onWay id).length ≤ 1 := hone [] List.nil_prefix
    have hnext : ((c.turn x).onWay id).length ≤ 1 :=
      hone [x] (List.prefix_cons_inj x |>.mpr List.nil_prefix)
    have hstep := (carries_turn h id x).account_eq hnow hnext
    have hrest := ih ((steps_turn c x).valid h) fun ys hys =>
      hone (x :: ys) ((List.prefix_cons_inj x).mpr hys)
    rw [passages_cons, fired_cons, Passage.sents_append, List.map_append, List.append_assoc,
      turns_cons, hrest, ← List.append_assoc, hstep, List.append_assoc]

/-- What a receiver on the channel of `id` gets when callers have taken the turns `xs` on a fresh
timeline at `at_`. -/
structure Receives (at_ : Reading) (id : Nat) (xs : List (Turn κ)) : Prop extends
    Timeline.Undisturbed ((start at_).turns xs).timeline id where
  keepsFirst : Passage.KeepsFirst ((start at_).passages id xs)
    ((start at_).turns xs).timeline.waiting[id]?
  /-- Every firing is sent once, or is on its way. -/
  account : (Passage.sents ((start at_).passages id xs) ++ ((start at_).turns xs).onWay id).Perm
    (((start at_).fired id xs).map (·.target))
  fired_sorted : ((start at_).fired id xs).Pairwise fun e x => e.key < x.key
  receipts_sublist : (Passage.receipts ((start at_).passages id xs)).Sublist
    (Passage.sents ((start at_).passages id xs))
  /-- Each firing is received at most once. -/
  receipts_subperm : (Passage.receipts ((start at_).passages id xs)).Subperm
    (((start at_).fired id xs).map (·.target))
  /-- Where no firing can overtake another, they are sent in their order. -/
  sents_eq : (start at_).OneByOne id xs →
    Passage.sents ((start at_).passages id xs) ++ ((start at_).turns xs).onWay id =
      ((start at_).fired id xs).map (·.target)
  receipts_sorted : (start at_).OneByOne id xs →
    (Passage.receipts ((start at_).passages id xs)).Pairwise (· ≤ ·)

theorem receives_turns (at_ : Reading) (id : Nat) (xs : List (Turn κ)) : Receives at_ id xs := by
  have htimeline : ((start at_).turns xs).timeline =
      (Timeline.start at_).moves ((start at_ : Crowd κ).story xs) := timeline_turns _ xs
  have hvalid := valid_turns (c := start at_) (Timeline.valid_start at_) xs
  have hkeeps := Timeline.keepsFirst_start at_ id ((start at_ : Crowd κ).story xs)
  have haccount := account_turns (c := start at_) (Timeline.valid_start at_) id xs
  have hsublist : (Passage.receipts ((start at_).passages id xs)).Sublist
      (Passage.sents ((start at_).passages id xs)) := hkeeps.sublist
  have hsents (hone : (start at_).OneByOne id xs) :
      Passage.sents ((start at_).passages id xs) ++ ((start at_).turns xs).onWay id =
        ((start at_).fired id xs).map (·.target) :=
    account_eq_turns (Timeline.valid_start at_) hone
  refine ⟨Timeline.undisturbed hvalid id, htimeline ▸ hkeeps, haccount,
    Timeline.fired_sorted at_ id _, hsublist, ?_, hsents, fun hone => ?_⟩
  · exact (hsublist.trans (List.sublist_append_left _ _)).subperm.trans haccount.subperm
  · have hsorted := Timeline.targets_sorted at_ id ((start at_ : Crowd κ).story xs)
    rw [show (Timeline.start at_).fired id _ = (start at_ : Crowd κ).fired id xs from rfl,
      ← hsents hone] at hsorted
    exact hsorted.sublist (hsublist.trans (List.sublist_append_left _ _))

/-- A ticker with period 2, and two callers who advance by 2 and by 4. The one takes the firing at 2
off the queue, and before it hands it over, the other one takes the firing at 4 and hands it over.
Both are received as they come. -/
def overtaken : List (Turn Nat) :=
  [.use (.start ⟨2⟩ ⟨2⟩ .channel), .advance ⟨2⟩, .advance ⟨4⟩, .look 0, .look 1, .deliver 1,
    .use (.call (.receive 1)), .deliver 0, .use (.call (.receive 1))]

end Crowd

namespace Site

variable {σ : Type} {site : Site σ κ}

/-- A ticker with period 2 fires three times in one advance, is stopped, reset to period 3 and fires
again, before anything is received. -/
def slowReader : List (Deed Nat) :=
  [.act .allocate, .act (.arm 1 ⟨2⟩ ⟨2⟩ .channel), .advance ⟨7⟩, .fire, .fire, .fire, .finish,
    .act (.disarm 1), .act (.arm 1 ⟨3⟩ ⟨3⟩ .channel), .advance ⟨3⟩, .fire, .finish,
    .act (.receive 1), .advance ⟨3⟩, .fire, .finish, .act (.receive 1)]

end Site

end VirtualClock
