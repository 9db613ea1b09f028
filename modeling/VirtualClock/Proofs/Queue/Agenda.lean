import VirtualClock.Proofs.Queue.Events

/-! A plain list of events that answers every call as the queue does. It has no keys, no index and
no sequence numbers: the place of an event in the list is all that is known of its order. -/

namespace VirtualClock

variable {δ : Type}

/-- An event in a plain list. -/
structure Entry (δ : Type) where
  id : Nat
  target : Instant
  interval : Delay
  deliver : δ
deriving DecidableEq

/-- What a list keeps of an event. -/
def Event.entry (e : Event δ) : Entry δ := ⟨e.id, e.target, e.interval, e.deliver⟩

/-- A call on a queue. -/
inductive QueueCall (δ : Type) where
  | allocate
  | insert (id : Nat) (target : Instant) (interval : Delay) (deliver : δ)
  | remove (id : Nat)
  | popDue (limit : Instant)
  | clear
  | size
  | nextDeadline

/-- What a call returns. -/
inductive QueueReply (δ : Type) where
  | allocated (id : Nat)
  /-- Whether the event that was queued was pending before. -/
  | inserted (was : Bool)
  | removed (e : Option (Entry δ))
  | popped (f : Option (Firing δ))
  | cleared (count : Nat)
  | size (count : Nat)
  | nextDeadline (t : Option Instant)
deriving DecidableEq

/-- What is returned by some calls, one after another. -/
def QueueCall.replies {σ : Type} (perform : σ → QueueCall δ → QueueReply δ × σ) (s : σ) :
    List (QueueCall δ) → List (QueueReply δ)
  | [] => []
  | c :: cs => (perform s c).1 :: replies perform (perform s c).2 cs

/-- A call on the queue. -/
def EventQueue.perform (q : EventQueue δ) : QueueCall δ → QueueReply δ × EventQueue δ
  | .allocate => (.allocated q.allocate.1, q.allocate.2)
  | .insert id target interval deliver =>
    let (was, q) := q.insert id target interval deliver
    (.inserted was, q)
  | .remove id =>
    let (e, q) := q.remove id
    (.removed (e.map Event.entry), q)
  | .popDue limit =>
    match q.popDue limit with
    | none => (.popped none, q)
    | some (f, q) => (.popped (some f), q)
  | .clear => (.cleared q.clear.1, q.clear.2)
  | .size => (.size q.size, q)
  | .nextDeadline => (.nextDeadline q.nextDeadline, q)

/-- Events in the order in which they fire, and the last id that was handed out. -/
structure Agenda (δ : Type) where
  entries : List (Entry δ) := []
  lastId : Nat := 0

namespace Agenda

/-- The list with `e` after every event whose target is not later. -/
def place (l : List (Entry δ)) (e : Entry δ) : List (Entry δ) :=
  l.takeWhile (·.target ≤ e.target) ++ e :: l.dropWhile (·.target ≤ e.target)

/-- The list without the event of `id`. -/
def drop (l : List (Entry δ)) (id : Nat) : List (Entry δ) := l.filter (·.id ≠ id)

/-- The list after the event `e`, which was its head, has fired: a ticker is put back one period
later, unless that is past the last instant. -/
def putBack (l : List (Entry δ)) (e : Entry δ) : List (Entry δ) :=
  if 0 < e.interval.nanos then
    match e.target.add? e.interval with
    | some next => place l { e with target := next }
    | none => l
  else l

/-- A call on the list. -/
def perform (a : Agenda δ) : QueueCall δ → QueueReply δ × Agenda δ
  | .allocate => (.allocated (a.lastId + 1), { a with lastId := a.lastId + 1 })
  | .insert id target interval deliver =>
    (.inserted (a.entries.any (·.id = id)),
      { a with entries := place (drop a.entries id) ⟨id, target, interval, deliver⟩ })
  | .remove id =>
    (.removed (a.entries.find? (·.id = id)), { a with entries := drop a.entries id })
  | .popDue limit =>
    match a.entries with
    | [] => (.popped none, a)
    | e :: l =>
      if e.target ≤ limit then
        (.popped (some ⟨e.id, e.target, e.deliver⟩), { a with entries := putBack l e })
      else (.popped none, a)
  | .clear => (.cleared a.entries.length, { a with entries := [] })
  | .size => (.size a.entries.length, a)
  | .nextDeadline => (.nextDeadline (a.entries.head?.map (·.target)), a)

/-! ### The list stands for the queue -/

/-- The list holds the pending events of the queue in the order in which they fire. -/
structure Represents (a : Agenda δ) (q : EventQueue δ) : Prop where
  valid : q.Valid
  entries_eq : a.entries = q.events.map Event.entry
  lastId_eq : a.lastId = q.lastId

theorem represents_empty : Represents ({} : Agenda δ) {} where
  valid := EventQueue.valid_empty
  entries_eq := by rw [EventQueue.events_empty]; rfl
  lastId_eq := rfl

theorem place_map (l : List (Event δ)) (e : Event δ) (n : Nat) :
    place (l.map Event.entry) e.entry =
      (l.takeWhile (·.target ≤ e.target) ++
        e.withSequence n :: l.dropWhile (·.target ≤ e.target)).map Event.entry := by
  rw [place, List.takeWhile_map, List.dropWhile_map, List.map_append, List.map_cons]
  rfl

theorem drop_map (l : List (Event δ)) (id : Nat) :
    drop (l.map Event.entry) id = (l.filter (·.id ≠ id)).map Event.entry := by
  rw [drop, List.filter_map]
  rfl

theorem putBack_entry (l : List (Entry δ)) (e : Event δ) :
    putBack l e.entry = (e.next?.map fun e' => place l e'.entry).getD l := by
  unfold putBack Event.next? Event.isTicker
  by_cases hpos : 0 < e.interval.nanos
  · have hpos' : 0 < e.entry.interval.nanos := hpos
    rw [if_pos hpos', if_pos (decide_eq_true hpos)]
    simp only [Event.entry]
    cases e.target.add? e.interval <;> rfl
  · have hpos' : ¬0 < e.entry.interval.nanos := hpos
    rw [if_neg hpos', if_neg (by simpa using hpos)]
    rfl

variable {a : Agenda δ} {q : EventQueue δ}

theorem Represents.any_id (h : Represents a q) (id : Nat) :
    a.entries.any (·.id = id) = q.isPending id := by
  rw [Bool.eq_iff_iff, EventQueue.isPending_iff h.valid, h.entries_eq]
  simp only [List.any_map, List.any_eq_true, EventQueue.mem_events h.valid, Function.comp_apply,
    decide_eq_true_eq]
  rfl

theorem Represents.find_id (h : Represents a q) (id : Nat) :
    a.entries.find? (·.id = id) = (q.remove id).1.map Event.entry := by
  rw [EventQueue.remove_fst h.valid, h.entries_eq, List.find?_map]
  rfl

theorem Represents.remove (h : Represents a q) (id : Nat) :
    Represents { a with entries := drop a.entries id } (q.remove id).2 where
  valid := EventQueue.valid_remove h.valid id
  entries_eq := by rw [EventQueue.events_remove h.valid, h.entries_eq, drop_map]
  lastId_eq := h.lastId_eq.trans (EventQueue.lastId_remove q id).symm

/-- Notifying waiters changes nothing about events. -/
theorem Represents.push (h : Represents a q) {e : Event δ} (hid : ∀ x ∈ q, x.id ≠ e.id) :
    Represents { a with entries := place a.entries e.entry } (q.push e).notify where
  valid := EventQueue.valid_notify (EventQueue.valid_push h.valid hid)
  entries_eq := by
    show place a.entries e.entry = (q.push e).events.map Event.entry
    rw [EventQueue.events_push h.valid hid, h.entries_eq]
    exact place_map q.events e _
  lastId_eq := h.lastId_eq

theorem Represents.insert (h : Represents a q) (id : Nat) (target : Instant) (interval : Delay)
    (deliver : δ) :
    Represents { a with entries := place (drop a.entries id) ⟨id, target, interval, deliver⟩ }
      (q.insert id target interval deliver).2 :=
  (h.remove id).push (e := ⟨id, target, 0, interval, deliver⟩) fun _ hx =>
    ((EventQueue.mem_remove h.valid).mp hx).2

/-- The list after its head has fired stands for the queue after its earliest event was popped. -/
theorem Represents.pop (h : Represents a q) {e : Event δ} {l : List (Event δ)}
    (hl : q.events = e :: l) :
    Represents { a with entries := putBack (l.map Event.entry) e.entry }
      ((q.without e).requeue e) := by
  have he : e ∈ q := (EventQueue.mem_events h.valid).mp (hl ▸ List.mem_cons_self)
  have hvalid := EventQueue.valid_without h.valid he
  have hrest := EventQueue.events_without_head h.valid hl
  have hothers : Represents { a with entries := l.map Event.entry } (q.without e) :=
    ⟨hvalid, by rw [hrest], h.lastId_eq⟩
  have hid : ∀ x ∈ q.without e, x.id ≠ e.id := fun x hx =>
    ((EventQueue.mem_without_iff_id h.valid he).mp hx).2
  rw [putBack_entry, EventQueue.requeue_eq]
  cases hnext : e.next? with
  | none => exact hothers
  | some e' =>
    obtain ⟨hsame, -⟩ := Event.next?_eq_some hnext
    exact hothers.push fun x hx => hsame ▸ hid x hx

theorem Represents.popDue (h : Represents a q) (limit : Instant) :
    (a.perform (.popDue limit)).1 = (q.perform (.popDue limit)).1 ∧
      Represents (a.perform (.popDue limit)).2 (q.perform (.popDue limit)).2 := by
  have hpop := EventQueue.popDue_eq h.valid limit
  rw [EventQueue.first?_eq_head? h.valid] at hpop
  have hentries := h.entries_eq
  simp only [Agenda.perform, EventQueue.perform]
  cases hl : q.events with
  | nil =>
    rw [hl] at hpop hentries
    simp only [hpop, hentries, List.map_nil, List.head?_nil, Option.filter_none, Option.map_none]
    exact ⟨trivial, h⟩
  | cons e l =>
    rw [hl, List.head?_cons, Option.filter_some] at hpop
    rw [hl, List.map_cons] at hentries
    by_cases hle : e.target ≤ limit
    · have hle' : e.entry.target ≤ limit := hle
      simp only [hpop, hentries, hle, hle', decide_true, if_true, Option.map_some]
      exact ⟨rfl, h.pop hl⟩
    · have hle' : ¬e.entry.target ≤ limit := hle
      simp only [hpop, hentries, hle, hle', decide_false, if_false, Bool.false_eq_true,
        Option.map_none]
      exact ⟨trivial, h⟩

/-- A call is answered alike by a list and the queue that it stands for, and the list stands for
the queue after the call. -/
theorem Represents.perform (h : Represents a q) (c : QueueCall δ) :
    (a.perform c).1 = (q.perform c).1 ∧ Represents (a.perform c).2 (q.perform c).2 := by
  cases c with
  | allocate =>
    have hid : a.lastId + 1 = q.lastId + 1 := congrArg (· + 1) h.lastId_eq
    exact ⟨congrArg QueueReply.allocated hid, h.valid.congr rfl rfl rfl, h.entries_eq, hid⟩
  | insert id target interval deliver =>
    refine ⟨congrArg QueueReply.inserted ?_, h.insert id target interval deliver⟩
    exact (h.any_id id).trans (EventQueue.insert_fst h.valid id target interval deliver).symm
  | remove id => exact ⟨congrArg QueueReply.removed (h.find_id id), h.remove id⟩
  | popDue limit => exact h.popDue limit
  | clear =>
    refine ⟨congrArg QueueReply.cleared ?_, EventQueue.valid_clear q, ?_, h.lastId_eq⟩
    · rw [h.entries_eq, List.length_map, EventQueue.length_events]
      rfl
    · exact (congrArg (List.map Event.entry) (EventQueue.events_clear q)).symm
  | size =>
    refine ⟨congrArg QueueReply.size ?_, h⟩
    rw [h.entries_eq, List.length_map, EventQueue.length_events]
  | nextDeadline =>
    refine ⟨congrArg QueueReply.nextDeadline ?_, h⟩
    rw [EventQueue.nextDeadline_eq h.valid, h.entries_eq, List.head?_map, Option.map_map]
    rfl

theorem Represents.replies_eq (h : Represents a q) (cs : List (QueueCall δ)) :
    QueueCall.replies Agenda.perform a cs = QueueCall.replies EventQueue.perform q cs := by
  induction cs generalizing a q with
  | nil => rfl
  | cons c cs ih =>
    obtain ⟨hreply, hnext⟩ := h.perform c
    rw [QueueCall.replies, QueueCall.replies, hreply, ih hnext]

end Agenda

/-- Every sequence of calls on a new queue is answered as by the plain list. -/
theorem EventQueue.replies_eq_agenda (cs : List (QueueCall δ)) :
    QueueCall.replies EventQueue.perform ({} : EventQueue δ) cs =
      QueueCall.replies Agenda.perform ({} : Agenda δ) cs :=
  (Agenda.represents_empty.replies_eq cs).symm

end VirtualClock
