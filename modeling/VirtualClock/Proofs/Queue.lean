import Std.Data.TreeMap.Lemmas
import VirtualClock.Queue

/-! What is pending in a queue: the events that each operation adds and takes away, and `Valid`,
the agreement of the map and the index that every operation keeps. Other modules know a queue by
the events in it, not by its maps. -/

namespace VirtualClock

variable {δ : Type}

namespace OrderKey

/-- An earlier target comes first, and within one target the earlier insertion. -/
instance : LT OrderKey :=
  ⟨fun a b => a.target < b.target ∨ a.target = b.target ∧ a.sequence < b.sequence⟩

theorem lt_def {a b : OrderKey} :
    a < b ↔ a.target < b.target ∨ a.target = b.target ∧ a.sequence < b.sequence := Iff.rfl

theorem lt_iff_nanos {a b : OrderKey} :
    a < b ↔ a.target.nanos < b.target.nanos ∨
      a.target.nanos = b.target.nanos ∧ a.sequence < b.sequence := by
  rw [lt_def, Instant.lt_def]
  constructor
  · rintro (h | ⟨h, h'⟩)
    · exact .inl h
    · exact .inr ⟨by rw [h], h'⟩
  · rintro (h | ⟨h, h'⟩)
    · exact .inl h
    · exact .inr ⟨Instant.ext h, h'⟩

theorem isLE_iff {a b : OrderKey} : (compare a b).isLE ↔ a = b ∨ a < b := by
  rw [Ordering.isLE_iff_eq_lt_or_eq_eq, Std.LawfulEqOrd.compare_eq_iff_eq, compare_lt_iff, lt_def]
  exact or_comm

end OrderKey

namespace Event

/-- What is handed out when the event falls due. -/
def firing (e : Event δ) : Firing δ := ⟨e.id, e.target, e.deliver⟩

/-- The next tick of a ticker, if its instant is representable; a one-shot has none. -/
def next? (e : Event δ) : Option (Event δ) :=
  if e.isTicker then (e.target.add? e.interval).map ({ e with target := · }) else none

/-- The event under the sequence number `n`. -/
def withSequence (e : Event δ) (n : Nat) : Event δ := { e with sequence := n }

theorem next?_eq_some {e e' : Event δ} (h : e.next? = some e') :
    e'.id = e.id ∧ e'.interval = e.interval ∧ e'.deliver = e.deliver ∧
      e'.target.nanos = e.target.nanos + e.interval.nanos ∧ 0 < e.interval.nanos := by
  unfold next? at h
  split at h
  · rename_i hTicker
    obtain ⟨t, ht, rfl⟩ := Option.map_eq_some_iff.mp h
    exact ⟨rfl, rfl, rfl, Instant.add?_eq_some.mp ht, by simpa [isTicker] using hTicker⟩
  · cases h

theorem next?_eq_none {e : Event δ} (h : e.interval = .zero) : e.next? = none := by
  simp [next?, isTicker, h, Delay.zero]

end Event

namespace EventQueue

/-- An event is in a queue if it is pending under its own key. -/
instance : Membership (Event δ) (EventQueue δ) := ⟨fun q e => q.pending[e.key]? = some e⟩

theorem mem_iff {q : EventQueue δ} {e : Event δ} : e ∈ q ↔ q.pending[e.key]? = some e := Iff.rfl

/-- The map and the index of a queue agree: every event is pending under its own key, the index
leads from every id to its one pending event, and no two events share a sequence number, of which
none is above the last one drawn. -/
structure Valid (q : EventQueue δ) : Prop where
  key_eq : ∀ {k} {e : Event δ}, q.pending[k]? = some e → e.key = k
  index_iff : ∀ {id k}, q.index[id]? = some k ↔ ∃ e ∈ q, e.id = id ∧ e.key = k
  sequence_le : ∀ {e : Event δ}, e ∈ q → e.sequence ≤ q.sequence
  sequence_inj : ∀ {e e' : Event δ}, e ∈ q → e' ∈ q → e.sequence = e'.sequence → e = e'

theorem valid_empty : Valid ({} : EventQueue δ) where
  key_eq h := by simp at h
  index_iff := by simp [mem_iff]
  sequence_le h := by simp [mem_iff] at h
  sequence_inj h := by simp [mem_iff] at h

/-- Waiters and the counter of ids play no part in validity. -/
theorem Valid.congr {q q' : EventQueue δ} (h : Valid q) (hp : q'.pending = q.pending)
    (hi : q'.index = q.index) (hs : q'.sequence = q.sequence) : Valid q' := by
  obtain ⟨pending, index, sequence, _, _, _, _⟩ := q'
  obtain rfl : pending = q.pending := hp
  obtain rfl : index = q.index := hi
  obtain rfl : sequence = q.sequence := hs
  exact ⟨h.key_eq, h.index_iff, h.sequence_le, h.sequence_inj⟩

theorem eq_of_key {q : EventQueue δ} {e e' : Event δ} (he : e ∈ q) (he' : e' ∈ q)
    (hk : e.key = e'.key) : e = e' := by
  rw [mem_iff, hk] at he
  exact Option.some.inj (he.symm.trans he')

theorem Valid.eq_of_id {q : EventQueue δ} (h : Valid q) {e e' : Event δ} (he : e ∈ q) (he' : e' ∈ q)
    (hid : e.id = e'.id) : e = e' := by
  have h1 := h.index_iff.mpr ⟨e, he, rfl, rfl⟩
  have h2 := h.index_iff.mpr ⟨e', he', rfl, rfl⟩
  rw [hid] at h1
  exact eq_of_key he he' (Option.some.inj (h1.symm.trans h2))

theorem isPending_iff {q : EventQueue δ} (h : Valid q) {id : Nat} :
    q.isPending id ↔ ∃ e ∈ q, e.id = id := by
  rw [isPending, Std.TreeMap.contains_eq_isSome_getElem?, Option.isSome_iff_exists]
  constructor
  · rintro ⟨k, hk⟩
    obtain ⟨e, he, hid, -⟩ := h.index_iff.mp hk
    exact ⟨e, he, hid⟩
  · rintro ⟨e, he, hid⟩
    exact ⟨e.key, h.index_iff.mpr ⟨e, he, hid, rfl⟩⟩

/-! ### Taking an event off -/

/-- The queue without the event `e`. -/
def without (q : EventQueue δ) (e : Event δ) : EventQueue δ :=
  { q with pending := q.pending.erase e.key, index := q.index.erase e.id }

theorem mem_without {q : EventQueue δ} {e x : Event δ} (he : e ∈ q) :
    x ∈ q.without e ↔ x ∈ q ∧ x ≠ e := by
  simp only [mem_iff, without, Std.TreeMap.getElem?_erase, Std.LawfulEqOrd.compare_eq_iff_eq]
  constructor
  · intro hx
    split at hx
    · cases hx
    · exact ⟨hx, by rintro rfl; contradiction⟩
  · rintro ⟨hx, hne⟩
    rw [if_neg fun hk => hne (eq_of_key he hx hk).symm]
    exact hx

theorem mem_without_iff_id {q : EventQueue δ} (h : Valid q) {e x : Event δ} (he : e ∈ q) :
    x ∈ q.without e ↔ x ∈ q ∧ x.id ≠ e.id := by
  rw [mem_without he]
  refine and_congr_right fun hx => not_congr ⟨fun hxe => by rw [hxe], h.eq_of_id hx he⟩

theorem valid_without {q : EventQueue δ} (h : Valid q) {e : Event δ} (he : e ∈ q) :
    Valid (q.without e) where
  key_eq hk := by
    rw [without, Std.TreeMap.getElem?_erase] at hk
    split at hk
    · cases hk
    · exact h.key_eq hk
  index_iff {id k} := by
    have hmem (x : Event δ) := mem_without_iff_id h (x := x) he
    simp only [without, Std.TreeMap.getElem?_erase, Std.LawfulEqOrd.compare_eq_iff_eq]
    split
    · rename_i hid
      subst hid
      simp only [reduceCtorEq, false_iff, not_exists, not_and]
      intro x hx hxid
      exact absurd hxid ((hmem x).mp hx).2
    · rename_i hid
      rw [h.index_iff]
      constructor
      · rintro ⟨x, hx, rfl, hk⟩
        exact ⟨x, (hmem x).mpr ⟨hx, Ne.symm hid⟩, rfl, hk⟩
      · rintro ⟨x, hx, hxid, hk⟩
        exact ⟨x, ((hmem x).mp hx).1, hxid, hk⟩
  sequence_le hx := h.sequence_le ((mem_without he).mp hx).1
  sequence_inj hx hx' :=
    h.sequence_inj ((mem_without he).mp hx).1 ((mem_without he).mp hx').1

/-- Removing takes off the pending event of the id, if there is one. -/
theorem remove_eq {q : EventQueue δ} (h : Valid q) (id : Nat) :
    (∃ e ∈ q, e.id = id ∧ q.remove id = (some e, q.without e)) ∨
      (∀ e ∈ q, e.id ≠ id) ∧ q.remove id = (none, q) := by
  unfold remove
  split
  · rename_i hk
    refine .inr ⟨fun e he hid => ?_, rfl⟩
    rw [h.index_iff.mpr ⟨e, he, hid, rfl⟩] at hk
    cases hk
  · rename_i k hk
    obtain ⟨e, he, rfl, rfl⟩ := h.index_iff.mp hk
    exact .inl ⟨e, he, rfl, by rw [mem_iff.mp he]; rfl⟩

theorem remove_fst_isSome {q : EventQueue δ} (h : Valid q) (id : Nat) :
    (q.remove id).1.isSome = q.isPending id := by
  rw [Bool.eq_iff_iff, isPending_iff h]
  obtain ⟨e, he, hid, hr⟩ | ⟨hne, hr⟩ := remove_eq h id
  · simpa [hr] using ⟨e, he, hid⟩
  · simpa [hr] using hne

theorem mem_remove {q : EventQueue δ} (h : Valid q) {id : Nat} {x : Event δ} :
    x ∈ (q.remove id).2 ↔ x ∈ q ∧ x.id ≠ id := by
  obtain ⟨e, he, rfl, hr⟩ | ⟨hne, hr⟩ := remove_eq h id
  · rw [hr]; exact mem_without_iff_id h he
  · rw [hr]; exact ⟨fun hx => ⟨hx, hne x hx⟩, And.left⟩

theorem valid_remove {q : EventQueue δ} (h : Valid q) (id : Nat) : Valid (q.remove id).2 := by
  obtain ⟨e, he, -, hr⟩ | ⟨-, hr⟩ := remove_eq h id
  · rw [hr]; exact valid_without h he
  · rw [hr]; exact h

theorem sequence_remove (q : EventQueue δ) (id : Nat) :
    (q.remove id).2.sequence = q.sequence := by
  unfold remove
  split <;> rfl

theorem lastId_remove (q : EventQueue δ) (id : Nat) : (q.remove id).2.lastId = q.lastId := by
  unfold remove
  split <;> rfl

/-! ### Queueing an event -/

theorem mem_notify {q : EventQueue δ} {x : Event δ} : x ∈ q.notify ↔ x ∈ q := Iff.rfl

theorem valid_notify {q : EventQueue δ} (h : Valid q) : Valid q.notify := h.congr rfl rfl rfl

theorem mem_push {q : EventQueue δ} (h : Valid q) {e x : Event δ} :
    x ∈ q.push e ↔ x ∈ q ∨ x = e.withSequence (q.sequence + 1) := by
  simp only [mem_iff, push, Std.TreeMap.getElem?_insert, Std.LawfulEqOrd.compare_eq_iff_eq]
  split
  · rename_i hk
    rw [Option.some.injEq]
    refine ⟨fun hx => .inr hx.symm, fun hx => ?_⟩
    cases hx with
    | inl hx =>
      -- No pending event has the fresh sequence number.
      have hle := h.sequence_le hx
      have hs : q.sequence + 1 = x.sequence := congrArg OrderKey.sequence hk
      omega
    | inr hx => exact hx.symm
  · rename_i hk
    exact ⟨.inl, fun hx => hx.elim id fun hx => absurd (by rw [hx]; rfl) hk⟩

theorem valid_push {q : EventQueue δ} (h : Valid q) {e : Event δ} (hid : ∀ x ∈ q, x.id ≠ e.id) :
    Valid (q.push e) where
  key_eq hk := by
    simp only [push, Std.TreeMap.getElem?_insert, Std.LawfulEqOrd.compare_eq_iff_eq] at hk
    split at hk
    · rename_i hkey
      rw [← Option.some.inj hk]
      exact hkey
    · exact h.key_eq hk
  index_iff {id k} := by
    have hmem (x : Event δ) := mem_push h (e := e) (x := x)
    simp only [push, Std.TreeMap.getElem?_insert, Std.LawfulEqOrd.compare_eq_iff_eq]
    split
    · rename_i heq
      rw [Option.some.injEq]
      constructor
      · rintro rfl
        exact ⟨e.withSequence (q.sequence + 1), (hmem _).mpr (.inr rfl), heq, rfl⟩
      · rintro ⟨x, hx, hxid, hk⟩
        obtain hx | rfl := (hmem x).mp hx
        · exact absurd (hxid.trans heq.symm) (hid x hx)
        · exact hk
    · rename_i hne
      rw [h.index_iff]
      constructor
      · rintro ⟨x, hx, hxid, hk⟩
        exact ⟨x, (hmem x).mpr (.inl hx), hxid, hk⟩
      · rintro ⟨x, hx, hxid, hk⟩
        obtain hx | rfl := (hmem x).mp hx
        · exact ⟨x, hx, hxid, hk⟩
        · exact absurd hxid hne
  sequence_le {x} hx := by
    obtain hx | rfl := (mem_push h).mp hx
    · exact Nat.le_succ_of_le (h.sequence_le hx)
    · exact Nat.le_refl _
  sequence_inj {x x'} hx hx' hs := by
    obtain hx | rfl := (mem_push h).mp hx <;> obtain hx' | rfl := (mem_push h).mp hx'
    · exact h.sequence_inj hx hx' hs
    · have hle := h.sequence_le hx
      rw [hs] at hle
      exact absurd hle (Nat.not_succ_le_self _)
    · have hle := h.sequence_le hx'
      rw [← hs] at hle
      exact absurd hle (Nat.not_succ_le_self _)
    · rfl

theorem insert_fst {q : EventQueue δ} (h : Valid q) (id : Nat) (target : Instant)
    (interval : Delay) (deliver : δ) :
    (q.insert id target interval deliver).1 = q.isPending id :=
  remove_fst_isSome h id

theorem mem_insert {q : EventQueue δ} (h : Valid q) {id : Nat} {target : Instant}
    {interval : Delay} {deliver : δ} {x : Event δ} :
    x ∈ (q.insert id target interval deliver).2 ↔
      x ∈ q ∧ x.id ≠ id ∨ x = ⟨id, target, q.sequence + 1, interval, deliver⟩ := by
  rw [insert, mem_notify, mem_push (valid_remove h id), mem_remove h, sequence_remove]
  rfl

theorem valid_insert {q : EventQueue δ} (h : Valid q) (id : Nat) (target : Instant)
    (interval : Delay) (deliver : δ) : Valid (q.insert id target interval deliver).2 :=
  valid_notify (valid_push (valid_remove h id) fun _ hx => ((mem_remove h).mp hx).2)

theorem sequence_insert (q : EventQueue δ) (id : Nat) (target : Instant) (interval : Delay)
    (deliver : δ) : (q.insert id target interval deliver).2.sequence = q.sequence + 1 :=
  congrArg (· + 1) (sequence_remove q id)

theorem size_push {q : EventQueue δ} (h : Valid q) (e : Event δ) :
    (q.push e).size = q.size + 1 := by
  have hfresh : (e.withSequence (q.sequence + 1)).key ∉ q.pending := by
    rw [Std.TreeMap.mem_iff_isSome_getElem?, Option.isSome_iff_exists]
    rintro ⟨x, hx⟩
    have hkey := h.key_eq hx
    have hle := h.sequence_le (e := x) (by rw [mem_iff, hkey]; exact hx)
    have hs : x.sequence = q.sequence + 1 := congrArg OrderKey.sequence hkey
    omega
  exact Std.TreeMap.size_insert.trans (if_neg hfresh)

/-- A new event is one more. -/
theorem size_insert {q : EventQueue δ} (h : Valid q) {id : Nat} (hid : ∀ e ∈ q, e.id ≠ id)
    (target : Instant) (interval : Delay) (deliver : δ) :
    (q.insert id target interval deliver).2.size = q.size + 1 := by
  obtain ⟨e, he, heq, -⟩ | ⟨-, hr⟩ := remove_eq h id
  · exact absurd heq (hid e he)
  · rw [insert, hr]
    exact size_push h _

theorem lastId_insert (q : EventQueue δ) (id : Nat) (target : Instant) (interval : Delay)
    (deliver : δ) : (q.insert id target interval deliver).2.lastId = q.lastId :=
  lastId_remove q id

/-! ### The earliest event -/

/-- The pending event under the least key. -/
def first? (q : EventQueue δ) : Option (Event δ) := q.pending.minKey?.bind (q.pending[·]?)

theorem first?_eq_some {q : EventQueue δ} (h : Valid q) {e : Event δ} (he : q.first? = some e) :
    e ∈ q ∧ q.pending.minKey? = some e.key ∧ ∀ x ∈ q, x ≠ e → e.key < x.key := by
  obtain ⟨k, hk, hke⟩ := Option.bind_eq_some_iff.mp he
  obtain rfl := h.key_eq hke
  refine ⟨hke, hk, fun x hx hne => ?_⟩
  have hmem : x.key ∈ q.pending := by
    rw [Std.TreeMap.mem_iff_isSome_getElem?, mem_iff.mp hx]
    rfl
  obtain heq | hlt :=
    OrderKey.isLE_iff.mp ((Std.TreeMap.minKey?_eq_some_iff_mem_and_forall.mp hk).2 _ hmem)
  · exact absurd (eq_of_key hx hke heq.symm) hne
  · exact hlt

theorem first?_eq_none {q : EventQueue δ} (he : q.first? = none) {e : Event δ} : e ∉ q := by
  intro hmem
  have hin : e.key ∈ q.pending := by
    rw [Std.TreeMap.mem_iff_isSome_getElem?, mem_iff.mp hmem]
    rfl
  obtain ⟨k, hk⟩ := Option.isSome_iff_exists.mp (Std.TreeMap.isSome_minKey?_of_mem hin)
  have hin' := (Std.TreeMap.minKey?_eq_some_iff_mem_and_forall.mp hk).1
  rw [Std.TreeMap.mem_iff_isSome_getElem?] at hin'
  rw [first?, hk, Option.bind_some] at he
  rw [he] at hin'
  cases hin'

/-- Popping takes off the earliest event if it is due, and queues the next tick of a ticker. -/
theorem popDue_eq {q : EventQueue δ} (h : Valid q) (limit : Instant) :
    q.popDue limit = (q.first?.filter (·.target ≤ limit)).map
      fun e => (e.firing, (q.without e).requeue e) := by
  unfold popDue first?
  split
  · rename_i hk
    rw [hk]
    rfl
  · rename_i k hk
    rw [hk, Option.bind_some]
    cases he : q.pending[k]? with
    | none => split <;> rfl
    | some e =>
      obtain rfl := h.key_eq he
      rw [Option.filter_some]
      by_cases hlt : limit < e.key.target
      · have hle : ¬e.target ≤ limit := by
          rw [Instant.le_def]
          exact Int.not_le.mpr hlt
        simp [hlt, hle]
      · have hle : e.target ≤ limit := by
          rw [Instant.le_def]
          exact Int.not_lt.mp hlt
        simp [hlt, hle, Event.firing, without]

theorem popDue_eq_none {q : EventQueue δ} (h : Valid q) {limit : Instant}
    (hp : q.popDue limit = none) {e : Event δ} (he : e ∈ q) : limit < e.target := by
  rw [popDue_eq h, Option.map_eq_none_iff, Option.filter_eq_none_iff] at hp
  cases hf : q.first? with
  | none => exact absurd he (first?_eq_none hf)
  | some first =>
    have hlt : limit.nanos < first.target.nanos := by simpa [Instant.le_def] using hp first hf
    obtain ⟨-, -, hleast⟩ := first?_eq_some h hf
    by_cases heq : e = first
    · rw [heq]; exact hlt
    · have hkey := OrderKey.lt_iff_nanos.mp (hleast e he heq)
      rw [Instant.lt_def]
      simp only [Event.key] at hkey
      omega

theorem popDue_eq_some {q q' : EventQueue δ} (h : Valid q) {limit : Instant} {f : Firing δ}
    (hp : q.popDue limit = some (f, q')) :
    ∃ e, q.first? = some e ∧ e.target ≤ limit ∧ f = e.firing ∧ q' = (q.without e).requeue e := by
  rw [popDue_eq h] at hp
  obtain ⟨e, he, heq⟩ := Option.map_eq_some_iff.mp hp
  obtain ⟨hf, hle⟩ := Option.filter_eq_some_iff.mp he
  cases heq
  exact ⟨e, hf, by simpa using hle, rfl, rfl⟩

theorem requeue_eq (q : EventQueue δ) (e : Event δ) :
    q.requeue e = (e.next?.map fun e' => (q.push e').notify).getD q := by
  unfold requeue Event.next?
  split
  · cases e.target.add? e.interval <;> rfl
  · rfl

theorem mem_requeue {q : EventQueue δ} (h : Valid q) {e x : Event δ} :
    x ∈ q.requeue e ↔
      x ∈ q ∨ ∃ e', e.next? = some e' ∧ x = e'.withSequence (q.sequence + 1) := by
  rw [requeue_eq]
  cases he : e.next? with
  | none => simp
  | some e' => simpa using mem_notify.trans (mem_push h)

theorem valid_requeue {q : EventQueue δ} (h : Valid q) {e : Event δ} (hid : ∀ x ∈ q, x.id ≠ e.id) :
    Valid (q.requeue e) := by
  rw [requeue_eq]
  cases he : e.next? with
  | none => exact h
  | some e' =>
    exact valid_notify (valid_push h fun x hx => (Event.next?_eq_some he).1 ▸ hid x hx)

theorem sequence_requeue (q : EventQueue δ) (e : Event δ) :
    (q.requeue e).sequence = q.sequence + e.next?.toList.length := by
  rw [requeue_eq]
  cases e.next? <;> rfl

/-- What is pending after the event `e` was popped: every other event, and the next tick of `e`. -/
theorem mem_popped {q : EventQueue δ} (h : Valid q) {e x : Event δ} (he : e ∈ q) :
    x ∈ (q.without e).requeue e ↔
      x ∈ q ∧ x ≠ e ∨ ∃ e', e.next? = some e' ∧ x = e'.withSequence (q.sequence + 1) := by
  rw [mem_requeue (valid_without h he), mem_without he]
  rfl

theorem valid_popped {q : EventQueue δ} (h : Valid q) {e : Event δ} (he : e ∈ q) :
    Valid ((q.without e).requeue e) :=
  valid_requeue (valid_without h he) fun _ hx => ((mem_without_iff_id h he).mp hx).2

theorem mem_clear {q : EventQueue δ} {x : Event δ} : x ∉ q.clear.2 := by
  simp [mem_iff, clear]

theorem valid_clear (q : EventQueue δ) : Valid q.clear.2 where
  key_eq h := by simp [clear] at h
  index_iff := by simp [clear, mem_iff]
  sequence_le h := absurd h mem_clear
  sequence_inj h := absurd h mem_clear

end EventQueue

end VirtualClock
