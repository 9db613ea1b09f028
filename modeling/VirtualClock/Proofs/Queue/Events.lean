import Mathlib.Data.List.TakeWhile
import VirtualClock.Proofs.Queue

/-! The pending events of a queue as one list, in the order in which they fire. A list in that order
with the same members is the same list, so what each operation does to the members says what it
does to the list. -/

namespace VirtualClock

variable {δ : Type}

namespace OrderKey

theorem lt_trans {a b c : OrderKey} (hab : a < b) (hbc : b < c) : a < c := by
  rw [lt_iff_nanos] at *
  omega

theorem lt_asymm {a b : OrderKey} (hab : a < b) : ¬b < a := by
  rw [lt_iff_nanos] at *
  omega

end OrderKey

namespace EventQueue

/-- The pending events, earliest first. -/
def events (q : EventQueue δ) : List (Event δ) := q.pending.toList.map (·.2)

/-- A list of events in the order in which they fire. -/
def InOrder (l : List (Event δ)) : Prop := l.Pairwise fun e x => e.key < x.key

theorem mem_events {q : EventQueue δ} (h : Valid q) {e : Event δ} : e ∈ q.events ↔ e ∈ q := by
  simp only [events, List.mem_map, Prod.exists, exists_eq_right,
    Std.TreeMap.mem_toList_iff_getElem?_eq_some]
  constructor
  · rintro ⟨k, hk⟩
    rw [mem_iff, h.key_eq hk]
    exact hk
  · intro he
    exact ⟨e.key, he⟩

theorem inOrder_events {q : EventQueue δ} (h : Valid q) : InOrder q.events := by
  have hkeys := Std.TreeMap.ordered_keys_toList (t := q.pending)
  rw [InOrder, events, List.pairwise_map]
  refine hkeys.imp_of_mem fun {a b} ha hb hlt => ?_
  have hka := h.key_eq (Std.TreeMap.mem_toList_iff_getElem?_eq_some.mp ha)
  have hkb := h.key_eq (Std.TreeMap.mem_toList_iff_getElem?_eq_some.mp hb)
  rw [hka, hkb]
  exact OrderKey.compare_lt_iff.mp hlt

theorem length_events (q : EventQueue δ) : q.events.length = q.size := by
  simp [events, size]

theorem InOrder.nodup {l : List (Event δ)} (h : InOrder l) : l.Nodup := by
  refine h.imp fun {a b} hlt => ?_
  rintro rfl
  exact OrderKey.lt_asymm hlt hlt

/-- There is one list in order of given members. -/
theorem InOrder.eq_of_mem_iff {l l' : List (Event δ)} (h : InOrder l) (h' : InOrder l')
    (hmem : ∀ e, e ∈ l ↔ e ∈ l') : l = l' := by
  have hperm := (List.perm_ext_iff_of_nodup h.nodup h'.nodup).mpr hmem
  refine hperm.eq_of_pairwise (fun a b _ _ hab hba => ?_) h h'
  exact absurd hba (OrderKey.lt_asymm hab)

theorem events_eq {q : EventQueue δ} (h : Valid q) {l : List (Event δ)} (hl : InOrder l)
    (hmem : ∀ e, e ∈ l ↔ e ∈ q) : q.events = l :=
  (inOrder_events h).eq_of_mem_iff hl fun e => (mem_events h).trans (hmem e).symm

/-- In whatever order they are listed, the pending events are the same. -/
theorem events_perm {q : EventQueue δ} (h : Valid q) {l : List (Event δ)} (hl : l.Nodup)
    (hmem : ∀ e, e ∈ q ↔ e ∈ l) : q.events.Perm l :=
  (List.perm_ext_iff_of_nodup (inOrder_events h).nodup hl).mpr fun e =>
    (mem_events h).trans (hmem e)

theorem events_empty : ({} : EventQueue δ).events = [] :=
  events_eq valid_empty .nil (by simp [mem_iff])

theorem events_clear (q : EventQueue δ) : q.clear.2.events = [] :=
  events_eq (valid_clear q) .nil fun e => by simp [mem_clear]

theorem events_remove {q : EventQueue δ} (h : Valid q) (id : Nat) :
    (q.remove id).2.events = q.events.filter (·.id ≠ id) := by
  refine events_eq (valid_remove h id) ((inOrder_events h).filter _) fun e => ?_
  simp [mem_remove h, mem_events h]

theorem events_without_head {q : EventQueue δ} (h : Valid q) {e : Event δ} {l : List (Event δ)}
    (hl : q.events = e :: l) : (q.without e).events = l := by
  have hsorted := inOrder_events h
  have hmem := fun x => mem_events h (e := x)
  rw [hl] at hsorted hmem
  have he : e ∈ q := (hmem e).mp List.mem_cons_self
  have hnotin := (List.nodup_cons.mp hsorted.nodup).1
  refine events_eq (valid_without h he) (List.pairwise_cons.mp hsorted).2 fun x => ?_
  rw [mem_without he, ← hmem, List.mem_cons]
  constructor
  · intro hx
    exact ⟨.inr hx, fun hxe => hnotin (hxe ▸ hx)⟩
  · rintro ⟨hx, hne⟩
    exact hx.resolve_left hne

/-- The event of an id is the one that the list holds for it. -/
theorem remove_fst {q : EventQueue δ} (h : Valid q) (id : Nat) :
    (q.remove id).1 = q.events.find? (·.id = id) := by
  obtain ⟨e, he, rfl, hr⟩ | ⟨hne, hr⟩ := remove_eq h id
  · rw [hr]
    cases hfound : q.events.find? (·.id = e.id) with
    | none =>
      have hne := List.find?_eq_none.mp hfound e ((mem_events h).mpr he)
      simp at hne
    | some x =>
      have hx := (mem_events h).mp (List.mem_of_find?_eq_some hfound)
      have hid : x.id = e.id := by simpa using List.find?_some hfound
      rw [h.eq_of_id hx he hid]
  · rw [hr]
    symm
    simpa [mem_events h] using hne

theorem first?_eq_head? {q : EventQueue δ} (h : Valid q) : q.first? = q.events.head? := by
  have hsorted := inOrder_events h
  have hmem := fun e => mem_events h (e := e)
  cases hevents : q.events with
  | nil =>
    cases hfirst : q.first? with
    | none => rfl
    | some e =>
      have := (hmem e).mpr (first?_eq_some h hfirst).1
      simp [hevents] at this
  | cons x l =>
    rw [hevents] at hsorted hmem
    have hx : x ∈ q := (hmem x).mp List.mem_cons_self
    cases hfirst : q.first? with
    | none => exact absurd hx (first?_eq_none hfirst)
    | some e =>
      obtain ⟨he, -, hleast⟩ := first?_eq_some h hfirst
      obtain rfl | hl := List.mem_cons.mp ((hmem e).mpr he)
      · rfl
      · have hlt := List.rel_of_pairwise_cons hsorted hl
        by_cases heq : x = e
        · rw [heq]
          rfl
        · exact absurd hlt (OrderKey.lt_asymm (hleast x hx heq))

theorem nextDeadline_eq {q : EventQueue δ} (h : Valid q) :
    q.nextDeadline = q.events.head?.map (·.target) := by
  rw [← first?_eq_head? h, nextDeadline]
  cases hfirst : q.first? with
  | none =>
    cases hmin : q.pending.minKey? with
    | none => rfl
    | some k =>
      have hk := (Std.TreeMap.minKey?_eq_some_iff_mem_and_forall.mp hmin).1
      obtain ⟨e, he⟩ := Option.isSome_iff_exists.mp (Std.TreeMap.mem_iff_isSome_getElem?.mp hk)
      rw [first?, hmin, Option.bind_some, he] at hfirst
      cases hfirst
  | some e =>
    obtain ⟨-, hmin, -⟩ := first?_eq_some h hfirst
    rw [hmin]
    rfl

/-- In a list in order the events that are not later than `t` come first. -/
theorem InOrder.lt_of_mem_dropWhile {l : List (Event δ)} (h : InOrder l) {t : Instant}
    {x : Event δ} (hx : x ∈ l.dropWhile (·.target ≤ t)) : t < x.target := by
  induction l with
  | nil => simp at hx
  | cons y l ih =>
    obtain ⟨hy, hl⟩ := List.pairwise_cons.mp h
    by_cases hle : y.target ≤ t
    · rw [List.dropWhile_cons_of_pos (by simpa using hle)] at hx
      exact ih hl hx
    · rw [List.dropWhile_cons_of_neg (by simpa using hle)] at hx
      rw [Instant.le_def] at hle
      rw [Instant.lt_def]
      obtain rfl | hx := List.mem_cons.mp hx
      · omega
      · have hkey := OrderKey.lt_iff_nanos.mp (hy x hx)
        simp only [Event.key] at hkey
        omega

/-- An event with a fresh sequence number comes after the events that are not later. -/
theorem InOrder.insert {l : List (Event δ)} (h : InOrder l) {e : Event δ}
    (hfresh : ∀ x ∈ l, x.sequence < e.sequence) :
    InOrder (l.takeWhile (·.target ≤ e.target) ++ e :: l.dropWhile (·.target ≤ e.target)) := by
  have hbefore : ∀ x ∈ l.takeWhile (·.target ≤ e.target), x.key < e.key := by
    intro x hx
    have hle : x.target ≤ e.target := by simpa using List.mem_takeWhile_imp hx
    have hseq := hfresh x ((List.takeWhile_sublist _).subset hx)
    rw [Instant.le_def] at hle
    rw [OrderKey.lt_iff_nanos]
    simp only [Event.key]
    omega
  have hafter : ∀ x ∈ l.dropWhile (·.target ≤ e.target), e.key < x.key := by
    intro x hx
    exact .inl (h.lt_of_mem_dropWhile hx)
  have hl := h.sublist (List.takeWhile_sublist (·.target ≤ e.target))
  have hr := h.sublist (List.dropWhile_sublist (·.target ≤ e.target))
  rw [InOrder, List.pairwise_append]
  refine ⟨hl, List.pairwise_cons.mpr ⟨hafter, hr⟩, ?_⟩
  intro x hx y hy
  obtain rfl | hy := List.mem_cons.mp hy
  · exact hbefore x hx
  · exact OrderKey.lt_trans (hbefore x hx) (hafter y hy)

/-- An event that is queued comes after the pending events that are not later. -/
theorem events_push {q : EventQueue δ} (h : Valid q) {e : Event δ} (hid : ∀ x ∈ q, x.id ≠ e.id) :
    (q.push e).events = q.events.takeWhile (·.target ≤ e.target) ++
      e.withSequence (q.sequence + 1) :: q.events.dropWhile (·.target ≤ e.target) := by
  have hfresh : ∀ x ∈ q.events, x.sequence < q.sequence + 1 := by
    intro x hx
    exact Nat.lt_succ_of_le (h.sequence_le ((mem_events h).mp hx))
  have horder := (inOrder_events h).insert (e := e.withSequence (q.sequence + 1)) hfresh
  refine events_eq (valid_push h hid) horder fun x => ?_
  have hsplit : x ∈ q.events ↔ x ∈ q.events.takeWhile (·.target ≤ e.target) ∨
      x ∈ q.events.dropWhile (·.target ≤ e.target) := by
    rw [← List.mem_append, List.takeWhile_append_dropWhile]
  rw [mem_push h, ← mem_events h, hsplit, List.mem_append, List.mem_cons, or_assoc]
  exact or_congr_right or_comm

end EventQueue

end VirtualClock
