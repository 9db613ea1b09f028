import Mathlib.Data.List.Sort
import VirtualClock.Scenario

/-! The schedule of a scenario: the firings of its timers that fall due within a total of
milliseconds, by due time. Firings due together are in the order in which their timers were armed,
which for a timer that was armed again is the order of the firings before. -/

namespace VirtualClock

/-- The firing of the timer at position `timer` of a scenario that comes after `round` others. -/
structure Occurrence where
  timer : Nat
  round : Nat
deriving DecidableEq

namespace Occurrence

/-- Milliseconds from the epoch to a firing. -/
def due (timers : List TimerSpec) (o : Occurrence) : Int :=
  match timers[o.timer]? with
  | none => 0
  | some t => max t.after 0 + o.round * t.period.getD 0

/-- A timer without a period fires once. -/
def Occurs (timers : List TimerSpec) (o : Occurrence) : Prop :=
  ∃ t, timers[o.timer]? = some t ∧ (o.round = 0 ∨ t.period.isSome)

/-- Whether the firing of timer `i` in one round comes before that of timer `j` in another. -/
def precedes (timers : List TimerSpec) (i j : Nat) : Nat → Nat → Bool
  | 0, 0 =>
    due timers ⟨i, 0⟩ < due timers ⟨j, 0⟩ || (due timers ⟨i, 0⟩ == due timers ⟨j, 0⟩ && i < j)
  | 0, l + 1 => due timers ⟨i, 0⟩ ≤ due timers ⟨j, l + 1⟩
  | k + 1, 0 => due timers ⟨i, k + 1⟩ < due timers ⟨j, 0⟩
  | k + 1, l + 1 =>
    due timers ⟨i, k + 1⟩ < due timers ⟨j, l + 1⟩ ||
      (due timers ⟨i, k + 1⟩ == due timers ⟨j, l + 1⟩ && precedes timers i j k l)

/-- The order of firings. -/
def Before (timers : List TimerSpec) (a b : Occurrence) : Prop :=
  precedes timers a.timer b.timer a.round b.round

instance (timers : List TimerSpec) (a b : Occurrence) : Decidable (Before timers a b) :=
  inferInstanceAs (Decidable (_ = true))

/-- How many firings of a timer fall due within `total`. -/
def rounds (total : Nat) (t : TimerSpec) : Nat :=
  if (total : Int) < max t.after 0 then 0
  else
    match t.period with
    | none => 1
    | some p => ((total - max t.after 0) / p).toNat + 1

/-- The firings that fall due within `total`, timer by timer. -/
def within (timers : List TimerSpec) (total : Nat) : List Occurrence :=
  (List.range timers.length).flatMap fun i =>
    (List.range ((timers[i]?.map (rounds total)).getD 0)).map (⟨i, ·⟩)

/-- The firings that fall due within `total`, in order. -/
def schedule (timers : List TimerSpec) (total : Nat) : List Occurrence :=
  (within timers total).insertionSort fun a b => ¬Before timers b a

/-- At one due time the first firings of timers come first, in the order of the scenario, and then
the later ones, in the order in which the firings before them stand in `l`. -/
def Tied (l : List Occurrence) (a b : Occurrence) : Prop :=
  match a.round, b.round with
  | 0, 0 => a.timer < b.timer
  | 0, _ + 1 => True
  | _ + 1, 0 => False
  | k + 1, m + 1 => l.idxOf ⟨a.timer, k⟩ < l.idxOf ⟨b.timer, m⟩

/-- A list of firings holds each one that falls due within `total` once, by due time. -/
structure IsSchedule (timers : List TimerSpec) (total : Nat) (l : List Occurrence) : Prop where
  nodup : l.Nodup
  mem_iff : ∀ o, o ∈ l ↔ Occurs timers o ∧ due timers o ≤ total
  ordered : l.Pairwise fun a b => due timers a < due timers b ∨
    due timers a = due timers b ∧ Tied l a b

variable {timers : List TimerSpec}

theorem due_eq {i : Nat} {t : TimerSpec} (h : timers[i]? = some t) (k : Nat) :
    due timers ⟨i, k⟩ = max t.after 0 + k * t.period.getD 0 := by
  rw [due, h]

/-! ### The order -/

theorem before_zero {i j : Nat} :
    Before timers ⟨i, 0⟩ ⟨j, 0⟩ ↔
      due timers ⟨i, 0⟩ < due timers ⟨j, 0⟩ ∨ due timers ⟨i, 0⟩ = due timers ⟨j, 0⟩ ∧ i < j := by
  simp [Before, precedes]

theorem before_zero_succ {i j l : Nat} :
    Before timers ⟨i, 0⟩ ⟨j, l + 1⟩ ↔ due timers ⟨i, 0⟩ ≤ due timers ⟨j, l + 1⟩ := by
  simp [Before, precedes]

theorem before_succ_zero {i j k : Nat} :
    Before timers ⟨i, k + 1⟩ ⟨j, 0⟩ ↔ due timers ⟨i, k + 1⟩ < due timers ⟨j, 0⟩ := by
  simp [Before, precedes]

theorem before_succ {i j k l : Nat} :
    Before timers ⟨i, k + 1⟩ ⟨j, l + 1⟩ ↔
      due timers ⟨i, k + 1⟩ < due timers ⟨j, l + 1⟩ ∨
        due timers ⟨i, k + 1⟩ = due timers ⟨j, l + 1⟩ ∧ Before timers ⟨i, k⟩ ⟨j, l⟩ := by
  simp [Before, precedes]

theorem due_le_of_before {a b : Occurrence} (h : Before timers a b) :
    due timers a ≤ due timers b := by
  obtain ⟨i, k⟩ := a
  obtain ⟨j, l⟩ := b
  cases k with
  | zero =>
    cases l with
    | zero => rw [before_zero] at h; omega
    | succ l => exact before_zero_succ.mp h
  | succ k =>
    cases l with
    | zero => rw [before_succ_zero] at h; omega
    | succ l => rw [before_succ] at h; omega

theorem before_of_due_lt {a b : Occurrence} (h : due timers a < due timers b) :
    Before timers a b := by
  obtain ⟨i, k⟩ := a
  obtain ⟨j, l⟩ := b
  cases k with
  | zero =>
    cases l with
    | zero => exact before_zero.mpr (.inl h)
    | succ l => exact before_zero_succ.mpr (Int.le_of_lt h)
  | succ k =>
    cases l with
    | zero => exact before_succ_zero.mpr h
    | succ l => exact before_succ.mpr (.inl h)

theorem before_irrefl (a : Occurrence) : ¬Before timers a a := by
  obtain ⟨i, k⟩ := a
  induction k with
  | zero => rw [before_zero]; omega
  | succ k ih =>
    rw [before_succ]
    rintro (h | ⟨-, h⟩)
    · omega
    · exact ih h

theorem before_trans {a b c : Occurrence} (hab : Before timers a b) (hbc : Before timers b c) :
    Before timers a c := by
  obtain ⟨i, k⟩ := a
  obtain ⟨j, l⟩ := b
  obtain ⟨h, m⟩ := c
  induction k generalizing l m with
  | zero =>
    have hle := due_le_of_before hab
    have hle' := due_le_of_before hbc
    cases m with
    | succ m => exact before_zero_succ.mpr (Int.le_trans hle hle')
    | zero =>
      cases l with
      | zero => rw [before_zero] at *; omega
      | succ l => rw [before_succ_zero] at hbc; rw [before_zero]; omega
  | succ k ih =>
    have hle := due_le_of_before hab
    have hle' := due_le_of_before hbc
    cases l with
    | zero =>
      rw [before_succ_zero] at hab
      exact before_of_due_lt (by omega)
    | succ l =>
      cases m with
      | zero =>
        rw [before_succ_zero] at hbc ⊢
        omega
      | succ m =>
        rw [before_succ] at hab hbc ⊢
        obtain hlt | ⟨heq, hab⟩ := hab
        · exact .inl (by omega)
        · obtain hlt | ⟨heq', hbc⟩ := hbc
          · exact .inl (by omega)
          · exact .inr ⟨heq.trans heq', ih l hab m hbc⟩

theorem before_or_before {a b : Occurrence} (h : a ≠ b) :
    Before timers a b ∨ Before timers b a := by
  obtain ⟨i, k⟩ := a
  obtain ⟨j, l⟩ := b
  induction k generalizing l with
  | zero =>
    cases l with
    | zero =>
      have hne : i ≠ j := fun hij => h (by rw [hij])
      rw [before_zero, before_zero]
      omega
    | succ l =>
      rw [before_zero_succ, before_succ_zero]
      omega
  | succ k ih =>
    cases l with
    | zero =>
      rw [before_zero_succ, before_succ_zero]
      omega
    | succ l =>
      obtain hlt | heq | hlt := Int.lt_trichotomy (due timers ⟨i, k + 1⟩) (due timers ⟨j, l + 1⟩)
      · exact .inl (before_of_due_lt hlt)
      · obtain hrec | hrec := ih l fun hkl => h (by cases hkl; rfl)
        · exact .inl (before_succ.mpr (.inr ⟨heq, hrec⟩))
        · exact .inr (before_succ.mpr (.inr ⟨heq.symm, hrec⟩))
      · exact .inr (before_of_due_lt hlt)

theorem nodup_of_pairwise {l : List Occurrence} (hl : l.Pairwise (Before timers)) : l.Nodup := by
  refine hl.imp fun {a b} hab => ?_
  rintro rfl
  exact before_irrefl a hab

theorem before_asymm {a b : Occurrence} (h : Before timers a b) : ¬Before timers b a :=
  fun h' => before_irrefl a (before_trans h h')

/-- In a list in order, the order is that of the places. -/
theorem idxOf_lt_of_before {l : List Occurrence} (hl : l.Pairwise (Before timers))
    {a b : Occurrence} (ha : a ∈ l) (hb : b ∈ l) (hab : Before timers a b) :
    l.idxOf a < l.idxOf b := by
  by_contra hle
  have hia := List.idxOf_lt_length_of_mem ha
  have hib := List.idxOf_lt_length_of_mem hb
  by_cases heq : l.idxOf b = l.idxOf a
  · have hsame : b = a := List.idxOf_inj hb |>.mp heq
    exact before_irrefl a (hsame ▸ hab)
  · have hba := List.pairwise_iff_getElem.mp hl (l.idxOf b) (l.idxOf a) hib hia (by omega)
    rw [List.getElem_idxOf, List.getElem_idxOf] at hba
    exact before_asymm hab hba

/-! ### The firings within a total -/

/-- Timers whose periods, if there are any, are positive. -/
def Periodic (timers : List TimerSpec) : Prop := ∀ t ∈ timers, ∀ p ∈ t.period, 1 ≤ p

theorem lt_rounds_iff {t : TimerSpec} (hp : ∀ p ∈ t.period, 1 ≤ p) {total k : Nat} :
    k < rounds total t ↔
      (k = 0 ∨ t.period.isSome) ∧ max t.after 0 + k * t.period.getD 0 ≤ total := by
  unfold rounds
  cases hperiod : t.period with
  | none =>
    simp only [Option.getD_none, Int.mul_zero, Int.add_zero, Option.isSome_none]
    split <;> simp <;> omega
  | some p =>
    have hpos : 1 ≤ p := hp p hperiod
    simp only [Option.getD_some, Option.isSome_some, or_true, true_and]
    split
    · have hk : 0 ≤ (k : Int) * p := Int.mul_nonneg (by omega) (by omega)
      omega
    · have hquot : 0 ≤ (total - max t.after 0) / p := Int.ediv_nonneg (by omega) (by omega)
      have hdiv := Int.le_ediv_iff_mul_le (a := k) (b := total - max t.after 0) (show 0 < p by omega)
      omega

theorem mem_within (hp : Periodic timers) {total : Nat} {o : Occurrence} :
    o ∈ within timers total ↔ Occurs timers o ∧ due timers o ≤ total := by
  obtain ⟨i, k⟩ := o
  have hmem : (⟨i, k⟩ : Occurrence) ∈ within timers total ↔
      k < (timers[i]?.map (rounds total)).getD 0 := by
    simp only [within, List.mem_flatMap, List.mem_range, List.mem_map, Occurrence.mk.injEq]
    constructor
    · rintro ⟨_, -, _, hk, rfl, rfl⟩
      exact hk
    · intro hk
      refine ⟨i, ?_, k, hk, rfl, rfl⟩
      by_contra hlen
      rw [List.getElem?_eq_none (by omega)] at hk
      exact absurd hk (Nat.not_lt_zero k)
  rw [hmem]
  cases ht : timers[i]? with
  | none => simp [Occurs, ht]
  | some t =>
    rw [Option.map_some, Option.getD_some, lt_rounds_iff (hp t (List.mem_of_getElem? ht)), due_eq ht]
    simp [Occurs, ht]

theorem nodup_within (timers : List TimerSpec) (total : Nat) : (within timers total).Nodup := by
  rw [within, List.nodup_flatMap]
  constructor
  · intro i _
    refine List.Nodup.map (fun k l hkl => ?_) List.nodup_range
    cases hkl
    rfl
  · refine List.nodup_range.imp fun {i j} hne o hi hj => ?_
    obtain ⟨k, -, rfl⟩ := List.mem_map.mp hi
    obtain ⟨l, -, heq⟩ := List.mem_map.mp hj
    cases heq
    exact hne rfl

/-! ### The schedule -/

theorem mem_schedule (hp : Periodic timers) {total : Nat} {o : Occurrence} :
    o ∈ schedule timers total ↔ Occurs timers o ∧ due timers o ≤ total := by
  rw [schedule, List.mem_insertionSort, mem_within hp]

theorem nodup_schedule (timers : List TimerSpec) (total : Nat) : (schedule timers total).Nodup :=
  (List.perm_insertionSort _ _).nodup_iff.mpr (nodup_within timers total)

theorem schedule_pairwise (timers : List TimerSpec) (total : Nat) :
    (schedule timers total).Pairwise (Before timers) := by
  have htotal : Std.Total fun a b : Occurrence => ¬Before timers b a :=
    ⟨fun a b => by
      by_cases h : Before timers b a
      · exact .inr (before_asymm h)
      · exact .inl h⟩
  have htrans : IsTrans Occurrence fun a b => ¬Before timers b a :=
    ⟨fun a b c hab hbc hca => by
      by_cases heq : a = b
      · exact hbc (heq ▸ hca)
      · exact hbc (before_trans hca ((before_or_before heq).resolve_right hab))⟩
  have hsorted := List.pairwise_insertionSort (fun a b => ¬Before timers b a) (within timers total)
  refine List.Pairwise.imp₂ (fun a b hle hne => ?_) hsorted (nodup_schedule timers total)
  exact (before_or_before hne).resolve_right hle

/-- A list of firings in order is the schedule if it holds the same ones. -/
theorem eq_schedule (hp : Periodic timers) {total : Nat} {l : List Occurrence}
    (hl : l.Pairwise (Before timers))
    (hmem : ∀ o, o ∈ l ↔ Occurs timers o ∧ due timers o ≤ total) : l = schedule timers total := by
  have hnodup : l.Nodup := nodup_of_pairwise hl
  have hperm : l.Perm (schedule timers total) := by
    rw [List.perm_ext_iff_of_nodup hnodup (nodup_schedule timers total)]
    intro o
    rw [hmem, mem_schedule hp]
  exact hperm.eq_of_pairwise (fun a b _ _ hab hba => absurd hba (before_asymm hab)) hl
    (schedule_pairwise timers total)

theorem occurs_of_succ {i k : Nat} (h : Occurs timers ⟨i, k + 1⟩) : Occurs timers ⟨i, k⟩ := by
  obtain ⟨t, ht, hk | hperiod⟩ := h
  · cases hk
  · exact ⟨t, ht, .inr hperiod⟩

theorem due_lt_succ (hp : Periodic timers) {i k : Nat} (h : Occurs timers ⟨i, k + 1⟩) :
    due timers ⟨i, k⟩ < due timers ⟨i, k + 1⟩ := by
  obtain ⟨t, ht, hk | hperiod⟩ := h
  · cases hk
  · obtain ⟨p, hp'⟩ := Option.isSome_iff_exists.mp hperiod
    have hpos := hp t (List.mem_of_getElem? ht) p hp'
    rw [due_eq ht, due_eq ht, hp', Option.getD_some, Int.natCast_succ, Int.add_mul]
    omega

/-- The earlier firings of a timer are due earlier. -/
theorem due_le_of_le (hp : Periodic timers) {i k l : Nat} (hle : k ≤ l)
    (h : Occurs timers ⟨i, l⟩) : Occurs timers ⟨i, k⟩ ∧ due timers ⟨i, k⟩ ≤ due timers ⟨i, l⟩ := by
  induction hle with
  | refl => exact ⟨h, Int.le_refl _⟩
  | step _ ih =>
    obtain ⟨hk, hdue⟩ := ih (occurs_of_succ h)
    exact ⟨hk, Int.le_trans hdue (Int.le_of_lt (due_lt_succ hp h))⟩

theorem isSchedule_schedule (hp : Periodic timers) (total : Nat) :
    IsSchedule timers total (schedule timers total) where
  nodup := nodup_schedule timers total
  mem_iff _ := mem_schedule hp
  ordered := by
    have hsorted := schedule_pairwise timers total
    refine hsorted.imp_of_mem fun {a b} ha hb hab => ?_
    obtain ⟨i, k⟩ := a
    obtain ⟨j, l⟩ := b
    cases k with
    | zero =>
      cases l with
      | zero => exact before_zero.mp hab
      | succ l =>
        have hle := before_zero_succ.mp hab
        exact (Int.lt_or_eq_of_le hle).imp_right fun heq => ⟨heq, trivial⟩
    | succ k =>
      cases l with
      | zero => exact .inl (before_succ_zero.mp hab)
      | succ l =>
        refine (before_succ.mp hab).imp_right fun ⟨heq, hprev⟩ => ⟨heq, ?_⟩
        -- The firings before are in the schedule too, since they are due earlier.
        have hearlier {i k : Nat} (h : (⟨i, k + 1⟩ : Occurrence) ∈ schedule timers total) :
            (⟨i, k⟩ : Occurrence) ∈ schedule timers total := by
          obtain ⟨hoccurs, hdue⟩ := (mem_schedule hp).mp h
          have hlt := due_lt_succ hp hoccurs
          exact (mem_schedule hp).mpr ⟨occurs_of_succ hoccurs, by omega⟩
        exact idxOf_lt_of_before hsorted (hearlier ha) (hearlier hb) hprev

end Occurrence

end VirtualClock
