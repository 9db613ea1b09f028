import Mathlib.Algebra.Group.Nat.Defs
import Mathlib.Data.List.Basic
import Mathlib.Data.List.Induction
import VirtualClock.Text.Blank
import VirtualClock.Text.Digits

/-! Runs of digits. What is written as a run of digits is read as the number it was written for, as
long as no further digit follows. -/

namespace VirtualClock.Text

/-- No digit comes next. -/
def Stops (rest : List Char) : Prop := ∀ c ∈ rest.head?, isDigit c = false

theorem stops_cons {c : Char} {rest : List Char} (h : isDigit c = false) : Stops (c :: rest) := by
  rintro _ ⟨⟩
  exact h

theorem Stops.takeWhile_eq_nil {rest : List Char} (h : Stops rest) : rest.takeWhile isDigit = [] := by
  cases rest with
  | nil => rfl
  | cons c rest => exact List.takeWhile_cons_of_neg (by simp [h c rfl])

theorem Stops.dropWhile_eq {rest : List Char} (h : Stops rest) : rest.dropWhile isDigit = rest := by
  cases rest with
  | nil => rfl
  | cons c rest => exact List.dropWhile_cons_of_neg (by simp [h c rfl])

/-- A whole run of digits is taken at once. -/
theorem spanDigits_run {most : Nat} {ds rest : List Char} (hds : ∀ c ∈ ds, isDigit c = true)
    (hrest : Stops rest) (hmost : ds.length ≤ most) : spanDigits most (ds ++ rest) = (ds, rest) := by
  have htake : ((ds ++ rest).takeWhile isDigit).take most = ds := by
    rw [List.takeWhile_append_of_pos hds, hrest.takeWhile_eq_nil, List.append_nil,
      List.take_of_length_le hmost]
  rw [spanDigits, htake, List.drop_left]

theorem isDigit_eq (c : Char) : isDigit c = c.isDigit := by
  rw [isDigit, Char.isDigit]
  rfl

theorem toNat_of_isDigit {c : Char} (h : isDigit c = true) : 48 ≤ c.toNat ∧ c.toNat ≤ 57 := by
  simpa [isDigit, Char.le_def, UInt32.le_iff_toNat_le] using h

theorem isBlank_of_isDigit {c : Char} (h : isDigit c = true) : isBlank c = false := by
  have := toNat_of_isDigit h
  simp only [isBlank, Bool.or_eq_false_iff, Bool.and_eq_false_iff, decide_eq_false_iff_not,
    beq_eq_false_iff_ne]
  omega

theorem trimStart_run {ds rest : List Char} (hds : ∀ c ∈ ds, isDigit c = true) (hne : ds ≠ []) :
    trimStart (ds ++ rest) = ds ++ rest := by
  cases ds with
  | nil => exact absurd rfl hne
  | cons c ds =>
    have hblank : isBlank c = false := isBlank_of_isDigit (hds c List.mem_cons_self)
    exact List.dropWhile_cons_of_neg (by simp [hblank])

theorem isDigit_decimal (n : Nat) : ∀ c ∈ decimal n, isDigit c = true := by
  intro c hc
  rw [isDigit_eq]
  exact Nat.isDigit_of_mem_toDigits (by decide) (by decide) hc

theorem decimal_ne_nil (n : Nat) : decimal n ≠ [] := Nat.toDigits_ne_nil

/-- Zeros do not lead. -/
theorem decimal_head? {n : Nat} (h : (decimal n).head? = some '0') : n = 0 := by
  induction n using Nat.strongRecOn with
  | ind n ih =>
    by_cases hlt : n < 10
    · have hzero : ∀ n < 10, n.digitChar = '0' → n = 0 := by decide
      rw [decimal, Nat.toDigits_of_lt_base hlt] at h
      exact hzero n hlt (Option.some.inj h)
    · rw [decimal, Nat.toDigits_of_base_le (by decide) (Nat.le_of_not_lt hlt),
        List.head?_append_of_ne_nil _ Nat.toDigits_ne_nil] at h
      have := ih (n / 10) (by omega) h
      omega

theorem isDigit_padded (width n : Nat) : ∀ c ∈ padded width n, isDigit c = true := by
  intro c hc
  obtain hc | hc := List.mem_append.mp hc
  · rw [List.eq_of_mem_replicate hc]
    decide
  · exact isDigit_decimal n c hc

theorem padded_ne_nil (width n : Nat) : padded width n ≠ [] :=
  List.append_ne_nil_of_right_ne_nil _ (decimal_ne_nil n)

theorem ofDecimal_padded (width n : Nat) : ofDecimal (padded width n) = n := by
  rw [ofDecimal, padded, Nat.ofDigitChars_append, Nat.ofDigitChars_replicate_zero, Nat.mul_zero]
  exact ofDecimal_decimal n

theorem length_padded {width n : Nat} (hwidth : 0 < width) (h : n < 10 ^ width) :
    (padded width n).length = width := by
  have hle : (decimal n).length ≤ width := (Nat.length_toDigits_le_iff (by decide) hwidth).mpr h
  rw [padded, List.length_append, List.length_replicate]
  omega

theorem ofDecimal_lt {ds : List Char} (h : ∀ c ∈ ds, isDigit c = true) :
    ofDecimal ds < 10 ^ ds.length := by
  induction ds using List.reverseRecOn with
  | nil => decide
  | append_singleton ds c ih =>
    have hlt := ih fun x hx => h x (List.mem_append_left [c] hx)
    have hc := toNat_of_isDigit (h c (by simp))
    have happ : ofDecimal (ds ++ [c]) = 10 * ofDecimal ds + (c.toNat - 48) := by
      rw [ofDecimal, Nat.ofDigitChars_append]
      rfl
    rw [happ, List.length_append, List.length_singleton, Nat.pow_succ]
    omega

end VirtualClock.Text
