import Mathlib.Tactic.IntervalCases
import Mathlib.Tactic.SplitIfs
import VirtualClock.Calendar

/-! Days and dates. Every count of days is that of the date it has, and the calendar has that
date. -/

namespace VirtualClock.Date

/-- The days from the first of March of the year 0 to that of `year`. -/
def marchFirst (year : Int) : Int := 365 * year + year / 4 - year / 100 + year / 400

/-- The leap day of a year that begins in March is that of the calendar year in which it ends. -/
theorem marchFirst_succ (year : Int) :
    marchFirst (year + 1) = marchFirst year + if isLeapYear (year + 1) then 366 else 365 := by
  simp only [marchFirst, isLeapYear, Bool.and_eq_true, Bool.or_eq_true, beq_iff_eq, bne_iff_ne]
  split_ifs <;> omega

theorem marchFirst_add_cycles (year n : Int) :
    marchFirst (year + 400 * n) = marchFirst year + 146097 * n := by
  simp only [marchFirst]
  omega

theorem isLeapYear_add_cycles (year n : Int) : isLeapYear (year + 400 * n) = isLeapYear year := by
  have h4 : (year + 400 * n) % 4 = year % 4 := by omega
  have h100 : (year + 400 * n) % 100 = year % 100 := by omega
  have h400 : (year + 400 * n) % 400 = year % 400 := by omega
  rw [isLeapYear, isLeapYear, h4, h100, h400]

/-- The year of a day in a cycle of 400 years. -/
def yearInCycle (day : Int) : Int := (day - day / 1460 + day / 36524 - day / 146096) / 365

/-- A day of a cycle is the day `day` of the year `year`, counted in the `four`th four years of a
century. Only the last year of four has a day more, and not at the end of a century. -/
structure DayOf (century four year day : Int) : Prop where
  century_le : 0 ≤ century ∧ century ≤ 3
  four_le : 0 ≤ four ∧ four ≤ 24
  year_le : 0 ≤ year ∧ year ≤ 3
  day_le : 0 ≤ day ∧ (day ≤ 364 ∨ day = 365 ∧ year = 3 ∧ (four < 24 ∨ century = 3))

theorem exists_dayOf {day : Int} (hlo : 0 ≤ day) (hhi : day < 146097) :
    ∃ century four year rest, DayOf century four year rest ∧
      day = 36524 * century + 1461 * four + 365 * year + rest := by
  obtain ⟨century, hcentury⟩ : ∃ c, c = min (day / 36524) 3 := ⟨_, rfl⟩
  obtain ⟨inCentury, hin⟩ : ∃ n, n = day - 36524 * century := ⟨_, rfl⟩
  obtain ⟨year, hyear⟩ : ∃ y, y = min (inCentury % 1461 / 365) 3 := ⟨_, rfl⟩
  refine ⟨century, inCentury / 1461, year, inCentury % 1461 - 365 * year,
    ⟨by omega, by omega, by omega, by omega⟩, by omega⟩

theorem yearInCycle_eq {century four year rest : Int} (h : DayOf century four year rest) :
    yearInCycle (36524 * century + 1461 * four + 365 * year + rest) =
      100 * century + 4 * four + year := by
  obtain ⟨hcentury, hfour, hyear, hrest⟩ := h
  obtain ⟨day, hday⟩ : ∃ day, day = 36524 * century + 1461 * four + 365 * year + rest := ⟨_, rfl⟩
  rw [← hday, yearInCycle]
  have hlast : day / 146096 = 0 ∨ day / 146096 = 1 ∧ day = 146096 := by omega
  have h36524 : day / 36524 = century ∨ day / 36524 = 4 ∧ day = 146096 := by omega
  -- the leap days before `day`, and one more towards the end of four years
  have h1460 : day / 1460 = 25 * century + four ∨
      day / 1460 = 25 * century + four + 1 ∧ 1 ≤ rest := by omega
  have h1460' : rest = 365 → day / 1460 = 25 * century + four + 1 := by omega
  omega

theorem yearInCycle_bounds {day : Int} (hlo : 0 ≤ day) (hhi : day < 146097) :
    0 ≤ yearInCycle day ∧ yearInCycle day ≤ 399 := by
  obtain ⟨century, four, year, rest, h, rfl⟩ := exists_dayOf hlo hhi
  have := h.century_le
  have := h.four_le
  have := h.year_le
  rw [yearInCycle_eq h]
  omega

theorem DayOf.marchFirst_eq {century four year rest : Int} (h : DayOf century four year rest) :
    marchFirst (100 * century + 4 * four + year) = 36524 * century + 1461 * four + 365 * year := by
  obtain ⟨hcentury, hfour, hyear, -⟩ := h
  have h4 : (100 * century + 4 * four + year) / 4 = 25 * century + four := by omega
  have h100 : (100 * century + 4 * four + year) / 100 = century := by omega
  have h400 : (100 * century + 4 * four + year) / 400 = 0 := by omega
  rw [marchFirst, h4, h100, h400]
  omega

theorem DayOf.lt_length {century four year rest : Int} (h : DayOf century four year rest) :
    rest < if isLeapYear (100 * century + 4 * four + year + 1) then 366 else 365 := by
  obtain ⟨hcentury, hfour, hyear, hrest⟩ := h
  split_ifs with hleap
  · omega
  · by_contra hlast
    refine hleap ?_
    simp only [isLeapYear, Bool.and_eq_true, Bool.or_eq_true, beq_iff_eq, bne_iff_ne]
    omega

/-- A day of a cycle lies in the year that is found for it. -/
theorem marchFirst_yearInCycle {day : Int} (hlo : 0 ≤ day) (hhi : day < 146097) :
    marchFirst (yearInCycle day) ≤ day ∧ day < marchFirst (yearInCycle day + 1) := by
  obtain ⟨century, four, year, rest, h, rfl⟩ := exists_dayOf hlo hhi
  have hpos := h.day_le.1
  have hlt := h.lt_length
  rw [yearInCycle_eq h, marchFirst_succ, h.marchFirst_eq]
  omega

/-- The date of the day `inYear` of a year that begins in March. -/
def ofMarch (year inYear : Int) : Date :=
  let month := (5 * inYear + 2) / 153
  let day := inYear - (153 * month + 2) / 5 + 1
  if month < 10 then ⟨year, (month + 3).toNat, day.toNat⟩
  else ⟨year + 1, (month - 9).toNat, day.toNat⟩

theorem exists_ofMarch (days : Int) : ∃ year inYear, ofDays days = ofMarch year inYear ∧
    days + 719468 = marchFirst year + inYear ∧ 0 ≤ inYear ∧
    inYear < if isLeapYear (year + 1) then 366 else 365 := by
  obtain ⟨cycle, hcycle⟩ : ∃ c, c = (days + 719468) / 146097 := ⟨_, rfl⟩
  obtain ⟨inCycle, hin⟩ : ∃ n, n = (days + 719468) % 146097 := ⟨_, rfl⟩
  have hlo : 0 ≤ inCycle := by omega
  have hhi : inCycle < 146097 := by omega
  obtain ⟨hfirst, hnext⟩ := marchFirst_yearInCycle hlo hhi
  have hbounds := yearInCycle_bounds hlo hhi
  refine ⟨yearInCycle inCycle + 400 * cycle, inCycle - marchFirst (yearInCycle inCycle), ?_, ?_,
    ?_, ?_⟩
  · have hmarch : marchFirst (yearInCycle inCycle) = 365 * yearInCycle inCycle +
        yearInCycle inCycle / 4 - yearInCycle inCycle / 100 := by
      rw [marchFirst]
      omega
    rw [hmarch, hin, hcycle]
    rfl
  · rw [marchFirst_add_cycles]
    omega
  · omega
  · rw [marchFirst_succ] at hnext
    rw [Int.add_right_comm, isLeapYear_add_cycles]
    omega

theorem toDays_ofMarch {year inYear : Int} (hlo : 0 ≤ inYear) (hhi : inYear < 366) :
    (ofMarch year inYear).toDays = marchFirst year + inYear - 719468 := by
  obtain ⟨month, hmonth⟩ : ∃ m, m = (5 * inYear + 2) / 153 := ⟨_, rfl⟩
  have hday : 0 ≤ inYear - (153 * month + 2) / 5 + 1 := by omega
  rw [ofMarch, ← hmonth, marchFirst]
  by_cases h : month < 10
  · have hname : ¬(month + 3).toNat ≤ 2 := by omega
    rw [if_pos h, toDays, if_neg hname, if_neg hname]
    simp only
    omega
  · have hname : (month - 9).toNat ≤ 2 := by omega
    rw [if_neg h, toDays, if_pos hname, if_pos hname]
    simp only
    omega

theorem ofFields?_ofMarch {year inYear : Int} (hlo : 0 ≤ inYear)
    (hhi : inYear < if isLeapYear (year + 1) then 366 else 365) :
    ofFields? (ofMarch year inYear).year (ofMarch year inYear).month (ofMarch year inYear).day =
      some (ofMarch year inYear) := by
  obtain ⟨month, hmonth⟩ : ∃ m, m = (5 * inYear + 2) / 153 := ⟨_, rfl⟩
  have hle : inYear < 366 := by split_ifs at hhi <;> omega
  have hfirst : 0 ≤ month := by omega
  refine if_pos ?_
  rw [ofMarch, ← hmonth]
  by_cases hfebruary : month = 11
  · subst hfebruary
    simp only [daysInMonth, Int.reduceLT, Int.reduceSub, Int.reduceToNat, if_false]
    split_ifs at hhi ⊢ <;> omega
  · have hlast : month ≤ 10 := by omega
    clear hhi
    interval_cases month <;>
      simp only [daysInMonth, Int.reduceLT, Int.reduceAdd, Int.reduceSub, Int.reduceToNat, if_true,
        if_false] <;>
      omega

/-- Dates keep the count of days. -/
theorem toDays_ofDays (days : Int) : (ofDays days).toDays = days := by
  obtain ⟨year, inYear, h, hdays, hlo, hhi⟩ := exists_ofMarch days
  have hle : inYear < 366 := by split_ifs at hhi <;> omega
  rw [h, toDays_ofMarch hlo hle]
  omega

/-- The calendar has the date of every day. -/
theorem ofFields?_ofDays (days : Int) :
    ofFields? (ofDays days).year (ofDays days).month (ofDays days).day = some (ofDays days) := by
  obtain ⟨year, inYear, h, -, hlo, hhi⟩ := exists_ofMarch days
  rw [h]
  exact ofFields?_ofMarch hlo hhi

theorem daysInMonth_le (year : Int) (month : Nat) : daysInMonth year month ≤ 31 := by
  unfold daysInMonth
  split
  · split_ifs <;> omega
  all_goals omega

theorem ofDays_bounds (days : Int) : (ofDays days).month ≤ 12 ∧ (ofDays days).day ≤ 31 := by
  have hfields := ofFields?_ofDays days
  rw [ofFields?] at hfields
  split_ifs at hfields with h
  exact ⟨h.2.1, h.2.2.2.trans (daysInMonth_le _ _)⟩

end VirtualClock.Date
