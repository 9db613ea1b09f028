import Mathlib.Data.List.TakeWhile
import VirtualClock.Proofs.Calendar
import VirtualClock.Proofs.Text.Digits
import VirtualClock.Reading.Parser

/-! Instants in the form of RFC 3339. What is written for a reading is read as that reading, in
every representable year and with every fraction of a second; a leap second must lie at the end of a
minute. -/

namespace VirtualClock

theorem Instant.ofNanos?_nanos (t : Instant) : Instant.ofNanos? t.nanos = some t :=
  dif_pos ⟨t.first_le, t.le_last⟩

theorem Instant.secondOfDay_lt (t : Instant) : t.secondOfDay < 86400 := by
  simp only [secondOfDay, secondsPerDay]
  omega

theorem Instant.nanoOfSecond_lt (t : Instant) : t.nanoOfSecond < 1000000000 := by
  simp only [nanoOfSecond, nanosPerSecond]
  omega

/-- The midnight before an instant is an instant, since the first one is a midnight. -/
theorem Instant.ofNanos?_midnight (t : Instant) :
    ∃ midnight, Instant.ofNanos? (t.day * secondsPerDay * nanosPerSecond) = some midnight := by
  have hfirst := t.first_le
  have hlast := t.le_last
  refine ⟨_, dif_pos ?_⟩
  simp only [day, second, nanosPerSecond, secondsPerDay]
  omega

namespace Reading

open Text

/-! ### The parts of a text -/

theorem number?_run {most : Nat} {ds rest : List Char} (hds : ∀ c ∈ ds, isDigit c = true)
    (hne : ds ≠ []) (hmost : ds.length ≤ most) (hrest : Stops rest) :
    number? most (ds ++ rest) = some (ofDecimal ds, rest) := by
  rw [number?, trimStart_run hds hne, spanDigits_run hds hrest hmost]
  exact if_neg (by simpa using hne)

theorem number?_padded {n : Nat} (h : n < 100) {rest : List Char} (hrest : Stops rest) :
    number? 2 (padded 2 n ++ rest) = some (n, rest) := by
  rw [number?_run (isDigit_padded 2 n) (padded_ne_nil 2 n)
    (Nat.le_of_eq (length_padded (by decide) h)) hrest, ofDecimal_padded]

theorem separator?_cons {c : Char} (h : isBlank c = false) (rest : List Char) :
    separator? c (c :: rest) = some rest := by
  rw [separator?, trimStart, List.dropWhile_cons_of_neg (by simp [h])]
  exact if_pos rfl

theorem year?_of_digit {c : Char} (h : isDigit c = true) (cs : List Char) :
    year? (c :: cs) = (number? 4 (c :: cs)).map fun (n, rest) => (n, rest) := by
  have hblank := isBlank_of_isDigit h
  rw [year?, trimStart, List.dropWhile_cons_of_neg (by simp [hblank])]
  split
  · rename_i heq
    cases heq
    cases h
  · rename_i heq
    cases heq
    cases h
  · rfl

theorem spanDigits_padded (width n : Nat) {rest : List Char} (hrest : Stops rest) :
    spanDigits (padded width n ++ rest).length (padded width n ++ rest) = (padded width n, rest) :=
  spanDigits_run (isDigit_padded width n) hrest (by simp)

theorem year?_yearText (year : Int) {rest : List Char} (hrest : Stops rest) :
    year? (yearText year ++ rest) = some (year, rest) := by
  rw [yearText]
  split_ifs with hshort hneg
  · have hlen : (padded 4 year.toNat).length ≤ 4 :=
      Nat.le_of_eq (length_padded (by decide) (by omega))
    have hdigits := isDigit_padded 4 year.toNat
    have hne := padded_ne_nil 4 year.toNat
    have hnumber := number?_run hdigits hne hlen hrest
    rw [ofDecimal_padded] at hnumber
    obtain ⟨c, cs, hcs⟩ := List.exists_cons_of_ne_nil hne
    rw [hcs] at hdigits hnumber ⊢
    rw [List.cons_append, year?_of_digit (hdigits c List.mem_cons_self), ← List.cons_append,
      hnumber]
    simp only [Option.map_some, Int.toNat_of_nonneg hshort.1]
  · have hread : year? ('-' :: padded 4 year.natAbs ++ rest) =
        some (-(ofDecimal (padded 4 year.natAbs) : Int), rest) := by
      rw [year?, List.cons_append, trimStart, List.dropWhile_cons_of_neg (by decide)]
      simp only [spanDigits_padded 4 year.natAbs hrest, List.isEmpty_iff, padded_ne_nil, if_false]
    rw [hread, ofDecimal_padded]
    congr
    omega
  · have hread : year? ('+' :: padded 4 year.natAbs ++ rest) =
        some ((ofDecimal (padded 4 year.natAbs) : Int), rest) := by
      rw [year?, List.cons_append, trimStart, List.dropWhile_cons_of_neg (by decide)]
      simp only [spanDigits_padded 4 year.natAbs hrest, List.isEmpty_iff, padded_ne_nil, if_false]
    rw [hread, ofDecimal_padded]
    congr
    omega

/-- A fraction of `width` digits, of which each stands for `unit` nanoseconds. -/
theorem fraction?_padded {width n : Nat} (hwidth : 0 < width) (hle : width ≤ 9)
    (hn : n < 10 ^ width) {rest : List Char} (hrest : Stops rest) :
    fraction? ('.' :: padded width n ++ rest) = some (n * 10 ^ (9 - width), rest) := by
  have hlen := length_padded hwidth hn
  have hspan := spanDigits_run (isDigit_padded width n) hrest (hlen.trans_le hle)
  rw [List.cons_append, fraction?]
  simp only [hspan, List.isEmpty_iff, padded_ne_nil, if_false, ofDecimal_padded, hlen,
    hrest.dropWhile_eq]
  rfl

theorem fraction?_fractionText {nano : Nat} (h : nano < 1000000000) {rest : List Char}
    (hrest : Stops rest) (hpoint : rest.head? ≠ some '.') :
    fraction? (fractionText .fewest nano ++ rest) = some (nano, rest) := by
  rw [fractionText]
  split_ifs with hzero hmilli hmicro
  · rw [List.nil_append, fraction?, hzero]
    rintro cs rfl
    exact hpoint rfl
  · rw [fraction?_padded (by decide) (by decide) (by omega) hrest]
    congr
    omega
  · rw [fraction?_padded (by decide) (by decide) (by omega) hrest]
    congr
    omega
  · rw [fraction?_padded (by decide) (by decide) (by omega) hrest]
    congr
    omega

/-! ### The whole -/

/-- A leap second lies at the end of a minute. -/
def Proper (r : Reading) : Prop := r.leap = true → r.instant.secondOfDay % 60 = 59

theorem ofFields?_eq {r : Reading} (h : r.Proper) :
    let date := Date.ofDays r.instant.day
    let s := r.instant.secondOfDay
    ofFields? date.year date.month date.day (s / 3600) (s / 60 % 60)
      (s % 60 + if r.leap then 1 else 0) r.instant.nanoOfSecond 0 = some r := by
  intro date s
  have hs : s < 86400 := r.instant.secondOfDay_lt
  have hfields : s / 3600 < 24 ∧ s / 60 % 60 < 60 ∧ (s % 60 + if r.leap then 1 else 0) ≤ 60 := by
    split_ifs <;> omega
  have hleap : ((s % 60 + if r.leap then 1 else 0) == 60) = r.leap := by
    cases hr : r.leap with
    | false => simp only [Bool.false_eq_true, if_false, beq_eq_false_iff_ne]; omega
    | true => simp only [if_true, h hr, s]; rfl
  have hofDay : s / 3600 * 3600 + s / 60 % 60 * 60 + (if r.leap then 59 else
      (s % 60 + if r.leap then 1 else 0)) = s := by
    cases hr : r.leap with
    | false => simp only [Bool.false_eq_true, if_false]; omega
    | true =>
      have hlast : s % 60 = 59 := h hr
      simp only [if_true]
      omega
  obtain ⟨midnight, hmidnight⟩ := r.instant.ofNanos?_midnight
  rw [ofFields?, Date.ofFields?_ofDays, Option.bind_eq_bind, Option.bind_some, if_pos hfields,
    hleap]
  simp only [hofDay, Date.toDays_ofDays, hmidnight, Int.sub_zero]
  rw [r.instant.nanos_of_parts, Instant.ofNanos?_nanos]
  rfl

theorem bind_of_eq {α β : Type} {x : Option α} {a : α} {f : α → Option β} (h : x = some a) :
    (x >>= f) = f a := by
  rw [h]
  rfl

theorem stops_fractionText (nano : Nat) {rest : List Char} (hrest : Stops rest) :
    Stops (fractionText .fewest nano ++ rest) := by
  rw [fractionText]
  split_ifs
  · exact hrest
  all_goals exact stops_cons (by decide)

/-- The numbers of a text are read as they are written. -/
theorem ofChars?_fields (year : Int) {month day hour minute second nano : Nat}
    (hmonth : month < 100) (hday : day < 100) (hhour : hour < 100) (hminute : minute < 100)
    (hsecond : second < 100) (hnano : nano < 1000000000) :
    ofChars? (yearText year ++ '-' :: (padded 2 month ++ '-' :: (padded 2 day ++
      'T' :: (padded 2 hour ++ ':' :: (padded 2 minute ++ ':' :: (padded 2 second ++
        (fractionText .fewest nano ++ ['Z']))))))) =
      ofFields? year month day hour minute second nano 0 := by
  have hdash (cs : List Char) : Stops ('-' :: cs) := stops_cons (by decide)
  have hcolon (cs : List Char) : Stops (':' :: cs) := stops_cons (by decide)
  have hT (cs : List Char) : Stops ('T' :: cs) := stops_cons (by decide)
  have hZ : Stops ['Z'] := stops_cons (by decide)
  rw [ofChars?]
  refine (bind_of_eq (year?_yearText year (hdash _))).trans ?_
  refine (bind_of_eq (separator?_cons (by decide) _)).trans ?_
  refine (bind_of_eq (number?_padded hmonth (hdash _))).trans ?_
  refine (bind_of_eq (separator?_cons (by decide) _)).trans ?_
  refine (bind_of_eq (number?_padded hday (hT _))).trans ?_
  refine (bind_of_eq rfl).trans ?_
  refine (bind_of_eq (number?_padded hhour (hcolon _))).trans ?_
  refine (bind_of_eq (separator?_cons (by decide) _)).trans ?_
  refine (bind_of_eq (number?_padded hminute (hcolon _))).trans ?_
  refine (bind_of_eq (separator?_cons (by decide) _)).trans ?_
  refine (bind_of_eq (number?_padded hsecond (stops_fractionText nano hZ))).trans ?_
  refine (bind_of_eq (fraction?_fractionText hnano hZ (by decide))).trans ?_
  rfl

/-- What is written for a reading is read as that reading. -/
theorem ofChars?_rfc3339 {r : Reading} (h : r.Proper) : ofChars? (r.rfc3339 .fewest) = some r := by
  have hs := r.instant.secondOfDay_lt
  obtain ⟨hmonth, hday⟩ := Date.ofDays_bounds r.instant.day
  have hsecond : (r.instant.secondOfDay % 60 + if r.leap then 1 else 0) < 100 := by
    split_ifs <;> omega
  simp only [rfc3339, dateText, timeText, List.append_assoc, List.cons_append]
  rw [ofChars?_fields _ (by omega) (by omega) (by omega) (by omega) hsecond
    r.instant.nanoOfSecond_lt]
  exact ofFields?_eq h

/-- The date and the time of day to the full second. -/
def wholeText (r : Reading) : List Char :=
  let s := r.instant.secondOfDay
  r.dateText ++ 'T' :: (padded 2 (s / 3600) ++ ':' :: padded 2 (s / 60 % 60) ++
    ':' :: padded 2 (s % 60 + (if r.leap then 1 else 0)))

theorem rfc3339_eq (p : Precision) (r : Reading) :
    r.rfc3339 p = r.wholeText ++ fractionText p r.instant.nanoOfSecond ++ ['Z'] := by
  simp only [rfc3339, wholeText, timeText, List.append_assoc, List.cons_append]

/-- A fraction of a second has no digits, or three, six or nine behind a point. -/
theorem fractionText_cases {nano : Nat} (h : nano < 1000000000) :
    fractionText .fewest nano = [] ∨ ∃ digits, fractionText .fewest nano = '.' :: digits ∧
      digits.length ∈ [3, 6, 9] ∧ ∀ c ∈ digits, isDigit c = true := by
  have hpadded {width n : Nat} (hwidth : width ∈ [3, 6, 9]) (hn : n < 10 ^ width) :
      ∃ digits, '.' :: padded width n = '.' :: digits ∧ digits.length ∈ [3, 6, 9] ∧
        ∀ c ∈ digits, isDigit c = true := by
    have hpos : 0 < width := by
      by_contra hzero
      simp [Nat.eq_zero_of_not_pos hzero] at hwidth
    exact ⟨_, rfl, by rwa [length_padded hpos hn], isDigit_padded width n⟩
  rw [fractionText]
  split_ifs
  · exact .inl rfl
  · exact .inr (hpadded (by decide) (by omega))
  · exact .inr (hpadded (by decide) (by omega))
  · exact .inr (hpadded (by decide) (by omega))

/-! ### What can be read -/

/-- The hours and minutes of an offset behind its sign. -/
def offsetBehind? (negative : Bool) (cs : List Char) : Option (Int × List Char) := do
  let (hours, rest) ← twoDigits? cs
  let (minutes, rest) ← twoDigits? (rest.dropWhile fun c => c = ':' || isBlank c)
  let seconds : Int := hours * 3600 + minutes * 60
  if minutes < 60 && hours < 24 then some (if negative then -seconds else seconds, rest) else none

theorem offsetBehind?_minutes {negative : Bool} {cs rest : List Char} {offset : Int}
    (h : offsetBehind? negative cs = some (offset, rest)) : offset % 60 = 0 := by
  obtain ⟨hours, -, h⟩ := Option.bind_eq_some_iff.mp h
  obtain ⟨minutes, -, h⟩ := Option.bind_eq_some_iff.mp h
  obtain ⟨-, h⟩ := Option.ite_none_right_eq_some.mp h
  cases h
  split_ifs <;> omega

/-- Local time is ahead of UTC by whole minutes. -/
theorem offset?_minutes {cs rest : List Char} {offset : Int}
    (h : offset? cs = some (offset, rest)) : offset % 60 = 0 := by
  unfold offset? at h
  split at h
  · cases h
    rfl
  · cases h
    rfl
  · cases h
  · split_ifs at h
    · cases h
      rfl
    · exact offsetBehind?_minutes h
    · exact offsetBehind?_minutes h
    · cases h

theorem fraction?_lt {cs rest : List Char} {nano : Nat} (h : fraction? cs = some (nano, rest)) :
    nano < 1000000000 := by
  unfold fraction? at h
  split at h
  · rename_i cs
    obtain ⟨ds, hds⟩ : ∃ ds, ds = (spanDigits 9 cs).1 := ⟨_, rfl⟩
    have hlen : ds.length ≤ 9 := by
      rw [hds]
      exact List.length_take_le _ _
    have hdigits : ∀ c ∈ ds, isDigit c = true := by
      intro c hc
      rw [hds] at hc
      exact List.mem_takeWhile_imp (List.mem_of_mem_take hc)
    obtain ⟨-, h⟩ := Option.ite_none_left_eq_some.mp h
    obtain ⟨rfl, -⟩ := Prod.mk.inj (Option.some.inj h)
    calc ofDecimal (spanDigits 9 cs).1 * Nat.pow 10 (9 - (spanDigits 9 cs).1.length)
        = ofDecimal ds * 10 ^ (9 - ds.length) := by rw [hds]; rfl
      _ < 10 ^ ds.length * 10 ^ (9 - ds.length) :=
        Nat.mul_lt_mul_of_pos_right (ofDecimal_lt hdigits) (Nat.pow_pos (by decide))
      _ = 10 ^ 9 := by rw [← Nat.pow_add, Nat.add_sub_cancel' hlen]
  · cases h
    decide

theorem ofFields?_proper {year : Int} {month day hour minute second nano : Nat} {offset : Int}
    {r : Reading} (hnano : nano < 1000000000) (hoffset : offset % 60 = 0)
    (h : ofFields? year month day hour minute second nano offset = some r) : r.Proper := by
  obtain ⟨date, -, h⟩ := Option.bind_eq_some_iff.mp h
  obtain ⟨hfields, h⟩ := Option.ite_none_right_eq_some.mp h
  obtain ⟨midnight, -, h⟩ := Option.bind_eq_some_iff.mp h
  obtain ⟨instant, hinstant, h⟩ := Option.bind_eq_some_iff.mp h
  cases h
  intro hleap
  change (second == 60) = true at hleap
  simp only [hleap, if_true] at hinstant
  rw [Instant.ofNanos?] at hinstant
  split_ifs at hinstant
  cases hinstant
  simp only [Instant.secondOfDay, Instant.second, nanosPerSecond, secondsPerDay]
  omega

/-- The reading of a date and the text of a time of day behind it. -/
def ofTime? (year : Int) (month day : Nat) (cs : List Char) : Option Reading := do
  let (hour, cs) ← number? 2 cs
  let cs ← separator? ':' cs
  let (minute, cs) ← number? 2 cs
  let cs ← separator? ':' cs
  let (second, cs) ← number? 2 cs
  let (nano, cs) ← fraction? cs
  let (offset, cs) ← offset? (trimStart cs)
  if (trimStart cs).isEmpty then ofFields? year month day hour minute second nano offset else none

theorem ofTime?_proper {year : Int} {month day : Nat} {cs : List Char} {r : Reading}
    (h : ofTime? year month day cs = some r) : r.Proper := by
  obtain ⟨_, -, h⟩ := Option.bind_eq_some_iff.mp h
  obtain ⟨_, -, h⟩ := Option.bind_eq_some_iff.mp h
  obtain ⟨_, -, h⟩ := Option.bind_eq_some_iff.mp h
  obtain ⟨_, -, h⟩ := Option.bind_eq_some_iff.mp h
  obtain ⟨_, -, h⟩ := Option.bind_eq_some_iff.mp h
  obtain ⟨_, hfraction, h⟩ := Option.bind_eq_some_iff.mp h
  obtain ⟨_, hoffset, h⟩ := Option.bind_eq_some_iff.mp h
  obtain ⟨-, h⟩ := Option.ite_none_right_eq_some.mp h
  exact ofFields?_proper (fraction?_lt hfraction) (offset?_minutes hoffset) h

/-- In every reading that can be read a leap second lies at the end of a minute. -/
theorem ofChars?_proper {cs : List Char} {r : Reading} (h : ofChars? cs = some r) : r.Proper := by
  obtain ⟨_, -, h⟩ := Option.bind_eq_some_iff.mp h
  obtain ⟨_, -, h⟩ := Option.bind_eq_some_iff.mp h
  obtain ⟨_, -, h⟩ := Option.bind_eq_some_iff.mp h
  obtain ⟨_, -, h⟩ := Option.bind_eq_some_iff.mp h
  obtain ⟨_, -, h⟩ := Option.bind_eq_some_iff.mp h
  dsimp only at h
  split at h
  · exact ofTime?_proper h
  · exact ofTime?_proper h
  · exact ofTime?_proper h
  · cases h

end Reading

end VirtualClock
