import Mathlib.Logic.Function.Iterate
import Mathlib.Tactic.IntervalCases
import DocQuery.Calendar

/-!
# Days of the calendar

The calendar day by day: how long a month is and which date comes next. `Date.isDay_iff` says that
the day number of a date is the number of days from 1970-01-01 to it when they are counted in this
way, and `Date.dayNumber_ofDayNumber` and `Date.ofDayNumber_dayNumber` that dates and day numbers
belong to each other.
-/

namespace DocQuery

namespace Date

/-- How many days a month has. -/
def daysInMonth (year : Int) : Nat → Nat
  | 2 => if isLeap year then 29 else 28
  | 4 | 6 | 9 | 11 => 30
  | _ => 31

/-- A date of the calendar, in whatever year. -/
structure IsProper (d : Date) : Prop where
  one_le_month : 1 ≤ d.month
  month_le : d.month ≤ 12
  one_le_day : 1 ≤ d.day
  day_le : d.day ≤ daysInMonth d.year d.month

/-- The date of the following day. -/
def next (d : Date) : Date :=
  if d.day < daysInMonth d.year d.month then { d with day := d.day + 1 }
  else if d.month < 12 then ⟨d.year, d.month + 1, 1⟩
  else ⟨d.year + 1, 1, 1⟩

def epoch : Date := ⟨1970, 1, 1⟩

/-- It is so many days from the epoch to the date: one of them is reached from the other by going
that often to the next day. -/
def IsDay (d : Date) (n : Int) : Prop :=
  next^[n.toNat] epoch = next^[(-n).toNat] d

variable {d : Date} {n : Int}

instance : Decidable d.IsProper :=
  decidable_of_iff
    (1 ≤ d.month ∧ d.month ≤ 12 ∧ 1 ≤ d.day ∧ d.day ≤ daysInMonth d.year d.month)
    ⟨fun ⟨h1, h2, h3, h4⟩ => ⟨h1, h2, h3, h4⟩, fun ⟨h1, h2, h3, h4⟩ => ⟨h1, h2, h3, h4⟩⟩

theorem isLeap_iff {year : Int} :
    isLeap year = true ↔ year % 4 = 0 ∧ (year % 100 ≠ 0 ∨ year % 400 = 0) := by
  simp [isLeap]

theorem one_le_daysInMonth (year : Int) (month : Nat) : 1 ≤ daysInMonth year month := by
  unfold daysInMonth
  split
  · split <;> decide
  all_goals decide

theorem IsProper.next (h : d.IsProper) : d.next.IsProper := by
  obtain ⟨h1, h2, -, -⟩ := h
  unfold Date.next
  split
  · next hday => exact ⟨h1, h2, Nat.le_add_left .., hday⟩
  · split
    · next hmonth => exact ⟨Nat.le_add_left .., hmonth, Nat.le_refl _, one_le_daysInMonth ..⟩
    · exact ⟨Nat.le_refl _, Nat.le_add_left 1 11, Nat.le_refl _, one_le_daysInMonth ..⟩

theorem daysBeforeYear_succ (year : Int) :
    daysBeforeYear (year + 1) = daysBeforeYear year + if isLeap year then 366 else 365 := by
  simp only [isLeap_iff, daysBeforeYear]
  split <;> omega

/-- The leap day is counted from March on. -/
theorem daysBeforeMonth_succ (year : Int) {month : Nat} (h1 : 1 ≤ month) (h2 : month < 12) :
    daysBeforeMonth (month + 1) + (if month = 2 ∧ isLeap year then 1 else 0) =
      daysBeforeMonth month + daysInMonth year month := by
  interval_cases month <;>
    first | rfl | (cases h : isLeap year <;> simp [daysBeforeMonth, daysInMonth, h])

theorem dayNumber_next (h : d.IsProper) : d.next.dayNumber = d.dayNumber + 1 := by
  obtain ⟨year, month, day⟩ := d
  obtain ⟨h1, h2, -, h4⟩ := h
  dsimp only at h1 h2 h4
  simp only [Date.next]
  split
  · simp only [dayNumber]
    omega
  · next hlast =>
    obtain rfl : day = daysInMonth year month := by omega
    split
    · next hmonth =>
      have hsucc := daysBeforeMonth_succ year h1 hmonth
      simp only [dayNumber]
      cases hleap : isLeap year with
      | false =>
        simp only [hleap, and_false, if_false, Bool.false_eq_true] at hsucc ⊢
        omega
      | true =>
        simp only [hleap, and_true] at hsucc ⊢
        split at hsucc <;> split <;> split <;> omega
    · obtain rfl : month = 12 := by omega
      simp only [dayNumber, daysBeforeYear_succ, daysInMonth, daysBeforeMonth]
      cases isLeap year <;> simp <;> omega

theorem isProper_iterate (h : d.IsProper) (k : Nat) : (Date.next^[k] d).IsProper := by
  induction k with
  | zero => exact h
  | succ k ih =>
    rw [Function.iterate_succ_apply']
    exact ih.next

theorem dayNumber_iterate (h : d.IsProper) (k : Nat) :
    (Date.next^[k] d).dayNumber = d.dayNumber + k := by
  induction k with
  | zero => simp
  | succ k ih =>
    rw [Function.iterate_succ_apply', dayNumber_next (isProper_iterate h k), ih]
    omega

/-! ### Years that begin with March -/

/-- The month, counted from March. -/
def monthFromMarch (month : Nat) : Nat :=
  if month ≤ 2 then month + 9 else month - 3

/-- The year that began with the last March. -/
def yearFromMarch (d : Date) : Int :=
  if d.month ≤ 2 then d.year - 1 else d.year

/-- The days of that year before the date. -/
def dayFromMarch (d : Date) : Int :=
  (153 * (monthFromMarch d.month : Int) + 2) / 5 + d.day - 1

theorem daysBeforeMonth_eq {month : Nat} (h1 : 1 ≤ month) (h2 : month ≤ 12) :
    (daysBeforeMonth month : Int) =
      (153 * (monthFromMarch month : Int) + 2) / 5 + if month ≤ 2 then -306 else 59 := by
  interval_cases month <;> rfl

/-- Five months have 153 days; only February is shorter than this gives. -/
theorem daysInMonth_le (year : Int) {month : Nat} (h1 : 1 ≤ month) (h2 : month ≤ 12) :
    (daysInMonth year month : Int) ≤ (153 * (monthFromMarch month + 1 : Int) + 2) / 5 -
      (153 * (monthFromMarch month : Int) + 2) / 5 := by
  interval_cases month <;>
    first | decide | (cases h : isLeap year <;> simp [daysInMonth, monthFromMarch, h])

theorem dayNumber_eq_fromMarch (h : d.IsProper) :
    d.dayNumber + 719468 = 365 * d.yearFromMarch + d.yearFromMarch / 4 - d.yearFromMarch / 100 +
      d.yearFromMarch / 400 + d.dayFromMarch := by
  have hbefore := daysBeforeMonth_eq h.one_le_month h.month_le
  simp only [dayNumber, daysBeforeYear, epochDay, isLeap_iff, yearFromMarch, dayFromMarch, hbefore]
  by_cases hm : d.month ≤ 2
  · simp only [hm, if_true, Nat.not_lt.mpr hm, false_and, if_false]
    omega
  · simp only [hm, if_false, Nat.not_le.mp hm, true_and]
    split <;> omega

/-- The leap day is the last one of its year. -/
theorem dayFromMarch_bounds (h : d.IsProper) :
    (0 ≤ d.dayFromMarch ∧ d.dayFromMarch ≤ 365) ∧
      (d.dayFromMarch = 365 → isLeap (d.yearFromMarch + 1) = true) := by
  have hlen := daysInMonth_le d.year h.one_le_month h.month_le
  obtain ⟨h1, h2, h3, h4⟩ := h
  simp only [yearFromMarch, dayFromMarch]
  by_cases hm : d.month = 2
  · simp only [hm, daysInMonth, monthFromMarch] at h4 ⊢
    cases hleap : isLeap d.year <;> simp [hleap] at h4 ⊢ <;> omega
  · have hlast : monthFromMarch d.month ≤ 10 := by
      unfold monthFromMarch
      split <;> omega
    exact ⟨by omega, fun hday => absurd hday (by omega)⟩

theorem month_of_dayFromMarch (h : d.IsProper) :
    (5 * d.dayFromMarch + 2) / 153 = monthFromMarch d.month := by
  have hlen := daysInMonth_le d.year h.one_le_month h.month_le
  obtain ⟨-, -, h3, h4⟩ := h
  simp only [dayFromMarch]
  omega

/-! ### Dates and day numbers -/

/-- The year of an era that a day lies in, by the lengths of a hundred, of four and of single years:
36524, 1461 and 365 days. -/
theorem yearOfEra_eq {year day : Int} (h0 : 0 ≤ year) (h : year < 400) (hd0 : 0 ≤ day)
    (hd : day ≤ 365) (hleap : day = 365 → isLeap (year + 1) = true)
    (hn : n = 365 * year + year / 4 - year / 100 + day) :
    n < 146097 ∧ (n - n / 1460 + n / 36524 - n / 146096) / 365 = year := by
  rw [isLeap_iff] at hleap
  obtain ⟨c, q, r, hc, hq, hr, rfl⟩ : ∃ c q r : Int, (0 ≤ c ∧ c < 4) ∧ (0 ≤ q ∧ q < 25) ∧
      (0 ≤ r ∧ r < 4) ∧ year = 100 * c + 4 * q + r :=
    ⟨year / 100, year % 100 / 4, year % 4, by omega, by omega, by omega, by omega⟩
  have hn : n = 36524 * c + 1461 * q + 365 * r + day := by omega
  -- a leap day ends a year before one that four divides, and no century but the last one
  have hlast : day = 365 → r = 3 ∧ (q = 24 → c = 3) := by omega
  have hcentury : n < 36524 * (c + 1) ∨ c = 3 ∧ n = 146096 := by omega
  have hlt : n < 146097 := by omega
  have hcenturies : n / 36524 - n / 146096 = c := by
    rcases hcentury with h | ⟨rfl, rfl⟩
    · have hera : n / 146096 = 0 := by omega
      have hc : n / 36524 = c := by omega
      omega
    · rfl
  have hleapDays : n / 1460 = 25 * c + q + (24 * c + q + 365 * r + day) / 1460 := by omega
  have hover : (24 * c + q + 365 * r + day) / 1460 = 0 ∧ day ≤ 364 ∨
      (24 * c + q + 365 * r + day) / 1460 = 1 ∧ 1 ≤ day := by omega
  refine ⟨hlt, ?_⟩
  omega

/-- The date that a day number is taken apart to: the era of 400 years, the year of the era and the
day of that year. -/
theorem ofDayNumber_of_parts {era year day : Int} (h0 : 0 ≤ year) (h : year < 400) (hd0 : 0 ≤ day)
    (hd : day ≤ 365) (hleap : day = 365 → isLeap (year + 1) = true)
    (hn : n + 719468 = era * 146097 + (365 * year + year / 4 - year / 100 + day)) :
    let month := (5 * day + 2) / 153
    let civilMonth := if month < 10 then month + 3 else month - 9
    ofDayNumber n = ⟨year + era * 400 + (if civilMonth ≤ 2 then 1 else 0), civilMonth.toNat,
      (day - (153 * month + 2) / 5 + 1).toNat⟩ := by
  obtain ⟨hlt, hyear⟩ := yearOfEra_eq h0 h hd0 hd hleap rfl
  generalize hdoe : 365 * year + year / 4 - year / 100 + day = dayOfEra at hn hlt hyear
  have hdoe0 : 0 ≤ dayOfEra := by omega
  have hera : (n + 719468) / 146097 = era := by omega
  have hrest : (n + 719468) % 146097 = dayOfEra := by omega
  have hday : dayOfEra - (365 * year + year / 4 - year / 100) = day := by omega
  simp only [ofDayNumber, hera, hrest, hyear, hday]

theorem ofDayNumber_dayNumber (h : d.IsProper) : ofDayNumber d.dayNumber = d := by
  have hz := dayNumber_eq_fromMarch h
  obtain ⟨⟨hd0, hd⟩, hleap⟩ := dayFromMarch_bounds h
  have hleap : d.dayFromMarch = 365 → isLeap (d.yearFromMarch % 400 + 1) = true := by
    simp only [isLeap_iff] at hleap ⊢
    omega
  have hn : d.dayNumber + 719468 = d.yearFromMarch / 400 * 146097 +
      (365 * (d.yearFromMarch % 400) + d.yearFromMarch % 400 / 4 - d.yearFromMarch % 400 / 100 +
        d.dayFromMarch) := by
    rw [hz]
    omega
  rw [ofDayNumber_of_parts (by omega) (by omega) hd0 hd hleap hn, month_of_dayFromMarch h]
  obtain ⟨year, month, day⟩ := d
  obtain ⟨h1, h2, h3, -⟩ := h
  dsimp only at h1 h2 h3
  simp only [Date.mk.injEq, yearFromMarch, dayFromMarch, monthFromMarch]
  split <;> refine ⟨?_, ?_, ?_⟩ <;> omega

theorem eq_of_dayNumber_eq {e : Date} (hd : d.IsProper) (he : e.IsProper)
    (h : d.dayNumber = e.dayNumber) : d = e := by
  rw [← ofDayNumber_dayNumber hd, h, ofDayNumber_dayNumber he]

/-- Every number is that of a date, which is reached day by day from the first day of an era. -/
theorem exists_dayNumber (n : Int) : ∃ d : Date, d.IsProper ∧ d.dayNumber = n := by
  let start : Date := ⟨1 - 400 * n.natAbs, 1, 1⟩
  have hproper : start.IsProper :=
    ⟨Nat.le_refl _, Nat.le_add_left 1 11, Nat.le_refl _, one_le_daysInMonth ..⟩
  have hstart : start.dayNumber = -719162 - 146097 * n.natAbs := by
    simp only [start, dayNumber, daysBeforeYear, daysBeforeMonth, epochDay]
    simp
    omega
  refine ⟨Date.next^[(n - start.dayNumber).toNat] start, isProper_iterate hproper _, ?_⟩
  rw [dayNumber_iterate hproper]
  omega

theorem isProper_ofDayNumber (n : Int) : (ofDayNumber n).IsProper := by
  obtain ⟨d, hd, rfl⟩ := exists_dayNumber n
  rw [ofDayNumber_dayNumber hd]
  exact hd

theorem dayNumber_ofDayNumber (n : Int) : (ofDayNumber n).dayNumber = n := by
  obtain ⟨d, hd, rfl⟩ := exists_dayNumber n
  rw [ofDayNumber_dayNumber hd]

theorem isProper_epoch : epoch.IsProper := by
  decide

theorem isDay_iff (h : d.IsProper) : d.IsDay n ↔ n = d.dayNumber := by
  have hepoch : (Date.next^[n.toNat] epoch).dayNumber = n.toNat := by
    rw [dayNumber_iterate isProper_epoch]
    exact Int.zero_add _
  have hdate := dayNumber_iterate h (-n).toNat
  constructor
  · intro hn
    rw [IsDay] at hn
    rw [hn, hdate] at hepoch
    omega
  · intro hn
    refine eq_of_dayNumber_eq (isProper_iterate isProper_epoch _) (isProper_iterate h _) ?_
    rw [hepoch, hdate]
    omega

theorem dayOfYear_le (year : Int) {month : Nat} (h1 : 1 ≤ month) (h2 : month ≤ 12) :
    daysBeforeMonth month + (if 2 < month ∧ isLeap year then 1 else 0) + daysInMonth year month ≤
      if isLeap year then 366 else 365 := by
  interval_cases month <;> cases h : isLeap year <;> simp [daysBeforeMonth, daysInMonth, h]

theorem dayNumber_bounds (h : d.IsProper) :
    daysBeforeYear d.year < d.dayNumber + epochDay ∧
      d.dayNumber + epochDay ≤ daysBeforeYear (d.year + 1) := by
  have hyear := dayOfYear_le d.year h.one_le_month h.month_le
  obtain ⟨-, -, h3, h4⟩ := h
  simp only [dayNumber, daysBeforeYear_succ]
  cases hleap : isLeap d.year <;> simp [hleap] at hyear ⊢
  · omega
  · split at hyear <;> split <;> omega

/-- The days of the years 1 to 9999. -/
theorem year_bounds_iff (h : d.IsProper) :
    (1 ≤ d.year ∧ d.year ≤ 9999) ↔ -719162 ≤ d.dayNumber ∧ d.dayNumber ≤ 2932896 := by
  obtain ⟨hlow, hhigh⟩ := dayNumber_bounds h
  simp only [daysBeforeYear, epochDay] at hlow hhigh
  omega

end Date

end DocQuery
