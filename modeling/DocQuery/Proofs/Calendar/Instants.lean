import DocQuery.Proofs.Calendar.Days
import DocQuery.Proofs.Fallible
import DocQuery.Value.Canonical

/-!
# Instants of dates and times

When a date and a clock with an offset mean an instant (`DateTime.IsAt`), by counting the days of
the calendar. `asInstant_faithful` says that the canonical form of a time or a date is the
millisecond of that instant, rounded down, so that it depends on the instant alone and never goes
back.
-/

namespace DocQuery

/-- A date of the years 1 to 9999. -/
structure Date.IsValid (d : Date) : Prop extends d.IsProper where
  one_le_year : 1 ≤ d.year
  year_le : d.year ≤ 9999

instance {d : Date} : Decidable d.IsValid :=
  decidable_of_iff (d.IsProper ∧ 1 ≤ d.year ∧ d.year ≤ 9999)
    ⟨fun ⟨h1, h2, h3⟩ => ⟨h1, h2, h3⟩, fun ⟨h1, h2, h3⟩ => ⟨h1, h2, h3⟩⟩

namespace DateTime

/-- A date of the years 1 to 9999 and a time of day, with whatever offset. -/
structure IsValid (t : DateTime) : Prop where
  date : t.date.IsValid
  hour_lt : t.hour < 24
  minute_lt : t.minute < 60
  second_lt : t.second < 60
  micro_lt : t.micro < 1000000

/-- The whole seconds from the epoch to a time, when it is so many days to its date. A naive time is
one of UTC. -/
def seconds (t : DateTime) (days : Int) : Int :=
  ((days * 24 + t.hour) * 60 + t.minute) * 60 + t.second - t.offset.getD 0

/-- It is so many microseconds from the epoch to the time. -/
def IsAt (t : DateTime) (micros : Int) : Prop :=
  ∃ days, t.date.IsDay days ∧ micros = t.seconds days * 1000000 + t.micro

/-- Midnight in UTC. -/
def midnight (d : Date) : DateTime :=
  { date := d, offset := some 0 }

variable {t : DateTime} {m : Int}

instance : Decidable t.IsValid :=
  decidable_of_iff
    (t.date.IsValid ∧ t.hour < 24 ∧ t.minute < 60 ∧ t.second < 60 ∧ t.micro < 1000000)
    ⟨fun ⟨h1, h2, h3, h4, h5⟩ => ⟨h1, h2, h3, h4, h5⟩,
      fun ⟨h1, h2, h3, h4, h5⟩ => ⟨h1, h2, h3, h4, h5⟩⟩

theorem instant_eq (t : DateTime) :
    t.instant = t.seconds t.date.dayNumber * 1000000 + t.micro := by
  simp only [instant, microOfDay, microsPerDay, seconds]
  push_cast
  omega

theorem isAt_iff (h : t.date.IsProper) : t.IsAt m ↔ m = t.instant := by
  rw [instant_eq]
  constructor
  · rintro ⟨days, hdays, rfl⟩
    rw [(Date.isDay_iff h).mp hdays]
  · rintro rfl
    exact ⟨_, (Date.isDay_iff h).mpr rfl, rfl⟩

theorem IsValid.microOfDay_lt (h : t.IsValid) : (t.microOfDay : Int) < microsPerDay := by
  have := h.hour_lt
  have := h.minute_lt
  have := h.second_lt
  have := h.micro_lt
  simp only [microOfDay, microsPerDay]
  omega

theorem microOfDay_toUtc {o : Int} (h : t.offset = some o) :
    (t.toUtc.microOfDay : Int) = t.instant % microsPerDay := by
  have hpos : 0 ≤ t.instant % microsPerDay := Int.emod_nonneg _ (by decide)
  simp only [toUtc, h, microOfDay]
  omega

theorem date_toUtc {o : Int} (h : t.offset = some o) :
    t.toUtc.date = Date.ofDayNumber (t.instant / microsPerDay) := by
  simp only [toUtc, h]

theorem toUtc_of_naive (h : t.offset = none) : t.toUtc = t := by
  simp only [toUtc, h]

theorem offset_toUtc (t : DateTime) : t.toUtc.offset.getD 0 = 0 := by
  cases h : t.offset with
  | none => rw [toUtc_of_naive h, h]; rfl
  | some o => simp only [toUtc, h, Option.getD_some]

theorem isProper_toUtc (h : t.IsValid) : t.toUtc.date.IsProper := by
  cases ho : t.offset with
  | none => rw [toUtc_of_naive ho]; exact h.date.toIsProper
  | some o => rw [date_toUtc ho]; exact Date.isProper_ofDayNumber _

theorem instant_toUtc (t : DateTime) : t.toUtc.instant = t.instant := by
  cases h : t.offset with
  | none => rw [toUtc_of_naive h]
  | some o =>
    rw [instant, microOfDay_toUtc h, date_toUtc h, Date.dayNumber_ofDayNumber, offset_toUtc]
    have hsum := Int.mul_ediv_add_emod t.instant microsPerDay
    have hcomm := Int.mul_comm microsPerDay (t.instant / microsPerDay)
    omega

/-- A time has an instant unless it lies before the year 1 or after the year 9999 in UTC. -/
theorem hasInstant_iff (h : t.IsValid) : (earliest ≤ t.instant ∧ t.instant ≤ latest) ↔
    1 ≤ t.toUtc.date.year ∧ t.toUtc.date.year ≤ 9999 := by
  rw [Date.year_bounds_iff (isProper_toUtc h)]
  cases ho : t.offset with
  | none =>
    have hlt := h.microOfDay_lt
    rw [toUtc_of_naive ho]
    simp only [instant, ho, Option.getD_none, earliest, latest, microsPerDay] at hlt ⊢
    omega
  | some o =>
    rw [date_toUtc ho, Date.dayNumber_ofDayNumber]
    simp only [earliest, latest, microsPerDay]
    omega

/-- The milliseconds of an instant are those of its whole seconds in UTC and of what is left. -/
theorem instant_div (t : DateTime) : t.instant / 1000 =
    t.toUtc.seconds t.toUtc.date.dayNumber * 1000 + t.toUtc.micro / 1000 := by
  rw [← instant_toUtc, instant_eq]
  omega

end DateTime

namespace Value
variable {t u : DateTime} {d : Date} {v : Value} {m n : Int}

theorem asInstant_dateTime (t : DateTime) : (dateTime t).asInstant = match t.millis? with
    | some ms => pure (millis ms)
    | none => throw .outOfRange := by
  rfl

theorem asInstant_dateTime_eq_ok_iff : (dateTime t).asInstant = .ok v ↔
    (DateTime.earliest ≤ t.instant ∧ t.instant ≤ DateTime.latest) ∧
      v = millis (t.instant / 1000) := by
  have hmillis := @DateTime.millis?_eq_some_iff t
  rw [asInstant_dateTime]
  cases h : t.millis? with
  | none =>
    refine iff_of_false throw_ne_ok fun hv => ?_
    exact nomatch h.symm.trans (hmillis.mpr ⟨hv.1, rfl⟩)
  | some ms =>
    obtain ⟨hin, rfl⟩ := hmillis.mp h
    exact pure_eq_ok_iff.trans ⟨fun hv => ⟨hin, hv.symm⟩, fun hv => hv.2.symm⟩

/-- Only the instant of a time counts. -/
theorem asInstant_congr (h : t.instant = u.instant) :
    (dateTime t).asInstant = (dateTime u).asInstant := by
  have hmillis : t.millis? = u.millis? := by rw [DateTime.millis?, DateTime.millis?, h]
  rw [asInstant_dateTime, asInstant_dateTime, hmillis]

theorem instant_midnight (d : Date) :
    (DateTime.midnight d).instant = d.dayNumber * millisPerDay * 1000 := by
  simp only [DateTime.instant, DateTime.midnight, DateTime.microOfDay, DateTime.microsPerDay,
    millisPerDay, Option.getD_some]
  omega

/-- A date is its midnight in UTC. -/
theorem asInstant_date (h : d.IsValid) :
    (date d).asInstant = (dateTime (DateTime.midnight d)).asInstant := by
  obtain ⟨hlow, hhigh⟩ := (Date.year_bounds_iff h.toIsProper).mp ⟨h.one_le_year, h.year_le⟩
  symm
  refine asInstant_dateTime_eq_ok_iff.mpr ⟨?_, ?_⟩
  · simp only [instant_midnight, DateTime.earliest, DateTime.latest, millisPerDay]
    omega
  · rw [instant_midnight, Int.mul_ediv_cancel _ (by decide)]

end Value

open Value

/-- The canonical form of a time is the millisecond of its instant, rounded down, which is that of
the whole seconds of the time in UTC and of the milliseconds after them. A date is the instant of
its midnight in UTC. One instant has one canonical form, and a later one never has a smaller one. -/
theorem asInstant_faithful :
    (∀ t : DateTime, t.IsValid → ∀ v, (Value.dateTime t).asInstant = .ok v →
      ∃ m, t.IsAt m ∧ v = .millis (m / 1000) ∧ t.toUtc.IsAt m ∧
        ∃ days, t.toUtc.date.IsDay days ∧
          m / 1000 = t.toUtc.seconds days * 1000 + t.toUtc.micro / 1000) ∧
      (∀ d : Date, d.IsValid → ∃ m, (DateTime.midnight d).IsAt m ∧
        (Value.date d).asInstant = .ok (.millis (m / 1000)) ∧
        (Value.date d).asInstant = (Value.dateTime (.midnight d)).asInstant) ∧
      ∀ t u : DateTime, t.IsValid → u.IsValid → ∀ m n, t.IsAt m → u.IsAt n →
        (m = n → (Value.dateTime t).asInstant = (Value.dateTime u).asInstant) ∧
          (m ≤ n → ∀ a b, (Value.dateTime t).asInstant = .ok (.millis a) →
            (Value.dateTime u).asInstant = .ok (.millis b) → a ≤ b) := by
  refine ⟨fun t ht v hv => ?_, fun d hd => ?_, fun t u ht hu m n hm hn => ?_⟩
  · have hutc := DateTime.isProper_toUtc ht
    obtain ⟨-, rfl⟩ := asInstant_dateTime_eq_ok_iff.mp hv
    refine ⟨t.instant, (DateTime.isAt_iff ht.date.toIsProper).mpr rfl, rfl,
      (DateTime.isAt_iff hutc).mpr (DateTime.instant_toUtc t).symm, t.toUtc.date.dayNumber,
      (Date.isDay_iff hutc).mpr rfl, DateTime.instant_div t⟩
  · refine ⟨_, (DateTime.isAt_iff hd.toIsProper).mpr rfl, ?_, asInstant_date hd⟩
    rw [instant_midnight, Int.mul_ediv_cancel _ (by decide)]
    rfl
  · obtain rfl := (DateTime.isAt_iff ht.date.toIsProper).mp hm
    obtain rfl := (DateTime.isAt_iff hu.date.toIsProper).mp hn
    refine ⟨asInstant_congr, fun hle a b ha hb => ?_⟩
    obtain ⟨-, ha⟩ := asInstant_dateTime_eq_ok_iff.mp ha
    obtain ⟨-, hb⟩ := asInstant_dateTime_eq_ok_iff.mp hb
    rw [Value.millis.inj ha, Value.millis.inj hb]
    exact Int.ediv_le_ediv (by decide) hle

/-- A microsecond after midnight of the first day of 1970, east of UTC, lies in the year before: its
millisecond is the one below, not the one nearer to the epoch. The same instant is written in
UTC. -/
theorem asInstant_faithful_before_epoch :
    let t : DateTime := { date := ⟨1970, 1, 1⟩, micro := 1, offset := some 19800 }
    let u : DateTime := { date := ⟨1969, 12, 31⟩, hour := 18, minute := 30, micro := 1 }
    t.IsValid ∧ u.IsValid ∧ t.IsAt (-19799999999) ∧ u.IsAt (-19799999999) ∧
      (Value.dateTime t).asInstant = .ok (.millis (-19800000)) ∧
      (∃ m, t.IsAt m ∧ Value.millis (-19800000) = .millis (m / 1000)) ∧
      (Value.dateTime t).asInstant = (Value.dateTime u).asInstant ∧
      ∃ m, (DateTime.midnight ⟨1969, 12, 31⟩).IsAt m ∧
        (Value.date ⟨1969, 12, 31⟩).asInstant = .ok (.millis (m / 1000)) := by
  intro t u
  have ht : t.IsValid := by decide
  have hu : u.IsValid := by decide
  have htAt : t.IsAt (-19799999999) := (DateTime.isAt_iff ht.date.toIsProper).mpr (by decide)
  have huAt : u.IsAt (-19799999999) := (DateTime.isAt_iff hu.date.toIsProper).mpr (by decide)
  have hms : (Value.dateTime t).asInstant = .ok (.millis (-19800000)) :=
    asInstant_dateTime_eq_ok_iff.mpr ⟨by decide, by decide⟩
  obtain ⟨hfloor, hmidnight, hsame⟩ := asInstant_faithful
  obtain ⟨m, hm, hv, -⟩ := hfloor t ht _ hms
  obtain ⟨n, hn, hd, -⟩ := hmidnight _ hu.date
  exact ⟨ht, hu, htAt, huAt, hms, ⟨m, hm, hv⟩, (hsame t u ht hu _ _ htAt huAt).1 rfl, n, hn, hd⟩

end DocQuery
