import DocQuery.Text.Digits
import DocQuery.Value.Basic

/-!
# Days and instants

Days are counted in the proleptic Gregorian calendar from 1970-01-01, and a time is the instant of
its microseconds since then, a naive time being read as UTC. `DateTime.millis?_eq_some_iff` says
which times have an instant in milliseconds and which it is.
-/

namespace DocQuery

namespace Date

def isLeap (year : Int) : Bool :=
  year % 4 == 0 && (year % 100 != 0 || year % 400 == 0)

/-- The days of the years from 1 to the one before. -/
def daysBeforeYear (year : Int) : Int :=
  let y := year - 1
  365 * y + y / 4 - y / 100 + y / 400

/-- The days of the months before, in a year that is no leap year. -/
def daysBeforeMonth : Nat → Nat
  | 0 | 1 => 0
  | 2 => 31
  | 3 => 59
  | 4 => 90
  | 5 => 120
  | 6 => 151
  | 7 => 181
  | 8 => 212
  | 9 => 243
  | 10 => 273
  | 11 => 304
  | _ => 334

/-- The number of 1970-01-01, counted from 0001-01-01 as day 1. -/
def epochDay : Int := 719163

/-- Days since 1970-01-01. -/
def dayNumber (d : Date) : Int :=
  let leapDay : Int := if 2 < d.month ∧ isLeap d.year then 1 else 0
  daysBeforeYear d.year + daysBeforeMonth d.month + leapDay + d.day - epochDay

/-- The date of a day number. Years are counted from March, so that a leap day ends its year. -/
def ofDayNumber (n : Int) : Date :=
  let z := n + 719468
  let era := z / 146097
  let dayOfEra := z % 146097
  let yearOfEra := (dayOfEra - dayOfEra / 1460 + dayOfEra / 36524 - dayOfEra / 146096) / 365
  let dayOfYear := dayOfEra - (365 * yearOfEra + yearOfEra / 4 - yearOfEra / 100)
  let month := (5 * dayOfYear + 2) / 153
  let day := dayOfYear - (153 * month + 2) / 5 + 1
  let month := if month < 10 then month + 3 else month - 9
  let year := yearOfEra + era * 400 + (if month ≤ 2 then 1 else 0)
  ⟨year, month.toNat, day.toNat⟩

def iso (d : Date) : List Char :=
  Text.padded 4 d.year.natAbs ++ '-' :: Text.padded 2 d.month ++ '-' :: Text.padded 2 d.day

end Date

namespace DateTime

def microsPerDay : Int := 86400000000

/-- Microseconds since midnight. -/
def microOfDay (t : DateTime) : Nat :=
  ((t.hour * 60 + t.minute) * 60 + t.second) * 1000000 + t.micro

/-- Microseconds since 1970-01-01T00:00:00Z. -/
def instant (t : DateTime) : Int :=
  t.date.dayNumber * microsPerDay + t.microOfDay - t.offset.getD 0 * 1000000

/-- The first and the last instant of the years 1 to 9999. -/
def earliest : Int := -62135596800000000

def latest : Int := 253402300799999999

/-- Milliseconds since the epoch, rounded down, for an instant in the years 1 to 9999. -/
def millis? (t : DateTime) : Option Int :=
  if earliest ≤ t.instant ∧ t.instant ≤ latest then some (t.instant / 1000) else none

theorem millis?_eq_some_iff {t : DateTime} {ms : Int} :
    t.millis? = some ms ↔ (earliest ≤ t.instant ∧ t.instant ≤ latest) ∧ ms = t.instant / 1000 := by
  rw [millis?]
  split
  · next h => simp [h, eq_comm]
  · next h => simp [h]

/-- The same instant written in UTC; a naive time stays as it is. -/
def toUtc (t : DateTime) : DateTime :=
  match t.offset with
  | none => t
  | some _ =>
    let micro := (t.instant % microsPerDay).toNat
    { date := Date.ofDayNumber (t.instant / microsPerDay)
      hour := micro / 3600000000
      minute := micro / 60000000 % 60
      second := micro / 1000000 % 60
      micro := micro % 1000000
      offset := some 0 }

def isoClock (t : DateTime) : List Char :=
  let clock := Text.padded 2 t.hour ++ ':' :: Text.padded 2 t.minute ++ ':' ::
    Text.padded 2 t.second
  if t.micro = 0 then clock else clock ++ '.' :: Text.padded 6 t.micro

def isoOffset : Option Int → List Char
  | none => []
  | some seconds =>
    let sign := if seconds < 0 then '-' else '+'
    let n := seconds.natAbs
    let minutes := Text.padded 2 (n / 3600) ++ ':' :: Text.padded 2 (n / 60 % 60)
    sign :: if n % 60 = 0 then minutes else minutes ++ ':' :: Text.padded 2 (n % 60)

/-- The date, a separator, the clock and the offset. -/
def iso (separator : Char) (t : DateTime) : List Char :=
  t.date.iso ++ separator :: t.isoClock ++ isoOffset t.offset

end DateTime

end DocQuery
