import DocQuery.Calendar
import DocQuery.Proofs.Text.Numerals

/-!
# Written dates and times

A date of a year that is not negative is the only one that is written as it is (`Date.iso_inj`), and
so is a time (`DateTime.iso_inj`): its fields and its offset can be read off the text.
-/

namespace DocQuery

open Text (NoDigit noDigit_nil noDigit_cons padded_append_inj)

/-- A numeral, a separator and what comes after them. -/
theorem field_inj {width m n : Nat} {separator : Char} {r s : List Char}
    (hsep : separator.isDigit = false)
    (h : Text.padded width m ++ separator :: r = Text.padded width n ++ separator :: s) :
    m = n ∧ r = s := by
  obtain ⟨hmn, hrs⟩ := padded_append_inj (noDigit_cons hsep r) (noDigit_cons hsep s) h
  exact ⟨hmn, (List.cons.inj hrs).2⟩

namespace Date
variable {d e : Date} {r s : List Char}

theorem iso_append_inj (hd : 0 ≤ d.year) (he : 0 ≤ e.year) (hr : NoDigit r) (hs : NoDigit s)
    (h : d.iso ++ r = e.iso ++ s) : d = e ∧ r = s := by
  simp only [iso, List.append_assoc, List.cons_append] at h
  obtain ⟨hyear, h⟩ := field_inj rfl h
  obtain ⟨hmonth, h⟩ := field_inj rfl h
  obtain ⟨hday, hrs⟩ := padded_append_inj hr hs h
  refine ⟨?_, hrs⟩
  obtain ⟨year, month, day⟩ := d
  obtain ⟨year', month', day'⟩ := e
  obtain rfl : year = year' := by dsimp only at hd he hyear; omega
  obtain rfl : month = month' := hmonth
  obtain rfl : day = day' := hday
  rfl

theorem iso_inj (hd : 0 ≤ d.year) (he : 0 ≤ e.year) (h : d.iso = e.iso) : d = e :=
  (iso_append_inj hd he noDigit_nil noDigit_nil (by simpa using h)).1

end Date

namespace DateTime
variable {t u : DateTime} {r s : List Char}

/-- What may follow a clock: no further digit and no fraction. -/
def AfterClock (r : List Char) : Prop :=
  NoDigit r ∧ r.head? ≠ some '.'

theorem afterClock_isoOffset (offset : Option Int) : AfterClock (isoOffset offset) := by
  cases offset with
  | none => exact ⟨noDigit_nil, by simp [isoOffset]⟩
  | some seconds =>
    unfold isoOffset
    dsimp only
    by_cases h : seconds < 0
    · rw [if_pos h]
      exact ⟨noDigit_cons rfl _, by simp⟩
    · rw [if_neg h]
      exact ⟨noDigit_cons rfl _, by simp⟩

/-- The fraction of a second, where there is one. -/
theorem fraction_inj {m n : Nat} (hr : AfterClock r) (hs : AfterClock s)
    (h : (if m = 0 then r else '.' :: (Text.padded 6 m ++ r)) =
      if n = 0 then s else '.' :: (Text.padded 6 n ++ s)) : m = n ∧ r = s := by
  split at h
  · next hm =>
    split at h
    · next hn => exact ⟨hm.trans hn.symm, h⟩
    · exact absurd (by rw [h]; rfl) hr.2
  · next hm =>
    split at h
    · exact absurd (by rw [← h]; rfl) hs.2
    · exact padded_append_inj hr.1 hs.1 (List.cons.inj h).2

theorem isoClock_append_inj (hr : AfterClock r) (hs : AfterClock s)
    (h : t.isoClock ++ r = u.isoClock ++ s) :
    (t.hour = u.hour ∧ t.minute = u.minute ∧ t.second = u.second ∧ t.micro = u.micro) ∧ r = s := by
  have hclock : ∀ (v : DateTime) (x : List Char), v.isoClock ++ x =
      Text.padded 2 v.hour ++ ':' :: (Text.padded 2 v.minute ++ ':' :: (Text.padded 2 v.second ++
        if v.micro = 0 then x else '.' :: (Text.padded 6 v.micro ++ x))) := by
    intro v x
    unfold isoClock
    split <;> simp
  have hfraction : ∀ (v : DateTime) {x : List Char}, AfterClock x →
      NoDigit (if v.micro = 0 then x else '.' :: (Text.padded 6 v.micro ++ x)) := by
    intro v x hx
    split
    · exact hx.1
    · exact noDigit_cons rfl _
  rw [hclock, hclock] at h
  obtain ⟨hhour, h⟩ := field_inj rfl h
  obtain ⟨hminute, h⟩ := field_inj rfl h
  obtain ⟨hsecond, h⟩ := padded_append_inj (hfraction t hr) (hfraction u hs) h
  obtain ⟨hmicro, hrs⟩ := fraction_inj hr hs h
  exact ⟨⟨hhour, hminute, hsecond, hmicro⟩, hrs⟩

/-- The seconds at the end of an offset, where there are any. -/
def offsetSeconds (n : Nat) : List Char :=
  if n % 60 = 0 then [] else ':' :: Text.padded 2 (n % 60)

theorem noDigit_offsetSeconds (n : Nat) : NoDigit (offsetSeconds n) := by
  unfold offsetSeconds
  split
  · exact noDigit_nil
  · exact noDigit_cons rfl _

theorem offsetSeconds_inj {m n : Nat} (h : offsetSeconds m = offsetSeconds n) :
    m % 60 = n % 60 := by
  unfold offsetSeconds at h
  split at h
  · next hm =>
    split at h
    · next hn => exact hm.trans hn.symm
    · cases h
  · next hm =>
    split at h
    · cases h
    · have hpadded := (List.cons.inj h).2
      rw [← List.append_nil (Text.padded 2 (m % 60)),
        ← List.append_nil (Text.padded 2 (n % 60))] at hpadded
      exact (padded_append_inj noDigit_nil noDigit_nil hpadded).1

theorem isoOffset_some (a : Int) :
    isoOffset (some a) = (if a < 0 then '-' else '+') :: (Text.padded 2 (a.natAbs / 3600) ++
      ':' :: (Text.padded 2 (a.natAbs / 60 % 60) ++ offsetSeconds a.natAbs)) := by
  unfold isoOffset offsetSeconds
  dsimp only
  by_cases h : a.natAbs % 60 = 0
  · simp only [if_pos h, List.append_nil]
  · simp only [if_neg h, List.append_assoc, List.cons_append]

theorem isoOffset_inj {a b : Option Int} (h : isoOffset a = isoOffset b) : a = b := by
  cases a with
  | none => cases b with
    | none => rfl
    | some b => cases h
  | some a => cases b with
    | none => cases h
    | some b =>
      rw [isoOffset_some, isoOffset_some] at h
      obtain ⟨hsign, h⟩ := List.cons.inj h
      obtain ⟨hhours, h⟩ := field_inj rfl h
      obtain ⟨hminutes, h⟩ := padded_append_inj (noDigit_offsetSeconds _)
        (noDigit_offsetSeconds _) h
      have hseconds := offsetSeconds_inj h
      have hneg : a < 0 ↔ b < 0 := by
        split at hsign <;> split at hsign <;> first | omega | cases hsign
      have hab : a = b := by omega
      rw [hab]

theorem iso_inj {separator : Char} (hsep : separator.isDigit = false) (ht : 0 ≤ t.date.year)
    (hu : 0 ≤ u.date.year) (h : t.iso separator = u.iso separator) : t = u := by
  simp only [iso, List.append_assoc, List.cons_append] at h
  obtain ⟨hdate, h⟩ := Date.iso_append_inj ht hu (noDigit_cons hsep _) (noDigit_cons hsep _) h
  obtain ⟨⟨hhour, hminute, hsecond, hmicro⟩, hoffset⟩ := isoClock_append_inj
    (afterClock_isoOffset t.offset) (afterClock_isoOffset u.offset) (List.cons.inj h).2
  have hoffset := isoOffset_inj hoffset
  obtain ⟨date, hour, minute, second, micro, offset⟩ := t
  obtain ⟨date', hour', minute', second', micro', offset'⟩ := u
  simp only at hdate hhour hminute hsecond hmicro hoffset
  rw [hdate, hhour, hminute, hsecond, hmicro, hoffset]

end DateTime

end DocQuery
