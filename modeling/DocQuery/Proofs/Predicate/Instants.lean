import DocQuery.Proofs.Predicate.Checks
import DocQuery.Proofs.Predicate.Operands

/-!
# Operands without an instant

A time whose offset takes it out of the years 1 to 9999 has no instant, and it is the only operand
that has none. `instants_unless_beyond_calendar` says which times these are and that a list of
predicates that are not malformed is compiled exactly when it has no such operand, and no pattern
that cannot be written as text.
-/

namespace DocQuery

namespace DateTime

/-- The offset takes the time before the first day of the calendar or past its last one. -/
def BeyondCalendar (t : DateTime) : Prop :=
  ∃ offset, t.offset = some offset ∧
    (t.date = ⟨1, 1, 1⟩ ∧ (t.microOfDay : Int) < offset * 1000000 ∨
      t.date = ⟨9999, 12, 31⟩ ∧ microsPerDay ≤ t.microOfDay - offset * 1000000)

/-- A time of the calendar, with an offset of less than a day if it has one. -/
structure OffsetInDay (t : DateTime) : Prop extends t.IsValid where
  offset_lt : ∀ offset, t.offset = some offset → -86400 < offset ∧ offset < 86400

variable {t : DateTime}

instance : Decidable t.OffsetInDay :=
  decidable_of_iff (t.IsValid ∧ ∀ offset ∈ t.offset, -86400 < offset ∧ offset < 86400)
    ⟨fun ⟨h1, h2⟩ => ⟨h1, h2⟩, fun ⟨h1, h2⟩ => ⟨h1, h2⟩⟩

theorem hasInstant_iff_not_beyondCalendar (h : t.OffsetInDay) :
    (earliest ≤ t.instant ∧ t.instant ≤ latest) ↔ ¬ t.BeyondCalendar := by
  have hproper := h.date.toIsProper
  have hclock := h.microOfDay_lt
  have hdays := (Date.year_bounds_iff hproper).mp ⟨h.date.one_le_year, h.date.year_le⟩
  have hfirst : t.date = ⟨1, 1, 1⟩ ↔ t.date.dayNumber = -719162 := by
    exact ⟨fun hd => hd ▸ rfl, fun hn => Date.eq_of_dayNumber_eq hproper (by decide) hn⟩
  have hlast : t.date = ⟨9999, 12, 31⟩ ↔ t.date.dayNumber = 2932896 := by
    exact ⟨fun hd => hd ▸ rfl, fun hn => Date.eq_of_dayNumber_eq hproper (by decide) hn⟩
  have hinstant : t.instant =
      t.date.dayNumber * microsPerDay + t.microOfDay - t.offset.getD 0 * 1000000 := rfl
  rw [hinstant, BeyondCalendar, hfirst, hlast]
  simp only [earliest, latest, microsPerDay] at hclock ⊢
  cases ho : t.offset with
  | none =>
    simp only [Option.getD_none, reduceCtorEq, false_and, exists_false, not_false_iff, iff_true]
    omega
  | some o =>
    have hlt := h.offset_lt o ho
    simp only [Option.getD_some, Option.some.injEq, exists_eq_left']
    omega

end DateTime

namespace Value

/-- A time or a date, if it is one, is one of the calendar. -/
structure OfCalendar (v : Value) : Prop where
  time : ∀ t, v = .dateTime t → t.OffsetInDay
  date : ∀ d, v = .date d → d.IsValid

def BeyondCalendar (v : Value) : Prop :=
  ∃ t, v = .dateTime t ∧ t.BeyondCalendar

variable {v : Value}

theorem hasInstant_iff (h : v.OfCalendar) : v.HasInstant ↔ ¬ v.BeyondCalendar := by
  constructor
  · rintro hv ⟨t, rfl, ht⟩
    exact (DateTime.hasInstant_iff_not_beyondCalendar (h.time t rfl)).mp (hv t rfl) ht
  · rintro hv t rfl
    exact (DateTime.hasInstant_iff_not_beyondCalendar (h.time t rfl)).mpr fun ht => hv ⟨t, rfl, ht⟩

end Value

namespace Predicate
variable {p q : Predicate} {ps : List Predicate} {k : Kind} {fault : Fault}

/-- The single operand and the listed ones. -/
def operands (p : Predicate) : List Value :=
  match p.values with
  | .list vs => p.value :: vs
  | _ => [p.value]

/-- The fields have their declared types. -/
structure Declared (p : Predicate) : Prop where
  column : p.column = .null ∨ p.column.isText = true
  operator : p.operator = .null ∨ p.operator.isText = true
  values : p.values = .null ∨ ∃ vs, p.values = .list vs
  document : p.document = .null ∨ ∃ es, p.document = .map es

theorem Declared.wellTyped_iff (h : p.Declared) :
    p.WellTyped ↔ ∀ v ∈ p.operands, v.HasInstant := by
  rcases h.values with hvs | ⟨vs, hvs⟩
  · rw [operands, hvs, List.forall_mem_singleton]
    exact ⟨WellTyped.value, fun hv => ⟨h.column, h.operator, hv, .inl hvs, h.document⟩⟩
  · rw [operands, hvs, List.forall_mem_cons]
    constructor
    · intro hp
      refine ⟨hp.value, ?_⟩
      rcases hp.values with hnull | ⟨ws, hws, hinstants⟩
      · exact nomatch hvs.symm.trans hnull
      · obtain rfl := Value.list.inj (hvs.symm.trans hws)
        exact hinstants
    · rintro ⟨hv, hinstants⟩
      exact ⟨h.column, h.operator, hv, .inr ⟨vs, hvs, hinstants⟩, h.document⟩

theorem exists_hasKind (h : ¬ p.IsMalformed) : ∃ k, p.HasKind k :=
  Classical.byContradiction fun hk => h (.kind fun k hpk => hk ⟨k, hpk⟩)

theorem check_of_wellTyped (hp : p.WellTyped) (h : ¬ p.IsRefused) : p.check = .ok () := by
  obtain ⟨k, hk⟩ := exists_hasKind fun hm => h (.inl hm)
  by_cases hn : k = .nested
  · subst hn
    obtain ⟨q, hq, -⟩ := @hp.exists_canonical p .nested nofun
    rw [check_of_nested (kind?_eq_ok_iff.mpr hk), hq]
    rfl
  · have hne : ¬ p.HasKind .nested := fun hpn => hn (hk.unique hpn)
    rw [check_of_ne_nested (mt kind?_eq_ok_iff.mp hne), discard_eq_ok_iff]
    have hout := outcome_clause hp hne
    cases hc : p.clause with
    | ok c => exact ⟨c, rfl⟩
    | error fault =>
      obtain ⟨q, hq, hrefused⟩ := (hc ▸ hout).firstDefect.exists_isRefused
      exact absurd (List.mem_singleton.mp hq ▸ hrefused) h

theorem check_of_unwritablePattern (hp : p.WellTyped) (h : p.HasUnwritablePattern) :
    p.check = .error .badValue := by
  have hne : ¬ p.HasKind .nested := fun hn => nomatch h.basic.unique hn
  rw [check_of_ne_nested (mt kind?_eq_ok_iff.mp hne), discard_eq_error_iff]
  exact (outcome_clause hp hne).eq_error (.here (.pattern h))

theorem Declared.operands_of_canonical (h : p.Declared) (hq : p.canonical k = .ok q) :
    ∀ v ∈ p.operands, v.HasInstant := by
  obtain ⟨-, _, isId, v, vs, -, hid, hv, hvs, -⟩ := canonical_iff_operands.mp hq
  have hvalue := hasInstant_of_operandForm hv
  rcases h.values with hnull | ⟨ws, hws⟩
  · rw [operands, hnull, List.forall_mem_singleton]
    exact hvalue
  · rw [operands, hws, List.forall_mem_cons]
    exact ⟨hvalue, hasInstant_of_canonicalValues hid (hws ▸ rfl) hvs⟩

theorem Declared.canonical_eq_error (h : p.Declared)
    (hcol : (k.hasColumn && !p.column.truthy) = false) (hf : p.canonical k = .error fault) :
    fault = .outOfRange := by
  obtain ⟨o, ho, -⟩ := exists_canonicalOperator h.operator
  obtain ⟨isId, hid⟩ := exists_isIdColumn h.column
  rcases operands_eq_error_of_canonical hcol ho hid hf with hv | hvs
  · exact (operandForm_eq_error_iff.mp hv).2
  · obtain ⟨hlisted, hitems | ⟨-, -, -, hfault⟩⟩ := canonicalValues_eq_error hid hvs
    · rcases h.values with hnull | ⟨ws, hws⟩
      · rw [IsListed, hnull] at hlisted
        rcases hlisted with h | ⟨-, h⟩ <;> cases h
      · rw [hws] at hitems
        cases hitems
    · exact hfault

/-- A predicate that is not malformed is refused for an operand without an instant and for a pattern
without a text only. -/
theorem Declared.check_eq_ok_iff (h : p.Declared) (hm : ¬ p.IsMalformed) :
    p.check = .ok () ↔ (∀ v ∈ p.operands, v.HasInstant) ∧ ¬ p.HasUnwritablePattern := by
  constructor
  · intro hc
    obtain ⟨k, -, hcanonical⟩ := bind_eq_ok_iff.mp hc
    obtain ⟨q, hq, -⟩ := bind_eq_ok_iff.mp hcanonical
    have hinstants := h.operands_of_canonical hq
    refine ⟨hinstants, fun hpattern => ?_⟩
    exact nomatch
        hc.symm.trans (check_of_unwritablePattern (h.wellTyped_iff.mpr hinstants) hpattern)
  · exact fun ⟨hv, hpattern⟩ =>
      check_of_wellTyped (h.wellTyped_iff.mpr hv) (not_or.mpr ⟨hm, hpattern⟩)

theorem Declared.check_eq_error (h : p.Declared) (hm : ¬ p.IsMalformed)
    (hc : p.check = .error fault) :
    fault = .outOfRange ∧ (∃ v ∈ p.operands, ¬ v.HasInstant) ∨
      fault = .badValue ∧ p.HasUnwritablePattern := by
  obtain ⟨k, hk⟩ := exists_hasKind hm
  have hthere : k.hasColumn = true → ¬ p.LacksColumn := fun hcol hl => hm (.column k hk hcol hl)
  by_cases hinstants : ∀ v ∈ p.operands, v.HasInstant
  · have hp := h.wellTyped_iff.mpr hinstants
    have hpattern : p.HasUnwritablePattern := Classical.byContradiction fun hno =>
      nomatch hc.symm.trans (check_of_wellTyped hp (not_or.mpr ⟨hm, hno⟩))
    exact .inr ⟨Except.error.inj (hc.symm.trans (check_of_unwritablePattern hp hpattern)), hpattern⟩
  · cases hq : p.canonical k with
    | error fault' =>
      have hcol : (k.hasColumn && !p.column.truthy) = false := by
        rw [lacksColumn_iff h.column] at hthere
        cases hcol : k.hasColumn <;> simp_all
      rw [check, kind?_eq_ok_iff.mpr hk] at hc
      replace hc : (p.canonical k >>= fun q => _) = .error fault := hc
      rw [hq] at hc
      obtain rfl : fault' = fault := Except.error.inj hc
      exact .inl ⟨h.canonical_eq_error hcol hq, by simpa using hinstants⟩
    | ok q => exact absurd (h.operands_of_canonical hq) hinstants

end Predicate

open Predicate

/-- A value has a canonical form unless it is a time that its offset takes out of the calendar,
whether identifiers are recognised in it or not. A list of predicates that are not malformed is
compiled exactly when none of its operands is such a time and none of its patterns is without a
text. -/
theorem instants_unless_beyond_calendar {v : Value} (hv : v.OfCalendar) {ps : List Predicate}
    (hps : ∀ p ∈ preorderAll ps,
      p.Declared ∧ ¬ p.IsMalformed ∧ ∀ w ∈ p.operands, w.OfCalendar) :
    ((∀ fault, v.asInstant = .error fault ↔ v.BeyondCalendar ∧ fault = .outOfRange) ∧
        (∀ w, v.asInstant = .ok w →
          (v.IsTemporal → ∃ ms, w = .millis ms) ∧ (¬ v.IsTemporal → w = v)) ∧
        ∀ fault, v.withIdentifiers.asInstant = .error fault ↔ v.asInstant = .error fault) ∧
      ((∃ doc, compileFilter ps = .ok doc) ↔ ∀ p ∈ preorderAll ps,
          (∀ w ∈ p.operands, ¬ w.BeyondCalendar) ∧ ¬ p.HasUnwritablePattern) ∧
        ∀ fault, compileFilter ps = .error fault → ∃ p ∈ preorderAll ps,
          fault = .outOfRange ∧ (∃ w ∈ p.operands, w.BeyondCalendar) ∨
            fault = .badValue ∧ p.HasUnwritablePattern := by
  refine ⟨⟨fun fault => ?_, fun w => Value.asInstant_eq_ok, fun fault => ?_⟩, ?_⟩
  · rw [Value.asInstant_eq_error_iff, Value.hasInstant_iff hv, Classical.not_not]
  · simp only [Value.asInstant_eq_error_iff, Value.hasInstant_withIdentifiers_iff]
  · have hrenders : ∀ p ∈ preorderAll ps, p.Renders := fun p hp =>
      ⟨(hps p hp).1.column, fun _ => (hps p hp).1.document⟩
    have hchecks : (∀ p ∈ preorderAll ps, p.check = .ok ()) ↔ ∀ p ∈ preorderAll ps,
        (∀ w ∈ p.operands, ¬ w.BeyondCalendar) ∧ ¬ p.HasUnwritablePattern := by
      refine forall₂_congr fun p hp => ?_
      obtain ⟨hdeclared, hm, hcalendar⟩ := hps p hp
      rw [hdeclared.check_eq_ok_iff hm]
      exact and_congr_left' (forall₂_congr fun w hw => Value.hasInstant_iff (hcalendar w hw))
    rw [← hchecks, ← exists_clauses_iff]
    cases hcs : clauses ps with
    | ok cs =>
      obtain ⟨doc, hdoc⟩ := exists_compileFilter hrenders hcs
      exact ⟨iff_of_true ⟨doc, hdoc⟩ ⟨cs, rfl⟩, fun fault hf => nomatch hdoc.symm.trans hf⟩
    | error fault =>
      have hf := compileFilter_of_clauses hcs
      refine ⟨iff_of_false (fun ⟨doc, hdoc⟩ => nomatch hf.symm.trans hdoc) (by simp), ?_⟩
      rintro fault' hf'
      obtain rfl := Except.error.inj (hf.symm.trans hf')
      obtain ⟨_, p, _, htree, -, hp⟩ := clauses_eq_error_iff.mp hcs
      have hmem : p ∈ preorderAll ps := by simp [htree]
      obtain ⟨hdeclared, hm, hcalendar⟩ := hps p hmem
      refine ⟨p, hmem, (hdeclared.check_eq_error hm hp).imp_left fun ⟨hrange, w, hw, hno⟩ =>
        ⟨hrange, w, hw, ?_⟩⟩
      rwa [Value.hasInstant_iff (hcalendar w hw), Classical.not_not] at hno

/-- The first hour of the calendar, two hours east of UTC, has no instant; the last one, an hour
east, has one, and a test of it in a group is compiled. -/
theorem instants_unless_beyond_calendar_ends :
    let first : DateTime := { date := ⟨1, 1, 1⟩, hour := 1, offset := some 7200 }
    let last : DateTime := { date := ⟨9999, 12, 31⟩, hour := 23, offset := some 3600 }
    let ps := [nested [basic (.text "at") (.text "<") (.dateTime last)]]
    (Value.dateTime first).OfCalendar ∧ (Value.dateTime first).BeyondCalendar ∧
      (Value.dateTime first).asInstant = .error .outOfRange ∧
      (∀ p ∈ preorderAll ps, p.Declared ∧ ¬ p.IsMalformed ∧ ∀ v ∈ p.operands, v.OfCalendar) ∧
      (∀ p ∈ preorderAll ps,
        (∀ v ∈ p.operands, ¬ v.BeyondCalendar) ∧ ¬ p.HasUnwritablePattern) ∧
      ∃ doc, compileFilter ps = .ok doc := by
  intro first last ps
  have hfirst : (Value.dateTime first).OfCalendar := by
    refine ⟨?_, nofun⟩
    rintro t ⟨⟩
    decide
  have hlast : (Value.dateTime last).OfCalendar := by
    refine ⟨?_, nofun⟩
    rintro t ⟨⟩
    decide
  have hbeyond : (Value.dateTime first).BeyondCalendar :=
    ⟨first, rfl, 7200, rfl, .inl ⟨rfl, by decide⟩⟩
  have htree : preorderAll ps =
      [nested [basic (.text "at") (.text "<") (.dateTime last)],
        basic (.text "at") (.text "<") (.dateTime last)] := rfl
  have hnested : HasKind (nested [basic (.text "at") (.text "<") (.dateTime last)]) .nested := rfl
  have hps : ∀ p ∈ preorderAll ps,
      p.Declared ∧ ¬ p.IsMalformed ∧ ∀ v ∈ p.operands, v.OfCalendar := by
    rw [htree]
    simp only [List.forall_mem_cons]
    refine ⟨⟨⟨.inl rfl, .inl rfl, .inl rfl, .inl rfl⟩,
      fun h => not_isRefused_of_nested hnested (.inl h), ?_⟩,
      ⟨⟨.inr rfl, .inr rfl, .inl rfl, .inl rfl⟩, ?_, ?_⟩, by simp⟩
    · rintro v hv
      obtain rfl := List.mem_singleton.mp hv
      exact ⟨nofun, nofun⟩
    · rintro (h | ⟨k, hk, -, h⟩ | ⟨k, hk, h⟩)
      · exact h .basic rfl
      · rcases h with h | h <;> exact absurd h (by decide)
      · obtain rfl : k = .basic := hk.unique rfl
        exact h
    · rintro v hv
      obtain rfl := List.mem_singleton.mp hv
      exact hlast
  have hnone : ∀ p ∈ preorderAll ps,
      (∀ v ∈ p.operands, ¬ v.BeyondCalendar) ∧ ¬ p.HasUnwritablePattern := by
    rw [htree]
    simp only [List.forall_mem_cons]
    refine ⟨⟨?_, ?_⟩, ⟨?_, ?_⟩, by simp⟩
    · rintro v hv ⟨t, rfl, -⟩
      exact nomatch List.mem_singleton.mp hv
    · exact fun h => not_isRefused_of_nested hnested (.inr h)
    · rintro v hv ⟨t, rfl, offset, hoffset, hdate⟩
      obtain rfl := Value.dateTime.inj (List.mem_singleton.mp hv)
      obtain rfl := Option.some.inj hoffset
      revert hdate
      decide
    · rintro ⟨-, q, hq, hlacks⟩
      obtain ⟨-, operator, _, _, _, _, hoperator, -, -, -, -, rfl⟩ := canonical_eq_ok_iff.mp hq
      obtain rfl : .text "<" = operator := Except.ok.inj hoperator
      exact Bool.false_ne_true hlacks
  obtain ⟨⟨hfault, -⟩, hlist, -⟩ := instants_unless_beyond_calendar hfirst hps
  exact ⟨hfirst, hbeyond, (hfault _).mpr ⟨hbeyond, rfl⟩, hps, hnone, hlist.mpr hnone⟩

/-- A time of the calendar that has no instant, and a test of it that is not compiled for this. -/
theorem exists_time_without_instant :
    let t : DateTime := { date := ⟨1, 1, 1⟩, offset := some 3600 }
    t.OffsetInDay ∧ (Value.dateTime t).asInstant = .error .outOfRange ∧
      compileFilter [basic (.text "at") (.text ">=") (.dateTime t)] = .error .outOfRange := by
  exact ⟨by decide, rfl, rfl⟩

end DocQuery
