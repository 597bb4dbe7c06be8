import DocQuery.Proofs.Calendar.Instants
import DocQuery.Proofs.Predicate.Malformed

/-!
# Canonical operands

What the canonical form makes of the operands of a predicate. Only a time may be without a canonical
form (`Value.asInstant_eq_error_iff`). The listed operands are listed anew, each in canonical form,
or left as they are where there is nothing to be listed (`canonicalValues_of_isListed`,
`canonicalValues_of_not_isListed`).
-/

namespace DocQuery

namespace Value

def IsTemporal (v : Value) : Prop :=
  (∃ t, v = .dateTime t) ∨ ∃ d, v = .date d

variable {v w : Value} {vs : List Value} {fault : Fault}

theorem asInstant_eq_error_iff :
    v.asInstant = .error fault ↔ ¬ v.HasInstant ∧ fault = .outOfRange := by
  by_cases hv : v.HasInstant
  · obtain ⟨w, hw⟩ := Predicate.exists_asInstant hv
    exact iff_of_false (fun h => nomatch hw.symm.trans h) fun h => h.1 hv
  · obtain ⟨t, rfl, ht⟩ : ∃ t, v = .dateTime t ∧
        ¬ (DateTime.earliest ≤ t.instant ∧ t.instant ≤ DateTime.latest) := by
      simpa [HasInstant] using hv
    have hmillis : t.millis? = none := by rw [DateTime.millis?, if_neg ht]
    rw [asInstant_dateTime, hmillis]
    exact ⟨fun h => ⟨hv, (Except.error.inj h).symm⟩, fun h => congrArg Except.error h.2.symm⟩

/-- A time or a date becomes an instant, and every other value stays what it is. -/
theorem asInstant_eq_ok (h : v.asInstant = .ok w) :
    (v.IsTemporal → ∃ ms, w = .millis ms) ∧ (¬ v.IsTemporal → w = v) := by
  cases v with
  | dateTime t =>
    obtain ⟨-, rfl⟩ := asInstant_dateTime_eq_ok_iff.mp h
    exact ⟨fun _ => ⟨_, rfl⟩, fun hn => absurd (.inl ⟨t, rfl⟩) hn⟩
  | date d =>
    obtain rfl := pure_eq_ok_iff.mp h
    exact ⟨fun _ => ⟨_, rfl⟩, fun hn => absurd (.inr ⟨d, rfl⟩) hn⟩
  | _ =>
    obtain rfl := pure_eq_ok_iff.mp h
    exact ⟨by rintro (⟨t, ht⟩ | ⟨d, hd⟩) <;> contradiction, fun _ => rfl⟩

theorem hasInstant_withIdentifiers_iff : v.withIdentifiers.HasInstant ↔ v.HasInstant := by
  refine ⟨fun h => ?_, Predicate.hasInstant_withIdentifiers⟩
  rintro t rfl
  exact h t rfl

theorem asInstant_asInstant (h : v.asInstant = .ok w) : w.asInstant = .ok w := by
  obtain ⟨htime, hother⟩ := asInstant_eq_ok h
  by_cases hv : v.IsTemporal
  · obtain ⟨ms, rfl⟩ := htime hv
    rfl
  · rwa [hother hv] at h ⊢

/-- Instants are no identifiers. -/
theorem withIdentifiers_of_asInstant (h : v.asInstant = .ok w) (hv : v.withIdentifiers = v) :
    w.withIdentifiers = w := by
  obtain ⟨htime, hother⟩ := asInstant_eq_ok h
  by_cases htemporal : v.IsTemporal
  · obtain ⟨ms, rfl⟩ := htime htemporal
    rfl
  · rw [hother htemporal, hv]

theorem items_eq_error (h : v.items = .error fault) : fault = .wrongType := by
  cases v with
  | list | tuple | map | bytes | text | member => exact nomatch h
  | _ => exact (Except.error.inj h).symm

theorem truthy_of_items (h : v.items = .ok vs) (hvs : vs ≠ []) : v.truthy = true := by
  cases v with
  | list ws | tuple ws | map es | bytes bs | text s =>
    obtain rfl := Except.ok.inj h
    simpa [truthy] using hvs
  | member m => rfl
  | _ => cases h

end Value

namespace Predicate
variable {p q : Predicate} {k : Kind} {isId : Bool} {v w : Value} {vs ws : List Value}
  {operator : Value} {fault : Fault}

/-- The canonical form of an operand. -/
def operandForm (isId : Bool) (v : Value) : Except Fault Value :=
  (if isId then v.withIdentifiers else v).asInstant

theorem operandForm_eq_error_iff :
    operandForm isId v = .error fault ↔ ¬ v.HasInstant ∧ fault = .outOfRange := by
  rw [operandForm, Value.asInstant_eq_error_iff]
  cases isId with
  | false => exact Iff.rfl
  | true => exact and_congr_left' (not_congr Value.hasInstant_withIdentifiers_iff)

theorem exists_operandForm (h : v.HasInstant) (isId : Bool) : ∃ w, operandForm isId v = .ok w := by
  cases hw : operandForm isId v with
  | ok w => exact ⟨w, rfl⟩
  | error fault => exact absurd h (operandForm_eq_error_iff.mp hw).1

theorem hasInstant_of_operandForm (h : operandForm isId v = .ok w) : v.HasInstant :=
  Classical.byContradiction fun hv =>
    nomatch h.symm.trans (operandForm_eq_error_iff.mpr ⟨hv, rfl⟩)

theorem operandForm_operandForm (h : operandForm isId v = .ok w) :
    operandForm isId w = .ok w := by
  cases isId with
  | false => exact Value.asInstant_asInstant h
  | true =>
    have hids : w.withIdentifiers = w :=
      Value.withIdentifiers_of_asInstant h (Value.withIdentifiers_withIdentifiers v)
    show w.withIdentifiers.asInstant = .ok w
    rw [hids]
    exact Value.asInstant_asInstant h

theorem hasInstant_of_mapM (h : vs.mapM (operandForm isId) = .ok ws) :
    ∀ v ∈ vs, v.HasInstant := by
  intro v hv
  obtain ⟨w, hw⟩ := exists_of_mapM h v hv
  exact hasInstant_of_operandForm hw

theorem mapM_operandForm_eq_error_iff :
    vs.mapM (operandForm isId) = .error fault ↔
      ¬ (∀ v ∈ vs, v.HasInstant) ∧ fault = .outOfRange := by
  cases hvs : vs.mapM (operandForm isId) with
  | ok ws => exact iff_of_false nofun fun h => h.1 (hasInstant_of_mapM hvs)
  | error fault' =>
    obtain ⟨v, hv, hfault⟩ := exists_of_mapM_eq_error hvs
    obtain ⟨hinstant, rfl⟩ := operandForm_eq_error_iff.mp hfault
    have hnot : ¬ ∀ v ∈ vs, v.HasInstant := fun h => hinstant (h v hv)
    exact ⟨fun h => ⟨hnot, (Except.error.inj h).symm⟩, fun h => congrArg Except.error h.2.symm⟩

theorem mapM_operandForm_mapM (h : vs.mapM (operandForm isId) = .ok ws) :
    ws.mapM (operandForm isId) = .ok ws := by
  induction vs generalizing ws with
  | nil =>
    obtain rfl := pure_eq_ok_iff.mp h
    rfl
  | cons v vs ih =>
    obtain ⟨w, us, hw, hus, rfl⟩ := mapM_cons_eq_ok_iff.mp h
    exact mapM_cons_eq_ok_iff.mpr ⟨w, us, operandForm_operandForm hw, ih hus, rfl⟩

/-- The canonical form of the listed operands. -/
def canonicalValues (p : Predicate) (isId : Bool) : Except Fault Value :=
  p.identifiedValues isId >>= instantValues

/-- The canonical form lists the operands anew. -/
def IsListed (p : Predicate) : Prop :=
  p.values.truthy = true ∨ isIdColumn p.column = .ok true ∧ p.values.isNull = false

theorem instantValues_map (vs : List Value) (isId : Bool) :
    instantValues (.list (if isId then vs.map Value.withIdentifiers else vs)) =
      (vs.mapM (operandForm isId)).map .list := by
  have hlist : ∀ us : List Value, us ≠ [] →
      instantValues (.list us) = (us.mapM Value.asInstant).map .list := by
    intro us hus
    cases us with
    | nil => exact absurd rfl hus
    | cons u us =>
      show ((u :: us).mapM Value.asInstant >>= fun ws => pure (Value.list ws)) = _
      cases (u :: us).mapM Value.asInstant <;> rfl
  cases vs with
  | nil => cases isId <;> rfl
  | cons v vs =>
    cases isId with
    | false => exact hlist _ (by simp)
    | true =>
      refine (hlist _ (by simp)).trans ?_
      show Except.map Value.list (((v :: vs).map Value.withIdentifiers).mapM Value.asInstant) = _
      rw [List.mapM_map]
      rfl

theorem canonicalValues_of_not_isListed (hid : isIdColumn p.column = .ok isId)
    (h : ¬ p.IsListed) : p.canonicalValues isId = .ok p.values := by
  rw [IsListed, hid, not_or] at h
  obtain ⟨hempty, hnull⟩ := h
  have hids : p.identifiedValues isId = .ok p.values := by
    rw [identifiedValues]
    split
    · next hc => simp_all
    · rfl
  rw [canonicalValues, hids]
  show instantValues p.values = _
  rw [instantValues, if_neg hempty]
  rfl

theorem canonicalValues_of_isListed (hid : isIdColumn p.column = .ok isId) (h : p.IsListed) :
    p.canonicalValues isId =
      p.values.items >>= fun vs => (vs.mapM (operandForm isId)).map .list := by
  rw [canonicalValues, identifiedValues]
  rw [IsListed, hid] at h
  cases isId with
  | true =>
    have hnull : p.values.isNull = false := by
      rcases h with h | h
      · cases hv : p.values <;> first | rfl | (rw [hv] at h; cases h)
      · exact h.2
    simp only [hnull, Bool.not_false, Bool.and_true, if_true]
    cases p.values.items with
    | error fault => rfl
    | ok vs => exact instantValues_map vs true
  | false =>
    have htruthy : p.values.truthy = true := by simpa using h
    show instantValues p.values = _
    rw [instantValues, if_pos htruthy]
    cases p.values.items with
    | error fault => rfl
    | ok vs =>
      show (vs.mapM Value.asInstant >>= fun ws => pure (Value.list ws)) =
        (vs.mapM Value.asInstant).map .list
      cases vs.mapM Value.asInstant <;> rfl

theorem canonicalValues_of_items (hid : isIdColumn p.column = .ok isId) (h : p.IsListed)
    (hitems : p.values.items = .ok vs) :
    p.canonicalValues isId = (vs.mapM (operandForm isId)).map .list := by
  rw [canonicalValues_of_isListed hid h, hitems]
  rfl

theorem hasInstant_of_canonicalValues (hid : isIdColumn p.column = .ok isId)
    (hitems : p.values.items = .ok vs) (h : p.canonicalValues isId = .ok v) :
    ∀ w ∈ vs, w.HasInstant := by
  by_cases hlisted : p.IsListed
  · rw [canonicalValues_of_items hid hlisted hitems] at h
    obtain ⟨ws, hws, -⟩ := map_eq_ok_iff.mp h
    exact hasInstant_of_mapM hws
  · obtain rfl : vs = [] :=
      Classical.byContradiction fun hvs => hlisted (.inl (Value.truthy_of_items hitems hvs))
    simp

/-- Listed operands are refused as they are, or for one without an instant. -/
theorem canonicalValues_eq_error (hid : isIdColumn p.column = .ok isId)
    (h : p.canonicalValues isId = .error fault) :
    p.IsListed ∧ (p.values.items = .error fault ∨
      ∃ vs, p.values.items = .ok vs ∧ ¬ (∀ v ∈ vs, v.HasInstant) ∧ fault = .outOfRange) := by
  by_cases hlisted : p.IsListed
  · refine ⟨hlisted, ?_⟩
    rw [canonicalValues_of_isListed hid hlisted] at h
    rcases bind_eq_error_iff.mp h with hitems | ⟨vs, hitems, hmap⟩
    · exact .inl hitems
    · exact .inr ⟨vs, hitems, mapM_operandForm_eq_error_iff.mp (map_eq_error_iff.mp hmap)⟩
  · rw [canonicalValues_of_not_isListed hid hlisted] at h
    exact nomatch h

theorem canonical_iff_operands : p.canonical k = .ok q ↔
    (k.hasColumn && !p.column.truthy) = false ∧ ∃ operator isId value values,
      canonicalOperator p.operator = .ok operator ∧ isIdColumn p.column = .ok isId ∧
        operandForm (isId && p.values.isNull) p.value = .ok value ∧
        p.canonicalValues isId = .ok values ∧ q = { p with operator, value, values } := by
  rw [canonical_eq_ok_iff]
  refine and_congr_right fun _ => ?_
  constructor
  · rintro ⟨o, isId, ids, v, vs, ho, hid, hids, hv, hvs, hq⟩
    exact ⟨o, isId, v, vs, ho, hid, hv, bind_eq_ok_iff.mpr ⟨ids, hids, hvs⟩, hq⟩
  · rintro ⟨o, isId, v, vs, ho, hid, hv, hvs, hq⟩
    obtain ⟨ids, hids, hvs⟩ := bind_eq_ok_iff.mp hvs
    exact ⟨o, isId, ids, v, vs, ho, hid, hids, hv, hvs, hq⟩

theorem canonical_of_fields (hcol : (k.hasColumn && !p.column.truthy) = false)
    (ho : canonicalOperator p.operator = .ok operator) (hid : isIdColumn p.column = .ok isId) :
    p.canonical k = p.identifiedValues isId >>= fun ids =>
      operandForm (isId && p.values.isNull) p.value >>= fun value =>
        instantValues ids >>= fun values => pure { p with operator, value, values } := by
  rw [canonical, hcol, ho, hid]
  rfl

/-- With a column and an operator that can be read, only operands are without a canonical form. -/
theorem operands_eq_error_of_canonical (hcol : (k.hasColumn && !p.column.truthy) = false)
    (ho : canonicalOperator p.operator = .ok operator) (hid : isIdColumn p.column = .ok isId)
    (h : p.canonical k = .error fault) :
    operandForm (isId && p.values.isNull) p.value = .error fault ∨
      p.canonicalValues isId = .error fault := by
  rw [canonical_of_fields hcol ho hid] at h
  rcases bind_eq_error_iff.mp h with hids | ⟨ids, hids, h⟩
  · exact .inr (bind_eq_error_iff.mpr (.inl hids))
  rcases bind_eq_error_iff.mp h with hv | ⟨value, -, h⟩
  · exact .inl hv
  rcases bind_eq_error_iff.mp h with hvs | ⟨values, -, h⟩
  · exact .inr (bind_eq_error_iff.mpr (.inr ⟨ids, hids, hvs⟩))
  · exact nomatch h

theorem canonical_of_value (hcol : (k.hasColumn && !p.column.truthy) = false)
    (ho : canonicalOperator p.operator = .ok operator) (hid : isIdColumn p.column = .ok isId)
    (hv : operandForm (isId && p.values.isNull) p.value = .ok v) :
    p.canonical k =
      (p.canonicalValues isId).map fun values => { p with operator, value := v, values } := by
  rw [canonical_of_fields hcol ho hid, hv, canonicalValues]
  cases p.identifiedValues isId with
  | error fault => rfl
  | ok ids =>
    show (instantValues ids >>= fun values => pure _) = (instantValues ids).map _
    cases instantValues ids <;> rfl

end Predicate

end DocQuery
