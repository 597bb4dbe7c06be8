import DocQuery.Proofs.Fallible
import DocQuery.Value.Arithmetic

/-!
# Whole numbers as values

`Value.whole?` is the whole number that a value is, a truth value counting as 0 or 1. On such values
the arithmetic of the library never fails: `sign_of_whole`, `exists_atLeastZero_of_whole`,
`isNonNegative_of_whole` and `pageOffset_of_whole` say what it comes to.
-/

namespace DocQuery.Value

def whole? (v : Value) : Option Int :=
  match v.number? with
  | some (.int n) => some n
  | _ => none

variable {v w : Value} {n m : Int}

@[simp]
theorem whole?_int (n : Int) : (int n).whole? = some n := rfl

theorem number?_of_whole (h : v.whole? = some n) : v.number? = some (.int n) := by
  unfold whole? at h
  split at h
  · next k hk => rw [hk, Option.some.inj h]
  · exact nomatch h

theorem eq_int_or_bool_of_whole (h : v.whole? = some n) :
    v = .int n ∨ ∃ b, v = .bool b ∧ n = if b then 1 else 0 := by
  have hn := number?_of_whole h
  cases v with
  | int k => exact .inl (by simpa [number?] using hn)
  | bool b => exact .inr ⟨b, rfl, by simpa [number?, eq_comm] using hn⟩
  | _ => simp [number?] at hn

theorem truthy_iff_of_whole (h : v.whole? = some n) : v.truthy = true ↔ n ≠ 0 := by
  rcases eq_int_or_bool_of_whole h with rfl | ⟨b, rfl, rfl⟩
  · simp [truthy]
  · cases b <;> simp [truthy]

/-- What is set of a number that may be missing: one that is not zero. -/
theorem truthy_iff_exists_whole (h : v = .null ∨ ∃ n, v.whole? = some n) :
    v.truthy = true ↔ ∃ n, v.whole? = some n ∧ n ≠ 0 := by
  rcases h with rfl | ⟨n, hn⟩
  · simp [truthy, whole?, number?]
  · rw [truthy_iff_of_whole hn, hn]
    simp

theorem sign_of_whole (h : v.whole? = some n) : v.sign = .ok (some (compare n 0)) := by
  rcases eq_int_or_bool_of_whole h with rfl | ⟨b, rfl, rfl⟩ <;> rfl

theorem atLeastZero_int (n : Int) : (int n).atLeastZero = .ok (int (max 0 n)) := by
  refine bind_eq_ok_iff.mpr ⟨_, sign_of_whole (whole?_int n), ?_⟩
  rcases Int.lt_or_le 0 n with hn | hn
  · rw [Int.max_eq_right (by omega)]
    exact if_pos (congrArg some (Int.compare_eq_gt.mpr hn))
  · rw [Int.max_eq_left hn]
    exact if_neg fun hgt => by
      have := Int.compare_eq_gt.mp (Option.some.inj hgt)
      omega

theorem exists_atLeastZero_of_whole (h : v.whole? = some n) :
    ∃ w, v.atLeastZero = .ok w ∧ w.whole? = some (max 0 n) := by
  have hsign := sign_of_whole h
  rcases Int.lt_or_le 0 n with hn | hn
  · have hgt : compare n 0 = .gt := Int.compare_eq_gt.mpr hn
    refine ⟨v, bind_eq_ok_iff.mpr ⟨_, hsign, if_pos (congrArg some hgt)⟩, ?_⟩
    rw [h, Int.max_eq_right (by omega)]
  · have hle : compare n 0 ≠ .gt := fun hgt => by
      have := Int.compare_eq_gt.mp hgt
      omega
    refine ⟨int 0, bind_eq_ok_iff.mpr ⟨_, hsign, if_neg (by simpa using hle)⟩, ?_⟩
    rw [whole?_int, Int.max_eq_left hn]

theorem isNonNegative_of_whole (h : v.whole? = some n) :
    v.isNonNegative = .ok (decide (0 ≤ n)) := by
  refine bind_eq_ok_iff.mpr ⟨_, sign_of_whole h, ?_⟩
  cases hc : compare n 0 with
  | lt =>
    have hn := Int.compare_eq_lt.mp hc
    simp [Int.not_le.mpr hn]
  | eq =>
    have hn := Int.compare_eq_eq.mp hc
    simp [hn]
  | gt =>
    have hn := Int.compare_eq_gt.mp hc
    simp [Int.le_of_lt hn]

theorem pageOffset_of_whole (hv : v.whole? = some n) (hw : w.whole? = some m) :
    pageOffset v w = .ok (int ((n - 1) * m)) := by
  unfold pageOffset
  rw [number?_of_whole hv, number?_of_whole hw]
  rfl

end DocQuery.Value
