import Mathlib.Algebra.Group.Int.Defs
import Mathlib.Algebra.Group.Nat.Defs
import DocQuery.Text.Digits

/-!
# Numerals with a text after them

A numeral that is followed by no digit can be cut off the text after it, and its number is the only
one that it is a numeral of: `padded_append_inj`, `signed_append_inj` and, for a fixed width,
`hex_append_inj`. Hexadecimal numerals without a width are told apart too (`toDigits_sixteen_inj`).
A text that is put together from parts which can be cut off is read back part by part
(`flatMap_append_inj`).

There are integers that have too many digits to be written (`exists_not_isWritable`).
-/

namespace DocQuery.Text
variable {ds es r s : List Char} {m n width : Nat}

theorem isWritable_iff {n : Int} : isWritable n = true ↔ n.natAbs < 10 ^ maxDigits := by
  rw [isWritable, decide_eq_true_iff]
  exact Nat.length_toDigits_le_iff (by decide) (by decide)

theorem isWritable_pow {k : Nat} : isWritable (10 ^ k) = true ↔ k < maxDigits := by
  rw [isWritable_iff, Int.natAbs_pow]
  generalize maxDigits = m
  exact Nat.pow_lt_pow_iff_right (by decide)

theorem exists_not_isWritable : ∃ n, isWritable n = false :=
  ⟨10 ^ maxDigits, (Bool.not_eq_true _).mp fun h => Nat.lt_irrefl _ (isWritable_pow.mp h)⟩

/-- Texts that are written part by part are read back, up to where no further part begins. -/
theorem flatMap_append_inj {α β : Type} {f : α → List β} {as bs : List α} {r s : List β}
    (hf : ∀ a ∈ as, ∀ b ∈ bs, ∀ r s, f a ++ r = f b ++ s → a = b ∧ r = s)
    (hr : ∀ b ∈ bs, ∀ t, f b ++ t ≠ r) (hs : ∀ a ∈ as, ∀ t, f a ++ t ≠ s)
    (h : as.flatMap f ++ r = bs.flatMap f ++ s) : as = bs ∧ r = s := by
  induction as generalizing bs with
  | nil =>
    cases bs with
    | nil => exact ⟨rfl, h⟩
    | cons b bs =>
      rw [List.flatMap_cons, List.append_assoc] at h
      exact absurd h.symm (hr b (by simp) _)
  | cons a as ih =>
    cases bs with
    | nil =>
      rw [List.flatMap_cons, List.append_assoc] at h
      exact absurd h (hs a (by simp) _)
    | cons b bs =>
      rw [List.flatMap_cons, List.flatMap_cons, List.append_assoc, List.append_assoc] at h
      obtain ⟨rfl, htail⟩ := hf a (by simp) b (by simp) _ _ h
      have hrest : ∀ c ∈ as, ∀ d ∈ bs, ∀ r s, f c ++ r = f d ++ s → c = d ∧ r = s :=
        fun c hc d hd => hf c (by simp [hc]) d (by simp [hd])
      obtain ⟨rfl, hrs⟩ :=
        ih hrest (fun b hb => hr b (by simp [hb])) (fun a ha => hs a (by simp [ha]))
        htail
      exact ⟨rfl, hrs⟩

/-- The text does not begin with a digit. -/
def NoDigit (r : List Char) : Prop :=
  ∀ c ∈ r.head?, c.isDigit = false

theorem noDigit_nil : NoDigit [] := by
  simp [NoDigit]

theorem noDigit_cons {c : Char} (h : c.isDigit = false) (r : List Char) : NoDigit (c :: r) := by
  simp [NoDigit, h]

/-- Two runs of digits that begin one text are the same run. -/
theorem digits_append_inj (hd : ∀ c ∈ ds, c.isDigit = true) (he : ∀ c ∈ es, c.isDigit = true)
    (hr : NoDigit r) (hs : NoDigit s) (h : ds ++ r = es ++ s) : ds = es ∧ r = s := by
  induction ds generalizing es with
  | nil =>
    cases es with
    | nil => exact ⟨rfl, h⟩
    | cons e es =>
      have hhead : e ∈ r.head? := by
        rw [List.nil_append] at h
        simp [h]
      have hfalse := hr e hhead
      rw [he e (by simp)] at hfalse
      cases hfalse
  | cons d ds ih =>
    cases es with
    | nil =>
      have hhead : d ∈ s.head? := by
        rw [List.nil_append] at h
        simp [← h]
      have hfalse := hs d hhead
      rw [hd d (by simp)] at hfalse
      cases hfalse
    | cons e es =>
      rw [List.cons_append, List.cons_append] at h
      obtain ⟨rfl, htail⟩ := List.cons.inj h
      have hds : ∀ c ∈ ds, c.isDigit = true := fun c hc => hd c (by simp [hc])
      have hes : ∀ c ∈ es, c.isDigit = true := fun c hc => he c (by simp [hc])
      obtain ⟨rfl, hrs⟩ := ih hds hes htail
      exact ⟨rfl, hrs⟩

theorem isDigit_of_mem_decimal {c : Char} (h : c ∈ decimal n) : c.isDigit = true :=
  Nat.isDigit_of_mem_toDigits (by decide) (by decide) h

theorem isDigit_of_mem_padded {c : Char} (h : c ∈ padded width n) : c.isDigit = true := by
  rcases List.mem_append.mp h with h | h
  · obtain rfl := (List.mem_replicate.mp h).2
    rfl
  · exact isDigit_of_mem_decimal h

theorem ofDigitChars_padded (width n : Nat) : Nat.ofDigitChars 10 (padded width n) 0 = n := by
  rw [padded, Nat.ofDigitChars_append, Nat.ofDigitChars_replicate_zero, Nat.mul_zero]
  exact Nat.ofDigitChars_ten_toDigits

theorem padded_append_inj (hr : NoDigit r) (hs : NoDigit s)
    (h : padded width m ++ r = padded width n ++ s) : m = n ∧ r = s := by
  obtain ⟨hmn, hrs⟩ := digits_append_inj (fun _ hc => isDigit_of_mem_padded hc)
    (fun _ hc => isDigit_of_mem_padded hc) hr hs h
  have hvalue := congrArg (Nat.ofDigitChars 10 · 0) hmn
  simp only [ofDigitChars_padded] at hvalue
  exact ⟨hvalue, hrs⟩

theorem padded_zero (n : Nat) : padded 0 n = decimal n := by
  simp [padded]

theorem decimal_append_inj (hr : NoDigit r) (hs : NoDigit s)
    (h : decimal m ++ r = decimal n ++ s) : m = n ∧ r = s := by
  rw [← padded_zero, ← padded_zero] at h
  exact padded_append_inj hr hs h

/-- A decimal numeral begins with a digit. -/
theorem exists_decimal_eq_cons (n : Nat) : ∃ c cs, decimal n = c :: cs ∧ c.isDigit = true := by
  cases h : decimal n with
  | nil => exact absurd h Nat.toDigits_ne_nil
  | cons c cs => exact ⟨c, cs, rfl, isDigit_of_mem_decimal (by rw [h]; simp)⟩

theorem minus_not_decimal : '-' :: ds ≠ decimal n ++ s := by
  obtain ⟨c, cs, hc, hdigit⟩ := exists_decimal_eq_cons n
  rw [hc]
  intro h
  obtain ⟨rfl, -⟩ := List.cons.inj h
  cases hdigit

theorem signed_append_inj {a b : Int} (hr : NoDigit r) (hs : NoDigit s)
    (h : signed a ++ r = signed b ++ s) : a = b ∧ r = s := by
  unfold signed at h
  split at h
  · next ha =>
    split at h
    · next hb =>
      obtain ⟨hab, hrs⟩ := decimal_append_inj hr hs (List.cons.inj h).2
      exact ⟨by omega, hrs⟩
    · exact absurd h minus_not_decimal
  · next ha =>
    split at h
    · exact absurd h.symm minus_not_decimal
    · next hb =>
      obtain ⟨hab, hrs⟩ := decimal_append_inj hr hs h
      exact ⟨by omega, hrs⟩

theorem digitChar_inj (hm : m < 16) (hn : n < 16) (h : Nat.digitChar m = Nat.digitChar n) :
    m = n := by
  have hall : ∀ a < 16, ∀ b < 16, Nat.digitChar a = Nat.digitChar b → a = b := by decide
  exact hall m hm n hn h

theorem hex_inj (h : hex width m = hex width n) : m % 16 ^ width = n % 16 ^ width := by
  induction width generalizing m n with
  | zero => simp [Nat.mod_one]
  | succ width ih =>
    obtain ⟨hhigh, hlow⟩ := List.append_inj' h rfl
    have hdiv := ih hhigh
    have hmod : m % 16 = n % 16 :=
      digitChar_inj (Nat.mod_lt _ (by decide)) (Nat.mod_lt _ (by decide)) (List.cons.inj hlow).1
    rw [Nat.pow_succ, Nat.mul_comm, Nat.mod_mul, Nat.mod_mul, hdiv, hmod]

theorem hex_append_inj (h : hex width m ++ r = hex width n ++ s) :
    m % 16 ^ width = n % 16 ^ width ∧ r = s := by
  obtain ⟨hmn, hrs⟩ := List.append_inj h (by simp)
  exact ⟨hex_inj hmn, hrs⟩

theorem exists_of_mem_toDigits_sixteen {c : Char} (h : c ∈ Nat.toDigits 16 n) :
    ∃ d < 16, c = Nat.digitChar d := by
  induction n using Nat.strongRecOn with
  | ind n ih =>
    rw [Nat.toDigits_eq_if (by decide)] at h
    split at h
    · next hn => exact ⟨n, hn, List.mem_singleton.mp h⟩
    · rcases List.mem_append.mp h with h | h
      · exact ih (n / 16) (by omega) h
      · exact ⟨n % 16, Nat.mod_lt _ (by decide), List.mem_singleton.mp h⟩

theorem toDigits_sixteen_inj (h : Nat.toDigits 16 m = Nat.toDigits 16 n) : m = n := by
  have hsingle : ∀ {ds : List Char} {c d : Char}, ds ++ [c] = [d] → ds = [] := fun h =>
    (List.append_eq_singleton_iff.mp h).elim (·.1) fun h => nomatch h.2
  induction m using Nat.strongRecOn generalizing n with
  | ind m ih =>
    rw [Nat.toDigits_eq_if (by decide), Nat.toDigits_eq_if (n := n) (by decide)] at h
    split at h
    · next hm =>
      split at h
      · next hn => exact digitChar_inj hm hn (List.cons.inj h).1
      · exact absurd (hsingle h.symm) Nat.toDigits_ne_nil
    · split at h
      · exact absurd (hsingle h) Nat.toDigits_ne_nil
      · next hm hn =>
        obtain ⟨hhigh, hlow⟩ := List.append_inj' h rfl
        have hdiv := ih (m / 16) (by omega) hhigh
        have hmod : m % 16 = n % 16 :=
          digitChar_inj (Nat.mod_lt _ (by decide)) (Nat.mod_lt _ (by decide)) (List.cons.inj hlow).1
        omega

end DocQuery.Text
