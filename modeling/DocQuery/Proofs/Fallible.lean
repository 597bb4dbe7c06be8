/-!
# Computations that may fail

When a computation in `Except` that is put together from others has a result: `bind_eq_ok_iff` and
`map_eq_ok_iff` take it apart, and never unfold the parts. A list of checks fails as the first check
that does (`forM_eq_error_iff`).
-/

namespace DocQuery
variable {ε α β : Type}

@[simp]
theorem pure_eq_ok_iff {a b : α} : (pure a : Except ε α) = .ok b ↔ a = b := by
  constructor
  · intro h; cases h; rfl
  · rintro rfl; rfl

@[simp]
theorem throw_ne_ok {e : ε} {a : α} : (throw e : Except ε α) ≠ .ok a := by
  intro h; cases h

theorem bind_eq_ok_iff {x : Except ε α} {f : α → Except ε β} {b : β} :
    (x >>= f) = .ok b ↔ ∃ a, x = .ok a ∧ f a = .ok b := by
  cases x with
  | error e => simp [bind, Except.bind]
  | ok a => simp [bind, Except.bind]

theorem bind_eq_error_iff {x : Except ε α} {f : α → Except ε β} {e : ε} :
    (x >>= f) = .error e ↔ x = .error e ∨ ∃ a, x = .ok a ∧ f a = .error e := by
  cases x with
  | error e => simp [bind, Except.bind]
  | ok a => simp [bind, Except.bind]

theorem check_bind_pure_eq_ok_iff {x : Except ε Unit} {a b : α} :
    (x >>= fun _ => pure a) = .ok b ↔ x = .ok () ∧ b = a := by
  rw [bind_eq_ok_iff]
  constructor
  · rintro ⟨⟨⟩, h, hb⟩
    exact ⟨h, (pure_eq_ok_iff.mp hb).symm⟩
  · rintro ⟨h, rfl⟩
    exact ⟨(), h, rfl⟩

theorem map_eq_ok_iff {x : Except ε α} {f : α → β} {b : β} :
    x.map f = .ok b ↔ ∃ a, x = .ok a ∧ f a = b := by
  cases x with
  | error e => simp [Except.map]
  | ok a => simp [Except.map]

theorem map_eq_error_iff {x : Except ε α} {f : α → β} {e : ε} :
    x.map f = .error e ↔ x = .error e := by
  cases x <;> simp [Except.map]

theorem map_pure_eq (a : α) (f : α → β) : (pure a : Except ε α).map f = pure (f a) := rfl

theorem map_bind_eq {γ : Type} (x : Except ε α) (f : α → Except ε β) (g : β → γ) :
    (x >>= f).map g = x >>= fun a => (f a).map g := by
  cases x <;> rfl

theorem foldlM_cons_of_ok {f : β → α → Except ε β} {a : α} {b c : β} (h : f b a = .ok c)
    (as : List α) : (a :: as).foldlM f b = as.foldlM f c := by
  rw [List.foldlM_cons, h]
  rfl

theorem exists_mapM {f : α → Except ε β} {as : List α} (h : ∀ a ∈ as, ∃ b, f a = .ok b) :
    ∃ bs, as.mapM f = .ok bs ∧ bs.length = as.length := by
  induction as with
  | nil => exact ⟨[], rfl, rfl⟩
  | cons a as ih =>
    obtain ⟨b, hb⟩ := h a (by simp)
    obtain ⟨bs, hbs, hlen⟩ := ih fun a ha => h a (by simp [ha])
    refine ⟨b :: bs, ?_, by simp [hlen]⟩
    rw [List.mapM_cons, hb]
    show (as.mapM f >>= fun bs => pure (b :: bs)) = _
    rw [hbs]
    rfl

theorem mapM_cons_eq_ok_iff {f : α → Except ε β} {a : α} {as : List α} {bs : List β} :
    (a :: as).mapM f = .ok bs ↔ ∃ b cs, f a = .ok b ∧ as.mapM f = .ok cs ∧ bs = b :: cs := by
  rw [List.mapM_cons]
  simp only [bind_eq_ok_iff, pure_eq_ok_iff]
  constructor
  · rintro ⟨b, hb, cs, hcs, rfl⟩; exact ⟨b, cs, hb, hcs, rfl⟩
  · rintro ⟨b, cs, hb, hcs, rfl⟩; exact ⟨b, hb, cs, hcs, rfl⟩

theorem exists_of_mapM {f : α → Except ε β} {as : List α} {bs : List β} (h : as.mapM f = .ok bs) :
    ∀ a ∈ as, ∃ b, f a = .ok b := by
  induction as generalizing bs with
  | nil => simp
  | cons a as ih =>
    obtain ⟨b, cs, hb, hcs, rfl⟩ := mapM_cons_eq_ok_iff.mp h
    exact List.forall_mem_cons.mpr ⟨⟨b, hb⟩, ih hcs⟩

theorem exists_of_mapM_eq_error {f : α → Except ε β} {as : List α} {e : ε}
    (h : as.mapM f = .error e) : ∃ a ∈ as, f a = .error e := by
  induction as with
  | nil => exact nomatch h
  | cons a as ih =>
    rw [List.mapM_cons] at h
    rcases bind_eq_error_iff.mp h with ha | ⟨b, -, h⟩
    · exact ⟨a, by simp, ha⟩
    · rcases bind_eq_error_iff.mp h with has | ⟨bs, -, h⟩
      · obtain ⟨c, hc, hce⟩ := ih has
        exact ⟨c, by simp [hc], hce⟩
      · exact nomatch h

/-! ### Lists of checks -/

variable {check : α → Except ε Unit} {a : α} {as before after : List α} {e : ε}

theorem forM_cons_of_ok (h : check a = .ok ()) (as : List α) :
    forM (a :: as) check = forM as check := by
  rw [List.forM_cons, h]
  rfl

theorem forM_eq_ok_iff : forM as check = .ok () ↔ ∀ a ∈ as, check a = .ok () := by
  induction as with
  | nil => exact iff_of_true rfl (by simp)
  | cons a as ih =>
    rw [List.forM_cons, List.forall_mem_cons, bind_eq_ok_iff, ih]
    exact ⟨fun ⟨_, h⟩ => h, fun h => ⟨(), h⟩⟩

theorem forM_eq_error_of_first (hbefore : ∀ b ∈ before, check b = .ok ())
    (h : check a = .error e) (after : List α) :
    forM (before ++ a :: after) check = .error e := by
  induction before with
  | nil =>
    rw [List.nil_append, List.forM_cons, h]
    rfl
  | cons b before ih =>
    rw [List.cons_append, forM_cons_of_ok (hbefore b (by simp))]
    exact ih fun c hc => hbefore c (by simp [hc])

theorem forM_eq_error_iff : forM as check = .error e ↔
    ∃ before a after, as = before ++ a :: after ∧ (∀ b ∈ before, check b = .ok ()) ∧
      check a = .error e := by
  constructor
  · intro h
    induction as with
    | nil => exact nomatch h
    | cons a as ih =>
      cases ha : check a with
      | error e' =>
        rw [List.forM_cons, ha] at h
        obtain rfl : e' = e := Except.error.inj h
        exact ⟨[], a, as, rfl, by simp, ha⟩
      | ok =>
        obtain ⟨before, b, after, rfl, hbefore, hb⟩ := ih (forM_cons_of_ok ha as ▸ h)
        exact ⟨a :: before, b, after, rfl, List.forall_mem_cons.mpr ⟨ha, hbefore⟩, hb⟩
  · rintro ⟨before, a, after, rfl, hbefore, h⟩
    exact forM_eq_error_of_first hbefore h after

/-- A computation for its fault only. -/
def discard (x : Except ε α) : Except ε Unit :=
  x.map fun _ => ()

theorem discard_eq_ok_iff {x : Except ε α} : discard x = .ok () ↔ ∃ a, x = .ok a := by
  cases x <;> simp [discard, Except.map]

theorem discard_eq_error_iff {x : Except ε α} : discard x = .error e ↔ x = .error e :=
  map_eq_error_iff

theorem discard_bind (x : Except ε α) (f : α → Except ε β) :
    discard (x >>= f) = x >>= fun a => discard (f a) :=
  map_bind_eq x f fun _ => ()

theorem discard_bind_pure (x : Except ε α) (f : α → β) :
    discard (x >>= fun a => pure (f a)) = discard x := by
  cases x <;> rfl

theorem discard_bind_bind_pure {γ : Type} (x : Except ε α) (y : Except ε β) (f : α → β → γ) :
    discard (x >>= fun a => y >>= fun b => pure (f a b)) = discard x >>= fun _ => discard y := by
  cases x with
  | error => rfl
  | ok a => exact discard_bind_pure y (f a)

/-- What follows a computation whose result it does not use. -/
theorem discard_bind_const (x : Except ε α) (y : Except ε β) :
    (discard x >>= fun _ => y) = x >>= fun _ => y := by
  cases x <;> rfl

theorem discard_map (x : Except ε α) (f : α → β) : discard (x.map f) = discard x := by
  cases x <;> rfl

/-- Fails with a fault unless a test is passed. -/
def failUnless (passed : Bool) (e : ε) : Except ε Unit :=
  if passed then .ok () else .error e

theorem failUnless_and (a b : Bool) (e : ε) :
    failUnless (a && b) e = failUnless a e >>= fun _ => failUnless b e := by
  cases a <;> rfl

theorem exists_ok_iff_of_discard {x : Except ε α} {passed : Bool}
    (h : discard x = failUnless passed e) : (∃ a, x = .ok a) ↔ passed = true := by
  rw [← discard_eq_ok_iff, h]
  cases passed <;> simp [failUnless]

theorem eq_error_iff_of_discard {x : Except ε α} {passed : Bool} {e' : ε}
    (h : discard x = failUnless passed e) : x = .error e' ↔ passed = false ∧ e' = e := by
  rw [← discard_eq_error_iff, h]
  cases passed <;> simp [failUnless, eq_comm]

end DocQuery
