import DocQuery.Proofs.Predicate.Meaning

/-!
# Appending a predicate

A conjunctive predicate at the end of a list narrows it: `holds_append_iff` says that the filter
document of the longer list holds exactly when that of the list and that of the predicate hold,
whatever connectives the list has. A list can be compiled when the longer list can
(`exists_compileFilter_of_append`).
-/

namespace DocQuery

namespace Predicate
variable {L : Reading} {p g : Predicate} {ps : List Predicate} {own : List Bool} {ms : List Prop}
  {m : Prop} {c : Clause} {es : Entries}

/-- The general form of a list's meaning covers the empty list and the single predicate. -/
theorem jointMeaning_iff :
    jointMeaning own ms ↔ (∀ i m, ms[i]? = some m → ¬ JoinedByOr own i → m) ∧
      ((∃ i < ms.length, JoinedByOr own i) → ∃ i m, ms[i]? = some m ∧ JoinedByOr own i ∧ m) := by
  match ms with
  | [] => simp [jointMeaning]
  | [m] =>
    have hget : ∀ i m', [m][i]? = some m' ↔ i = 0 ∧ m = m' := by
      intro i m'
      cases i <;> simp
    simp only [jointMeaning, hget]
    by_cases h : JoinedByOr own 0
    · constructor
      · exact fun hm => ⟨by rintro _ _ ⟨rfl, rfl⟩ hn; exact absurd h hn,
          fun _ => ⟨0, m, ⟨rfl, rfl⟩, h, hm⟩⟩
      · rintro ⟨-, hsome⟩
        obtain ⟨_, _, ⟨rfl, rfl⟩, -, hm⟩ := hsome ⟨0, by simp, h⟩
        exact hm
    · constructor
      · refine fun hm => ⟨by rintro _ _ ⟨rfl, rfl⟩ -; exact hm, ?_⟩
        rintro ⟨i, hi, hj⟩
        obtain rfl : i = 0 := by simpa using hi
        exact absurd hj h
      · exact fun hall => hall.1 0 m ⟨rfl, rfl⟩ h
  | _ :: _ :: _ => exact Iff.rfl

/-- A conjunctive connective at the end joins nothing else to the disjunction. -/
theorem joinedByOr_append (i : Nat) : JoinedByOr (own ++ [false]) i ↔ JoinedByOr own i := by
  have hget : ∀ j : Nat, (own ++ [false])[j]? = some true ↔ own[j]? = some true := by
    intro j
    rw [List.getElem?_append]
    split
    · exact Iff.rfl
    · next hj =>
      rw [List.getElem?_eq_none (by omega : own.length ≤ j)]
      cases hk : j - own.length <;> simp
  unfold JoinedByOr
  rw [hget, hget]

theorem not_joinedByOr_length (hlen : own.length = ms.length) :
    ¬ JoinedByOr own ms.length := by
  rintro (h | ⟨h0, h⟩)
  · obtain ⟨hlt, -⟩ := List.getElem?_eq_some_iff.mp h
    omega
  · obtain ⟨hlt, -⟩ := List.getElem?_eq_some_iff.mp h
    omega

theorem jointMeaning_append (hlen : own.length = ms.length) :
    jointMeaning (own ++ [false]) (ms ++ [m]) ↔ jointMeaning own ms ∧ m := by
  have hnot := not_joinedByOr_length hlen
  have hget : ∀ i m', (ms ++ [m])[i]? = some m' ↔ ms[i]? = some m' ∨ i = ms.length ∧ m = m' := by
    intro i m'
    rw [List.getElem?_append]
    split
    · next hi => simp; omega
    · next hi =>
      rw [List.getElem?_eq_none (by omega : ms.length ≤ i)]
      cases hk : i - ms.length <;> simp <;> omega
  rw [jointMeaning_iff, jointMeaning_iff]
  simp only [joinedByOr_append, hget]
  constructor
  · rintro ⟨hall, hsome⟩
    refine ⟨⟨fun i m' hm' => hall i m' (.inl hm'), ?_⟩, hall ms.length m (.inr ⟨rfl, rfl⟩) hnot⟩
    rintro ⟨i, hi, hj⟩
    obtain ⟨k, m', hm' | ⟨rfl, rfl⟩, hk, hm⟩ := hsome ⟨i, by simp; omega, hj⟩
    · exact ⟨k, m', hm', hk, hm⟩
    · exact absurd hk hnot
  · rintro ⟨⟨hall, hsome⟩, hm⟩
    constructor
    · rintro i m' (hm' | ⟨rfl, rfl⟩) hj
      · exact hall i m' hm' hj
      · exact hm
    · rintro ⟨i, hi, hj⟩
      have hlt : i < ms.length := by
        by_contra hge
        obtain rfl : i = ms.length := by simp at hi; omega
        exact hnot hj
      obtain ⟨k, m', hm', hk, hm⟩ := hsome ⟨i, hlt, hj⟩
      exact ⟨k, m', .inl hm', hk, hm⟩

theorem meanings_append (ps qs : List Predicate) :
    meanings L (ps ++ qs) = meanings L ps ++ meanings L qs := by
  induction ps with
  | nil => rfl
  | cons p ps ih => rw [List.cons_append, meanings, ih, meanings, List.cons_append]

theorem listMeaning_append (hg : g.isOr = false) :
    listMeaning L (ps ++ [g]) ↔ listMeaning L ps ∧ listMeaning L [g] := by
  unfold listMeaning
  rw [meanings_append, List.map_append, List.map_singleton, hg]
  exact jointMeaning_append (by rw [List.length_map, length_meanings])

/-- Both parts of a list can be compiled when the list can. -/
theorem exists_compileFilter_of_append {qs : List Predicate}
    (h : compileFilter (ps ++ qs) = .ok es) :
    (∃ doc, compileFilter ps = .ok doc) ∧ ∃ doc, compileFilter qs = .ok doc := by
  obtain ⟨cs, hcs, hd⟩ := compileFilter_eq_ok_iff.mp h
  obtain ⟨as, bs, has, hbs, rfl⟩ := clauses_append_eq_ok_iff.mp hcs
  have hr :=
    (exists_render_assemble_iff (length_of_clauses hcs) (normal_of_clauses hcs)).mp ⟨es, hd⟩
  have of_part : ∀ {rs : List Predicate} {ds : List Clause}, clauses rs = .ok ds →
      (∀ d ∈ ds, d ∈ as ++ bs) → ∃ doc, compileFilter rs = .ok doc := by
    intro rs ds hds hsub
    obtain ⟨doc, hdoc⟩ := (exists_render_assemble_iff (length_of_clauses hds)
      (normal_of_clauses hds)).mpr fun d hmem => hr d (hsub d hmem)
    exact ⟨doc, compileFilter_eq_ok_iff.mpr ⟨ds, hds, hdoc⟩⟩
  exact ⟨of_part has fun d hd => List.mem_append_left bs hd,
    of_part hbs fun d hd => List.mem_append_right as hd⟩

/-- A conjunctive predicate at the end narrows the list to what it means itself. -/
theorem holds_append_iff {doc own whole : Entries} (hg : g.isOr = false)
    (hdoc : compileFilter ps = .ok doc) (hown : compileFilter [g] = .ok own)
    (hwhole : compileFilter (ps ++ [g]) = .ok whole) :
    whole.Holds L ↔ doc.Holds L ∧ own.Holds L := by
  obtain ⟨_, hcs, hd⟩ := compileFilter_eq_ok_iff.mp hdoc
  obtain ⟨_, hcs', hd'⟩ := compileFilter_eq_ok_iff.mp hown
  obtain ⟨_, hcs'', hd''⟩ := compileFilter_eq_ok_iff.mp hwhole
  rw [holds_of_clauses hcs hd, holds_of_clauses hcs' hd', holds_of_clauses hcs'' hd'',
    listMeaning_append hg]

end Predicate

end DocQuery
